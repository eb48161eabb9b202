import BrokerAdmin.Toml.Value

set_option autoImplicit false

/-!
Values of a document as values of a program, whatever they are for. Kinds are taken strictly: a
string is a string, a size an integer that is not negative. A section may also be an array of its
values in the order of their declaration.
-/

namespace BrokerAdmin.Strict

open Toml (Value)

/-- How a value gives the settings of a section by position and name, if it can be a section. A
date or time is one without settings. -/
def section? : Value → Option (Nat → String → Option Value)
  | .table entries => some fun _ name => Toml.lookup? entries name
  | .array items => some fun position _ => items[position]?
  | .moment _ => some fun _ _ => none
  | _ => none

def orDefault {α : Type} (decode : Value → Option α) (default : α) : Option Value → Option α
  | some v => decode v
  | none => some default

def text? : Value → Option String
  | .string s => some s
  | _ => none

def size? : Value → Option UInt64
  | .integer n => if 0 ≤ n then some (UInt64.ofNat n.toNat) else none
  | _ => none

end BrokerAdmin.Strict
