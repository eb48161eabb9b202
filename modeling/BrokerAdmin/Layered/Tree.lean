import BrokerAdmin.Config.Environment
import BrokerAdmin.Decimal.Binary64
import BrokerAdmin.Layered.Path
import BrokerAdmin.Toml.Value

set_option autoImplicit false

/-!
The tree in which layers of configuration are laid over each other, whatever is configured by it.
Names do not distinguish upper and lower case. A table is merged into what is there name by name, so
an empty table changes nothing; any other value replaces what is there. A path may lead into a
sequence, whose items are replaced one by one.

This is what a library for layered configuration does. What is made of it here, which layers there
are and which variables count, is said where settings are loaded.
-/

namespace BrokerAdmin

inductive Scalar where
  | text (s : String)
  | integer (n : Int)
  | float (x : Decimal.Binary64)
  | boolean (b : Bool)
  deriving DecidableEq, Repr

/-- A scalar knows whether it came from the environment. An item of a sequence may be missing when
only items behind it have been set. -/
inductive Tree where
  | scalar (value : Scalar) (fromEnvironment : Bool)
  | sequence (items : List (Option Tree))
  | table (entries : List (String × Tree))

namespace Tree

instance : Inhabited Tree := ⟨.table []⟩

/-- The lower case of a character, as far as it is an ASCII letter. -/
def lowerChar (c : Char) : Char := if c = '\u212a' then 'k' else c.toLower

def lower (name : String) : String := String.ofList (name.toList.map lowerChar)

/-- The entries of a table. Anything else has none. -/
def entries : Tree → List (String × Tree)
  | .table es => es
  | _ => []

def child? (t : Tree) (name : String) : Option Tree :=
  (t.entries.find? fun e => e.1 == name).map (·.2)

/-- Changes what is under a name, making a table of what is none. -/
def alter (t : Tree) (name : String) (f : Option Tree → Tree) : Tree :=
  let name := lower name
  let new := f (t.child? name)
  if (t.child? name).isSome then
    .table (t.entries.map fun e => if e.1 == name then (name, new) else e)
  else .table (t.entries ++ [(name, new)])

mutual

def layOver : Tree → Option Tree → Tree
  | .table es, old => mergeEntries es (old.getD (.table []))
  | .scalar v o, _ => .scalar v o
  | .sequence items, _ => .sequence items

def mergeEntries : List (String × Tree) → Tree → Tree
  | [], t => t
  | (name, v) :: rest, t => mergeEntries rest (t.alter name (layOver v))

end

def items : Tree → List (Option Tree)
  | .sequence items => items
  | _ => []

/-- The place of a position among `length` items, unless it counts back past the first. A place
behind the last item is one too. -/
def place? (position : Int) (length : Nat) : Option Nat :=
  if 0 ≤ position then some position.toNat
  else if position.natAbs ≤ length then some (length - position.natAbs)
  else none

/-- Changes an item, making a sequence of what is none. Items before it may stay missing. -/
def alterItem (t : Tree) (position : Int) (f : Option Tree → Tree) : Tree :=
  match place? position t.items.length with
  | some i =>
    let items := t.items ++ List.replicate (i + 1 - t.items.length) none
    .sequence (items.set i (some (f t.items[i]?.join)))
  | none => .sequence t.items

/-- Lays a value over what is at the end of a path. An item is replaced, not merged. -/
def setAt (v : Tree) : Path → Tree → Tree
  | [], t => t
  | [.name s], t => t.alter s v.layOver
  | [.item position], t => t.alterItem position fun _ => v
  | .name s :: rest, t => t.alter s fun old => setAt v rest (old.getD (.table []))
  | .item position :: rest, t =>
    t.alterItem position fun old => setAt v rest (old.getD (.table []))

mutual

/-- A value of a document. Dates and times count as text. -/
def ofToml : Toml.Value → Tree
  | .string s => .scalar (.text s) false
  | .integer n => .scalar (.integer n) false
  | .float x => .scalar (.float x) false
  | .boolean b => .scalar (.boolean b) false
  | .moment t => .scalar (.text t) false
  | .array items => .sequence (itemsOfToml items)
  | .table es => .table (entriesOfToml es)

def itemsOfToml : List Toml.Value → List (Option Tree)
  | [] => []
  | v :: rest => some (ofToml v) :: itemsOfToml rest

def entriesOfToml : List (String × Toml.Value) → List (String × Tree)
  | [] => []
  | (name, v) :: rest => (name, ofToml v) :: entriesOfToml rest

end

/-- Lays a document over the tree. Names at its top are paths, in lower case. -/
def overlayDocument (es : List (String × Toml.Value)) (t : Tree) : Tree :=
  es.foldl (fun t e => setAt (ofToml e.2) (.ofText (lower e.1)) t) t

/-- What a variable's text means: a truth value in any case, an integer, a float, or itself. -/
def scalarOf (s : String) : Scalar :=
  let cs := s.toList
  let word := String.ofList (cs.map Char.toLower)
  if word == "true" then .boolean true
  else if word == "false" then .boolean false
  else
    match Decimal.signedWord? cs with
    | some n => .integer n
    | none =>
      match Decimal.Binary64.read? cs with
      | some x => .float x
      | none => .text s

def dotted : List Char → List Char
  | '_' :: '_' :: cs => '.' :: dotted cs
  | c :: cs => c :: dotted cs
  | [] => []

/-- The path that a variable's name stands for, if it begins with the mark. -/
def variablePath? (mark : List Char) (name : String) : Option Path :=
  let cs := name.toList.map lowerChar
  if mark.isPrefixOf cs then
    some (.ofText (String.ofList (dotted (cs.drop mark.length))))
  else none

/-- Lays a variable over the tree, if its name begins with the mark. One whose value is no Unicode
text is passed over here, where the library gives up; what is said of layers is said of environments
in which each variable with the mark has a text. -/
def overlayVariable (mark : List Char) (t : Tree) (v : Variable) : Tree :=
  match variablePath? mark v.name, v.value with
  | some path, some value => setAt (.scalar (scalarOf value) true) path t
  | _, _ => t

def overlayEnvironment (mark : List Char) (env : Environment) (t : Tree) : Tree :=
  env.foldl (overlayVariable mark) t

end Tree

end BrokerAdmin
