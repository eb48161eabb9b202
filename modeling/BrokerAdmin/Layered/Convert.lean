import BrokerAdmin.Decimal.Shortest
import BrokerAdmin.Layered.Tree
import BrokerAdmin.Text.Quoted

set_option autoImplicit false

/-!
Values from a tree of layers, whatever is configured by it. Kinds are converted where that makes
sense: a size may be written as a number of any kind, a truth value or a word for one, and a text
may be any scalar. What cannot be converted is named together with its place. This again is what a
library for layered configuration does.
-/

namespace BrokerAdmin.Loose

inductive Found where
  | text (s : String)
  | integer (n : Int)
  | missing
  | sequence
  | table
  deriving DecidableEq, Repr

inductive Expected where
  | size
  | unsignedSize
  | text
  deriving DecidableEq, Repr

/-- A section of the configuration: its name in the tree, and what it is called where a value cannot
be one. -/
structure Section where
  name : String
  description : String
  deriving DecidableEq, Repr

/-- A value of the wrong kind: for a setting, with its path and whether it came from the
environment, or for a whole section. -/
inductive Mismatch where
  | setting (found : Found) (expected : Expected) (path : String) (fromEnvironment : Bool)
  | wholeSection (found : Scalar) (expected : Section)
  deriving DecidableEq, Repr

def Found.description : Found → String
  | .text s => "string " ++ Text.quote s
  | .integer n => "64-bit integer `" ++ toString n ++ "`"
  | .missing => "unit value"
  | .sequence => "sequence"
  | .table => "map"

def Expected.description : Expected → String
  | .size => "an integer"
  | .unsignedSize => "an unsigned 64 bit or less integer"
  | .text => "a string"

def scalarDescription : Scalar → String
  | .text s => "string " ++ Text.quote s
  | .integer n => "integer `" ++ toString n ++ "`"
  | .float x => "floating point `" ++ x.textWithPoint ++ "`"
  | .boolean b => "boolean `" ++ toString b ++ "`"

def Mismatch.message : Mismatch → String
  | .setting found expected path fromEnvironment =>
    "invalid type: " ++ found.description ++ ", expected " ++ expected.description ++
      " for key `" ++ path ++ "`" ++ if fromEnvironment then " in the environment" else ""
  | .wholeSection found expected =>
    "invalid type: " ++ scalarDescription found ++ ", expected " ++ expected.description

/-- The place of a setting, with its path. In a sequence it may be empty. -/
structure Place where
  path : String
  tree : Option Tree

def size (p : Place) : Except Mismatch UInt64 :=
  match p.tree with
  | some (.scalar (.integer n) env) =>
    if n < 0 then .error (.setting (.integer n) .unsignedSize p.path env)
    else .ok (UInt64.ofNat n.toNat)
  | some (.scalar (.boolean b) _) => .ok (if b then 1 else 0)
  | some (.scalar (.float x) _) => .ok x.toWord
  | some (.scalar (.text s) env) =>
    let word := String.ofList (s.toList.map Char.toLower)
    if word == "true" || word == "on" || word == "yes" then .ok 1
    else if word == "false" || word == "off" || word == "no" then .ok 0
    else
      match Decimal.unsignedWord? s.toList with
      | some n => .ok n
      | none => .error (.setting (.text s) .size p.path env)
  | none => .error (.setting .missing .size p.path false)
  | some (.sequence _) => .error (.setting .sequence .size p.path false)
  | some (.table _) => .error (.setting .table .size p.path false)

def scalarText : Scalar → String
  | .text s => s
  | .integer n => toString n
  | .float x => x.text
  | .boolean b => toString b

def text (p : Place) : Except Mismatch String :=
  match p.tree with
  | some (.scalar v _) => .ok (scalarText v)
  | none => .error (.setting .missing .text p.path false)
  | some (.sequence _) => .error (.setting .sequence .text p.path false)
  | some (.table _) => .error (.setting .table .text p.path false)

/-- How a tree gives the settings of a section by position and name. -/
def fields (s : Section) : Tree → Except Mismatch (Nat → String → Option Place)
  | .table es => .ok fun _ name =>
    ((Tree.table es).child? name).map fun t => ⟨s.name ++ "." ++ name, some t⟩
  | .sequence items => .ok fun position _ =>
    items[position]?.map fun t => ⟨s.name ++ "[" ++ toString position ++ "]", t⟩
  | .scalar v _ => .error (.wholeSection v s)

def orDefault {α : Type} (read : Place → Except Mismatch α) (default : α) :
    Option Place → Except Mismatch α
  | some p => read p
  | none => .ok default

def readSection {α : Type} (t : Tree) (s : Section) (default : α)
    (read : (Nat → String → Option Place) → Except Mismatch α) : Except Mismatch α :=
  match t.child? s.name with
  | some values => do read (← fields s values)
  | none => .ok default

end BrokerAdmin.Loose
