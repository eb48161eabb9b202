import BrokerAdmin.Toml.Value

set_option autoImplicit false

/-!
Tables of a TOML document while it is read. A table remembers how it came about, since that
decides who may still add to it: a header may claim a table that was only implied by a longer
header, and a dotted key may go only through tables that headers or dotted keys implied.
-/

namespace BrokerAdmin.Toml

/-- How a table came about: by its own header, by a longer header, or by a dotted key. -/
inductive Origin where
  | header
  | longerHeader
  | dottedKey
  deriving DecidableEq, Repr

inductive Node where
  | value (v : Value)
  | table (origin : Origin) (entries : List (String × Node))
  /-- The elements of an array of tables, the latest first. -/
  | tables (elements : List (List (String × Node)))

abbrev Entries := List (String × Node)

namespace Entries

def find? (es : Entries) (name : String) : Option Node :=
  (List.find? (fun e => e.1 == name) es).map (·.2)

def put (es : Entries) (name : String) (n : Node) : Entries :=
  if es.any (fun e => e.1 == name) then
    es.map fun e => if e.1 == name then (name, n) else e
  else es ++ [(name, n)]

/-- Adds a value under a dotted key. The name at its end must be new, and the table that holds it
must come from a dotted key too. -/
def addValue : (parents : List String) → (name : String) → Value → Entries → Option Entries
  | [], name, v, es => if (find? es name).isSome then none else some (put es name (.value v))
  | p :: ps, name, v, es =>
    match find? es p with
    | none => (addValue ps name v []).map fun inner => put es p (.table .dottedKey inner)
    | some (.table .dottedKey inner) =>
      (addValue ps name v inner).map fun inner => put es p (.table .dottedKey inner)
    | some (.table .longerHeader inner) =>
      if ps.isEmpty then none
      else (addValue ps name v inner).map fun inner => put es p (.table .longerHeader inner)
    | some (.tables (latest :: earlier)) =>
      if ps.isEmpty then none
      else (addValue ps name v latest).map fun inner => put es p (.tables (inner :: earlier))
    | _ => none

/-- Goes down a header's path, implying tables where there are none and entering the latest
element of an array of tables, and changes the table at its end. -/
def within (change : Entries → Option Entries) : List String → Entries → Option Entries
  | [], es => change es
  | p :: ps, es =>
    match find? es p with
    | none => (within change ps []).map fun inner => put es p (.table .longerHeader inner)
    | some (.table o inner) => (within change ps inner).map fun inner => put es p (.table o inner)
    | some (.tables (latest :: earlier)) =>
      (within change ps latest).map fun inner => put es p (.tables (inner :: earlier))
    | _ => none

/-- Claims a name for the table of a header. Its place is that of the header, at the end, also if
a longer header implied it before. -/
def claimTable (name : String) (es : Entries) : Option Entries :=
  match find? es name with
  | none => some (es ++ [(name, .table .header [])])
  | some (.table .longerHeader inner) =>
    some ((es.filter fun e => e.1 != name) ++ [(name, .table .header inner)])
  | _ => none

def addElement (name : String) (es : Entries) : Option Entries :=
  match find? es name with
  | none => some (put es name (.tables [[]]))
  | some (.tables elements) => some (put es name (.tables ([] :: elements)))
  | _ => none

end Entries

mutual

def Node.toValue : Node → Value
  | .value v => v
  | .table _ entries => .table (entriesToValues entries)
  | .tables elements => .array (elementsToValues elements [])

def entriesToValues : List (String × Node) → List (String × Value)
  | [] => []
  | (name, n) :: rest => (name, n.toValue) :: entriesToValues rest

/-- The elements of a finished array of tables, the earliest first. -/
def elementsToValues : List (List (String × Node)) → List Value → List Value
  | [], done => done
  | e :: rest, done => elementsToValues rest (.table (entriesToValues e) :: done)

end

end BrokerAdmin.Toml
