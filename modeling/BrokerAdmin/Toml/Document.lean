import BrokerAdmin.Toml.Reader

set_option autoImplicit false

/-!
TOML documents, whatever they are for: lines with a key and a value, which belong to the table of
the latest header. This is what a library for TOML does; what settings are made of a document is
said where they are read.
-/

namespace BrokerAdmin.Toml

/-- A document while it is read: all entries, and the path of the latest header. -/
structure Draft where
  root : Entries := []
  path : List String := []

namespace Draft

def addValue (d : Draft) (parents : List String) (name : String) (v : Value) : Option Draft :=
  (Entries.within (Entries.addValue parents name v) d.path d.root).map fun root => { d with root }

def openTable (d : Draft) (parents : List String) (name : String) : Option Draft :=
  (Entries.within (Entries.claimTable name) parents d.root).map fun root =>
    ⟨root, parents ++ [name]⟩

def openElement (d : Draft) (parents : List String) (name : String) : Option Draft :=
  (Entries.within (Entries.addElement name) parents d.root).map fun root =>
    ⟨root, parents ++ [name]⟩

/-- Reads one line that is not empty and no comment, up to what follows its last part. -/
def line? (d : Draft) : Reader Draft := fun cs =>
  match cs with
  | '[' :: '[' :: cs => do
    let ((parents, name), cs) ← key? depthLimit cs
    let cs ← exactly? ']' cs
    let cs ← exactly? ']' cs
    return (← d.openElement parents name, cs)
  | '[' :: cs => do
    let ((parents, name), cs) ← key? depthLimit cs
    let cs ← exactly? ']' cs
    return (← d.openTable parents name, cs)
  | _ => do
    let (((parents, name), v), cs) ← keyValue? (value? depthLimit) cs
    return (← d.addValue parents name v, cs)

/-- Reads all lines, fewer than `fuel` of them with content. -/
def lines? : (fuel : Nat) → Draft → List Char → Option Draft
  | 0, _, _ => none
  | fuel + 1, d, cs => do
    match ← skipLines? false cs with
    | [] => return d
    | cs =>
      let (d, cs) ← d.line? cs
      lines? fuel d (← finishLine? cs)

end Draft

/-- The entries of a document. A byte order mark before it does not count. -/
def parse (text : String) : Option (List (String × Value)) :=
  let cs := match text.toList with
    | '\ufeff' :: rest => rest
    | cs => cs
  (Draft.lines? (cs.length + 1) {} cs).map fun d => entriesToValues d.root

end BrokerAdmin.Toml
