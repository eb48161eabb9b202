import BrokerAdmin.Toml.Moment
import BrokerAdmin.Toml.Node
import BrokerAdmin.Toml.Number
import BrokerAdmin.Toml.Text

set_option autoImplicit false

/-!
Keys and values of a TOML document. Arrays and inline tables nest to a fixed depth, and a dotted
key has a fixed number of parts; both limits also bound the recursion.
-/

namespace BrokerAdmin.Toml

/-- The most parts a key has and the deepest nesting of a value. -/
def depthLimit : Nat := 79

def isKeyChar (c : Char) : Bool := c.isAlphanum || c = '_' || c = '-'

/-- One part of a key: bare, or quoted within one line. -/
def keyPart? : Reader String := fun cs =>
  match cs with
  | '"' :: rest => (basicLine? rest).map fun (s, rest) => (String.ofList s, rest)
  | '\'' :: rest => (literalLine? rest).map fun (s, rest) => (String.ofList s, rest)
  | _ =>
    let bare := cs.takeWhile isKeyChar
    if bare.isEmpty then none else some (String.ofList bare, cs.dropWhile isKeyChar)

/-- A dotted key of at most `limit` parts as the parts before the last and the last one, with
blanks around all of them. -/
def key? : (limit : Nat) → Reader (List String × String)
  | 0, _ => none
  | limit + 1, cs => do
    let (part, cs) ← keyPart? (skipBlanks cs)
    match skipBlanks cs with
    | '.' :: cs =>
      let ((parents, name), cs) ← key? limit cs
      return ((part :: parents, name), cs)
    | cs => return (([], part), cs)

def scalar? : Reader Value := fun cs =>
  match cs with
  | '"' :: _ => (string? cs).map fun (s, rest) => (.string s, rest)
  | '\'' :: _ => (string? cs).map fun (s, rest) => (.string s, rest)
  | 't' :: 'r' :: 'u' :: 'e' :: rest => some (.boolean true, rest)
  | 'f' :: 'a' :: 'l' :: 's' :: 'e' :: rest => some (.boolean false, rest)
  | _ =>
    match moment? cs with
    | some (t, rest) => some (.moment t, rest)
    | none =>
      match float? cs with
      | some (x, rest) => some (.float x, rest)
      | none => (integer? cs).map fun (n, rest) => (.integer n, rest)

/-- The items of an array behind its bracket, at most `fuel` of them. A comma may follow the last
one. -/
def items? (item : Reader Value) : (fuel : Nat) → Reader (List Value)
  | 0, _ => none
  | fuel + 1, cs => do
    match ← skipLines? false cs with
    | ']' :: rest => return ([], rest)
    | cs =>
      let (v, cs) ← item cs
      match ← skipLines? false cs with
      | ']' :: rest => return ([v], rest)
      | ',' :: cs =>
        let (vs, rest) ← items? item fuel cs
        return (v :: vs, rest)
      | _ => none

def keyValue? (item : Reader Value) : Reader ((List String × String) × Value) := fun cs => do
  let (key, cs) ← key? depthLimit cs
  let cs ← exactly? '=' cs
  let (v, cs) ← item (skipBlanks cs)
  return ((key, v), skipBlanks cs)

/-- The fields of an inline table behind its brace, at most `fuel` of them, added to those read
before. No comma follows the last one. -/
def fields? (item : Reader Value) : (fuel : Nat) → Entries → Reader Entries
  | 0, _, _ => none
  | fuel + 1, es, cs => do
    let (((parents, name), v), cs) ← keyValue? item cs
    let es ← Entries.addValue parents name v es
    match cs with
    | '\x7d' :: rest => return (es, rest)
    | ',' :: cs => fields? item fuel es cs
    | _ => none

def inlineTable? (item : Reader Value) : Reader Value := fun cs =>
  match skipBlanks cs with
  | '\x7d' :: rest => some (.table [], rest)
  | cs => (fields? item cs.length [] cs).map fun (es, rest) => (.table (entriesToValues es), rest)

def value? : (depth : Nat) → Reader Value
  | depth + 1, '[' :: cs =>
    (items? (value? depth) (cs.length + 1) cs).map fun (vs, rest) => (.array vs, rest)
  | depth + 1, '\x7b' :: cs => inlineTable? (value? depth) cs
  | _, cs => scalar? cs

end BrokerAdmin.Toml
