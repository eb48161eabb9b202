set_option autoImplicit false

/-!
What separates the parts of a TOML document: blanks within a line, comments, and line ends, which
are a line feed with or without a carriage return before it.
-/

namespace BrokerAdmin.Toml

/-- A reader takes what it reads off the front of a text, or fails. -/
abbrev Reader (α : Type) := List Char → Option (α × List Char)

def isBlank (c : Char) : Bool := c = ' ' || c = '\t'

def skipBlanks (cs : List Char) : List Char := cs.dropWhile isBlank

def lineEnd? : List Char → Option (List Char)
  | '\n' :: cs => some cs
  | '\r' :: '\n' :: cs => some cs
  | _ => none

def isTextChar (c : Char) : Bool :=
  c = '\t' || (0x20 ≤ c.toNat && c.toNat ≤ 0x7e) || 0x80 ≤ c.toNat

/-- Finishes a line: blanks, a comment, and the line's end or that of the text. -/
def finishLine? (cs : List Char) : Option (List Char) :=
  let cs := match skipBlanks cs with
    | '#' :: rest => rest.dropWhile isTextChar
    | rest => rest
  if cs.isEmpty then some [] else lineEnd? cs

/-- Skips blanks, line ends and comments. A comment ends with its line or with the text. -/
def skipLines? : (inComment : Bool) → List Char → Option (List Char)
  | _, [] => some []
  | _, '\n' :: cs => skipLines? false cs
  | _, '\r' :: '\n' :: cs => skipLines? false cs
  | true, c :: cs => if isTextChar c then skipLines? true cs else none
  | false, c :: cs =>
    if isBlank c then skipLines? false cs
    else if c = '#' then skipLines? true cs
    else some (c :: cs)

end BrokerAdmin.Toml
