import BrokerAdmin.Decimal.Binary64
import BrokerAdmin.Toml.Space

set_option autoImplicit false

/-!
Numbers of a TOML document. Underscores may stand between digits, decimal numbers have no leading
zeros, integers fit a signed word of 64 bits, and a number too large for a float is refused.
-/

namespace BrokerAdmin.Toml

/-- The digits that go on from a digit, each with at most one underscore before it. -/
def moreDigits (ok : Char → Bool) : List Char → List Char × List Char
  | '_' :: c :: cs =>
    if ok c then
      let (ds, rest) := moreDigits ok cs
      (c :: ds, rest)
    else ([], '_' :: c :: cs)
  | c :: cs =>
    if ok c then
      let (ds, rest) := moreDigits ok cs
      (c :: ds, rest)
    else ([], c :: cs)
  | [] => ([], [])

def digits? (ok : Char → Bool) : Reader (List Char)
  | [] => none
  | c :: cs =>
    if ok c then
      let (ds, rest) := moreDigits ok cs
      some (c :: ds, rest)
    else none

/-- A decimal whole number without sign: zero, or digits that do not begin with zero. -/
def whole? : Reader (List Char)
  | '0' :: cs => some (['0'], cs)
  | cs => digits? Char.isDigit cs

def sign : List Char → List Char × List Char
  | '+' :: cs => (['+'], cs)
  | '-' :: cs => (['-'], cs)
  | cs => ([], cs)

def places? : Reader (List Char)
  | '.' :: cs => (digits? Char.isDigit cs).map fun (ds, rest) => ('.' :: ds, rest)
  | _ => none

def exponent? : Reader (List Char)
  | e :: cs =>
    if e = 'e' ∨ e = 'E' then do
      let (s, cs) := sign cs
      let (ds, rest) ← digits? Char.isDigit cs
      return ('e' :: (s ++ ds), rest)
    else none
  | [] => none

def specialFloat? : Reader Decimal.Binary64 := fun cs =>
  let (s, cs) := sign cs
  match cs with
  | 'i' :: 'n' :: 'f' :: rest => some (.infinite (s == ['-']), rest)
  | 'n' :: 'a' :: 'n' :: rest => some (.nan, rest)
  | _ => none

def decimalFloat? : Reader Decimal.Binary64 := fun cs => do
  let (s, cs) := sign cs
  let (w, cs) ← whole? cs
  let (tail, rest) ← match places? cs with
    | some (p, cs) =>
      match exponent? cs with
      | some (e, rest) => some (p ++ e, rest)
      | none => some (p, cs)
    | none => exponent? cs
  let x ← Decimal.Binary64.read? (s ++ w ++ tail)
  if x = .infinite false then none else some (x, rest)

def float? : Reader Decimal.Binary64 := fun cs => decimalFloat? cs <|> specialFloat? cs

def basedInteger? (base : Nat) (ok : Char → Bool) : Reader Int := fun cs => do
  let (ds, rest) ← digits? ok cs
  let n ← Decimal.natural? base ds
  if n < Decimal.signedLimit then some ((n : Int), rest) else none

def isHexDigit (c : Char) : Bool :=
  c.isDigit || ('a' ≤ c && c ≤ 'f') || ('A' ≤ c && c ≤ 'F')

def isOctalDigit (c : Char) : Bool := '0' ≤ c && c ≤ '7'

def isBinaryDigit (c : Char) : Bool := c = '0' || c = '1'

def integer? : Reader Int := fun cs =>
  match cs with
  | '0' :: 'x' :: rest => basedInteger? 16 isHexDigit rest
  | '0' :: 'o' :: rest => basedInteger? 8 isOctalDigit rest
  | '0' :: 'b' :: rest => basedInteger? 2 isBinaryDigit rest
  | _ => do
    let (s, cs) := sign cs
    let (w, rest) ← whole? cs
    let n ← Decimal.signedWord? (s ++ w)
    return (n, rest)

end BrokerAdmin.Toml
