set_option autoImplicit false

/-!
Numerals: digits read in a base, signed whole numbers and decimal fractions with an exponent, as
they are written in configuration.
-/

namespace BrokerAdmin.Decimal

/-- The value of a digit; letters in either case stand for ten and more. -/
def digit? (c : Char) : Option Nat :=
  if c.isDigit then some (c.toNat - '0'.toNat)
  else if c.isLower then some (c.toNat - 'a'.toNat + 10)
  else if c.isUpper then some (c.toNat - 'A'.toNat + 10)
  else none

def foldDigits? (base : Nat) : Nat → List Char → Option Nat
  | n, [] => some n
  | n, c :: cs => do
    let d ← digit? c
    if d < base then foldDigits? base (n * base + d) cs else none

def natural? (base : Nat) (cs : List Char) : Option Nat :=
  if cs.isEmpty then none else foldDigits? base 0 cs

def takeSign : List Char → Bool × List Char
  | '-' :: cs => (true, cs)
  | '+' :: cs => (false, cs)
  | cs => (false, cs)

def integer? (cs : List Char) : Option Int :=
  let (negative, digits) := takeSign cs
  (natural? 10 digits).map fun n => if negative then -(n : Int) else n

/-- The least number that no signed word of 64 bits holds. -/
def signedLimit : Nat := UInt64.size / 2

def signedWord? (cs : List Char) : Option Int :=
  (integer? cs).filter fun n => decide (-(signedLimit : Int) ≤ n ∧ n < signedLimit)

def tenPow (n : Nat) : Nat := Nat.pow 10 n

/-- A whole number, with a plus sign at most, that fits an unsigned word of 64 bits. -/
def unsignedWord? (cs : List Char) : Option UInt64 :=
  let digits := match cs with
    | '+' :: rest => rest
    | _ => cs
  ((natural? 10 digits).filter (· < UInt64.size)).map UInt64.ofNat

/-- Once an exponent has reached this size, its further digits are skipped. -/
def exponentBound : Nat := 65536

def exponent? (cs : List Char) : Option Int :=
  let (negative, digits) := takeSign cs
  if digits.isEmpty || !digits.all Char.isDigit then none
  else
    let n := digits.foldl
      (fun n c => if n < exponentBound then n * 10 + (c.toNat - '0'.toNat) else n) 0
    some (if negative then -(n : Int) else n)

/-- An unsigned decimal fraction with an optional exponent, as `n * 10 ^ e`. At least one digit
stands before or behind the point. -/
def fraction? (cs : List Char) : Option (Nat × Int) := do
  let whole := cs.takeWhile Char.isDigit
  let rest := cs.dropWhile Char.isDigit
  let (places, rest) := match rest with
    | '.' :: rest => (rest.takeWhile Char.isDigit, rest.dropWhile Char.isDigit)
    | _ => ([], rest)
  let n ← natural? 10 (whole ++ places)
  match rest with
  | [] => some (n, -places.length)
  | e :: rest =>
    if e = 'e' ∨ e = 'E' then (exponent? rest).map fun x => (n, x - places.length) else none

end BrokerAdmin.Decimal
