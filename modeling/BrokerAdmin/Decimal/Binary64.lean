import BrokerAdmin.Decimal.Numeral

set_option autoImplicit false

/-!
Binary floating-point numbers of 64 bits, in exact arithmetic: a finite one is a mantissa times a
power of two. Numbers are rounded to the nearest, and to the even mantissa in the middle.
-/

namespace BrokerAdmin.Decimal

/-- A finite number has the magnitude `mantissa * 2 ^ exponent`, with fewer than 54 bits of
mantissa and an exponent of at least -1074. -/
inductive Binary64 where
  | finite (negative : Bool) (mantissa : Nat) (exponent : Int)
  | infinite (negative : Bool)
  | nan
  deriving DecidableEq, Repr

namespace Binary64

def fullMantissa : Nat := 1 <<< 52

def minExponent : Int := -1074

def maxExponent : Int := 971

/-- The quotient rounded to the nearest number, to the even one in the middle. -/
def roundDiv (num den : Nat) : Nat :=
  let q := num / den
  let r := num % den
  if 2 * r < den then q
  else if den < 2 * r then q + 1
  else if q % 2 = 0 then q else q + 1

def scaled (num den : Nat) (e : Int) : Nat × Nat :=
  if 0 ≤ e then (num, den <<< e.toNat) else (num <<< (-e).toNat, den)

def ofRatio (negative : Bool) (num den : Nat) : Binary64 :=
  if num = 0 then .finite negative 0 minExponent
  else
    let guess : Int := (num.log2 : Int) - den.log2 - 52
    let (n, d) := scaled num den guess
    let e := max minExponent (if n < d <<< 52 then guess - 1 else guess)
    let (n, d) := scaled num den e
    let m := roundDiv n d
    let (m, e) := if m = 2 * fullMantissa then (fullMantissa, e + 1) else (m, e)
    if maxExponent < e then .infinite negative else .finite negative m e

/-- The number nearest to `n * 10 ^ e`. Far out of range the power of ten is not formed. -/
def ofDecimal (negative : Bool) (n : Nat) (e : Int) : Binary64 :=
  let places : Int := (Nat.toDigits 10 n).length
  if n = 0 ∨ places + e < -330 then .finite negative 0 minExponent
  else if 310 < places + e then .infinite negative
  else if 0 ≤ e then ofRatio negative (n * tenPow e.toNat) 1
  else ofRatio negative n (tenPow (-e).toNat)

/-- Reads a signed fraction, or one of the words for infinity and for what is not a number in any
case. -/
def read? (cs : List Char) : Option Binary64 :=
  let (negative, body) := takeSign cs
  match fraction? body with
  | some (n, e) => some (ofDecimal negative n e)
  | none =>
    let word := String.ofList (body.map Char.toLower)
    if word == "inf" || word == "infinity" then some (.infinite negative)
    else if word == "nan" then some .nan
    else none

/-- The nearest unsigned word of 64 bits, away from zero in the middle. What is not a number
counts as zero. -/
def toWord : Binary64 → UInt64
  | .nan | .infinite true | .finite true _ _ => 0
  | .infinite false => UInt64.ofNat (UInt64.size - 1)
  | .finite false m e =>
    let n := if 0 ≤ e then m <<< e.toNat else (m + 1 <<< ((-e).toNat - 1)) >>> (-e).toNat
    UInt64.ofNat (min n (UInt64.size - 1))

end Binary64

end BrokerAdmin.Decimal
