import BrokerAdmin.Decimal.Binary64

set_option autoImplicit false

/-!
The shortest decimal text of a binary floating-point number: the fewest digits that read back as
the same number, of those the nearest to it, and the upper one in the middle. The text never has
an exponent; zeros fill it up instead.
-/

namespace BrokerAdmin.Decimal.Binary64

/-- The reals that round to `mantissa * 2 ^ exponent`, in units of `2 ^ (exponent - 2)`, with both
ends belonging to it exactly when the mantissa is even. -/
structure Interval where
  low : Nat
  center : Nat
  high : Nat
  closed : Bool
  exponent : Int

/-- Below a power of two the numbers lie twice as dense as above. -/
def interval (m : Nat) (e : Int) : Interval where
  low := 4 * m - if m = fullMantissa ∧ minExponent < e then 1 else 2
  center := 4 * m
  high := 4 * m + 2
  closed := m % 2 = 0
  exponent := e - 2

/-- The two factors that turn `2 ^ e` and `10 ^ p` into whole numbers of a common unit. -/
def commonUnit (e p : Int) : Nat × Nat :=
  (tenPow (-p).toNat <<< e.toNat, tenPow p.toNat <<< (-e).toNat)

/-- The multiple of `10 ^ p` in the interval that is nearest to its centre. -/
def Interval.nearestOnGrid? (i : Interval) (p : Int) : Option Nat :=
  let (two, ten) := commonUnit i.exponent p
  let inside (d : Nat) : Bool :=
    if i.closed then i.low * two ≤ d * ten && d * ten ≤ i.high * two
    else i.low * two < d * ten && d * ten < i.high * two
  let below := i.center * two / ten
  let above := below + 1
  if inside above && (!(0 < below && inside below) ||
      above * ten - i.center * two ≤ i.center * two - below * ten) then some above
  else if 0 < below && inside below then some below
  else none

/-- The coarsest grid from `10 ^ p` downwards that meets the interval, with the number met. -/
def Interval.digitsFrom (i : Interval) : (fuel : Nat) → (p : Int) → Nat × Int
  | 0, p => (0, p)
  | fuel + 1, p =>
    match i.nearestOnGrid? p with
    | some d => (d, p)
    | none => i.digitsFrom fuel (p - 1)

/-- Shortest digits `d` and power `p` with `d * 10 ^ p` reading back as `m * 2 ^ e`. The search
starts above the highest decimal place; seventeen digits always do. -/
def shortestDigits (m : Nat) (e : Int) : Nat × Int :=
  let top := ((m.log2 : Int) + e) * 30103 / 100000 + 2
  (interval m e).digitsFrom 24 top

def positional (d : Nat) (p : Int) : List Char :=
  let digits := Nat.toDigits 10 d
  if 0 ≤ p then digits ++ List.replicate p.toNat '0'
  else
    let places := (-p).toNat
    let padded := List.replicate (places + 1 - digits.length) '0' ++ digits
    padded.take (padded.length - places) ++ '.' :: padded.drop (padded.length - places)

def text : Binary64 → String
  | .nan => "NaN"
  | .infinite negative => if negative then "-inf" else "inf"
  | .finite negative m e =>
    let body :=
      if m = 0 then ['0'] else
        let (d, p) := shortestDigits m e
        positional d p
    String.ofList (if negative then '-' :: body else body)

/-- The text with a point and one zero behind it where a finite number has none. -/
def textWithPoint (x : Binary64) : String :=
  match x with
  | .finite .. => if x.text.contains '.' then x.text else x.text ++ ".0"
  | _ => x.text

end BrokerAdmin.Decimal.Binary64
