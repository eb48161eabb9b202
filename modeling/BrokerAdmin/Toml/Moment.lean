import BrokerAdmin.Toml.Space

set_option autoImplicit false

/-!
Dates and times of a TOML document, read into their canonical text: a `T` between date and time, a
fraction of at most nine digits without zeros at its end, and `Z` or a signed offset.
-/

namespace BrokerAdmin.Toml

/-- Exactly `n` decimal digits, with their value. -/
def fixedDigits? (n : Nat) : Reader (List Char × Nat) := fun cs =>
  let ds := cs.take n
  if ds.length = n ∧ ds.all Char.isDigit then
    some ((ds, ds.foldl (fun v d => v * 10 + (d.toNat - '0'.toNat)) 0), cs.drop n)
  else none

def exactly? (c : Char) : List Char → Option (List Char)
  | d :: cs => if d = c then some cs else none
  | [] => none

def isLeapYear (y : Nat) : Bool := y % 4 == 0 && (y % 100 != 0 || y % 400 == 0)

def daysInMonth (y m : Nat) : Nat :=
  if m = 2 then if isLeapYear y then 29 else 28
  else if m = 4 ∨ m = 6 ∨ m = 9 ∨ m = 11 then 30
  else 31

def date? : Reader (List Char) := fun cs => do
  let ((yt, y), cs) ← fixedDigits? 4 cs
  let cs ← exactly? '-' cs
  let ((mt, m), cs) ← fixedDigits? 2 cs
  let cs ← exactly? '-' cs
  let ((dt, d), cs) ← fixedDigits? 2 cs
  if 1 ≤ m ∧ m ≤ 12 ∧ 1 ≤ d ∧ d ≤ daysInMonth y m then
    some (yt ++ '-' :: mt ++ '-' :: dt, cs)
  else none

def hourMinute? : Reader (List Char × Nat) := fun cs => do
  let ((ht, h), cs) ← fixedDigits? 2 cs
  let cs ← exactly? ':' cs
  let ((mt, m), cs) ← fixedDigits? 2 cs
  if h ≤ 23 ∧ m ≤ 59 then some ((ht ++ ':' :: mt, h * 60 + m), cs) else none

/-- The canonical fraction of a second, empty where it is zero or missing. -/
def fractionText (cs : List Char) : List Char × List Char :=
  match cs with
  | '.' :: rest =>
    let ds := rest.takeWhile Char.isDigit
    if ds.isEmpty then ([], cs)
    else
      let shown := ((ds.take 9).reverse.dropWhile (· = '0')).reverse
      (if shown.isEmpty then [] else '.' :: shown, rest.dropWhile Char.isDigit)
  | _ => ([], cs)

/-- A time of day. The second sixty is a leap second. -/
def time? : Reader (List Char) := fun cs => do
  let ((hm, _), cs) ← hourMinute? cs
  let cs ← exactly? ':' cs
  let ((st, s), cs) ← fixedDigits? 2 cs
  if s ≤ 60 then
    let (fraction, cs) := fractionText cs
    some (hm ++ ':' :: st ++ fraction, cs)
  else none

def offset? : Reader (List Char)
  | 'Z' :: cs => some (['Z'], cs)
  | 'z' :: cs => some (['Z'], cs)
  | '+' :: cs => (hourMinute? cs).map fun ((t, _), rest) => ('+' :: t, rest)
  | '-' :: cs =>
    (hourMinute? cs).map fun ((t, n), rest) => ((if n = 0 then '+' else '-') :: t, rest)
  | _ => none

def timeBehindDate? : Reader (List Char)
  | c :: cs =>
    if c = 'T' ∨ c = 't' ∨ c = ' ' then do
      let (t, cs) ← time? cs
      match offset? cs with
      | some (o, rest) => some ('T' :: t ++ o, rest)
      | none => some ('T' :: t, cs)
    else none
  | [] => none

def moment? : Reader String := fun cs =>
  match date? cs with
  | some (d, cs) =>
    match timeBehindDate? cs with
    | some (t, rest) => some (String.ofList (d ++ t), rest)
    | none => some (String.ofList d, cs)
  | none => (time? cs).map fun (t, rest) => (String.ofList t, rest)

end BrokerAdmin.Toml
