import BrokerAdmin.Decimal.Binary64
import Mathlib.Data.List.TakeWhile
import Mathlib.Data.Nat.Digits.Defs

set_option autoImplicit false

/-!
Numerals that are read back as the number they were written for: digits with any zeros in front,
whole numbers behind a sign, and fractions without an exponent.
-/

namespace BrokerAdmin.Decimal

theorem isDigit_of_digit? {c : Char} {d : Nat} (digit : digit? c = some d) (small : d < 10) :
    c.isDigit = true := by
  unfold digit? at digit
  split at digit
  · assumption
  · split at digit
    · cases digit
      omega
    · split at digit
      · cases digit
        omega
      · cases digit

theorem isDigit_of_foldDigits? {n m : Nat} {cs : List Char}
    (digits : foldDigits? 10 n cs = some m) : ∀ c ∈ cs, c.isDigit = true := by
  induction cs generalizing n with
  | nil => simp
  | cons c cs ih =>
    obtain ⟨d, digit, digits⟩ := Option.bind_eq_some_iff.1 digits
    split at digits
    · rename_i small
      exact List.forall_mem_cons.2 ⟨isDigit_of_digit? digit small, ih digits⟩
    · cases digits

theorem exists_isDigit_of_natural? {cs : List Char} {n : Nat} (natural : natural? 10 cs = some n) :
    ∃ c ∈ cs, c.isDigit = true := by
  cases cs with
  | nil => cases natural
  | cons c cs => exact ⟨c, List.mem_cons_self, isDigit_of_foldDigits? natural c List.mem_cons_self⟩

theorem mem_of_mem_takeSign {cs : List Char} {c : Char} (mem : c ∈ (takeSign cs).2) : c ∈ cs := by
  unfold takeSign at mem
  split at mem
  · exact List.mem_cons_of_mem _ mem
  · exact List.mem_cons_of_mem _ mem
  · exact mem

/-- There is a digit in every whole number. -/
theorem exists_isDigit_of_signedWord? {cs : List Char} {n : Int}
    (number : signedWord? cs = some n) : ∃ c ∈ cs, c.isDigit = true := by
  obtain ⟨number, -⟩ := Option.filter_eq_some_iff.1 number
  obtain ⟨k, signed, -⟩ := Option.map_eq_some_iff.1 number
  obtain ⟨m, natural, -⟩ := Option.bind_eq_some_iff.1 signed
  obtain ⟨c, mem, digit⟩ := exists_isDigit_of_natural? natural
  exact ⟨c, mem_of_mem_takeSign mem, digit⟩

theorem digit?_of_isDigit {c : Char} (digit : c.isDigit = true) :
    digit? c = some (c.toNat - '0'.toNat) := by
  rw [digit?, if_pos digit]

theorem toNat_of_isDigit {c : Char} (digit : c.isDigit = true) : c.toNat - '0'.toNat < 10 := by
  simp only [Char.isDigit, Bool.and_eq_true, decide_eq_true_eq] at digit
  have upper : c.toNat ≤ 57 := UInt32.le_iff_toNat_le.1 digit.2
  have zero : '0'.toNat = 48 := rfl
  omega

theorem foldDigits?_eq_some_iff {n m : Nat} {cs : List Char} :
    foldDigits? 10 n cs = some m ↔
      (∀ c ∈ cs, c.isDigit = true) ∧ Nat.ofDigitChars 10 cs n = m := by
  induction cs generalizing n with
  | nil => simp [foldDigits?]
  | cons c cs ih =>
    by_cases digit : c.isDigit = true
    · rw [foldDigits?, digit?_of_isDigit digit, Nat.ofDigitChars_cons, List.forall_mem_cons]
      simp only [Option.bind_eq_bind, Option.bind_some, if_pos (toNat_of_isDigit digit), digit,
        true_and, Nat.mul_comm n 10]
      exact ih
    · constructor
      · intro read
        exact absurd (isDigit_of_foldDigits? read c List.mem_cons_self) digit
      · rintro ⟨digits, -⟩
        exact absurd (digits c List.mem_cons_self) digit

theorem natural?_eq_some_iff {cs : List Char} {n : Nat} :
    natural? 10 cs = some n ↔
      cs ≠ [] ∧ (∀ c ∈ cs, c.isDigit = true) ∧ Nat.ofDigitChars 10 cs 0 = n := by
  cases cs with
  | nil => simp [natural?]
  | cons c cs => simp [natural?, foldDigits?_eq_some_iff]

theorem isDigit_toDigits {n : Nat} : ∀ c ∈ Nat.toDigits 10 n, c.isDigit = true :=
  fun _ mem => Nat.isDigit_of_mem_toDigits (by decide) (by decide) mem

theorem natural?_zeros_toDigits (k n : Nat) :
    natural? 10 (List.replicate k '0' ++ Nat.toDigits 10 n) = some n := by
  refine natural?_eq_some_iff.2 ⟨by simp [Nat.toDigits_ne_nil], ?_, ?_⟩
  · intro c mem
    rcases List.mem_append.1 mem with mem | mem
    · rw [List.eq_of_mem_replicate mem]
      rfl
    · exact isDigit_toDigits c mem
  · rw [Nat.ofDigitChars_append, Nat.ofDigitChars_replicate_zero, Nat.mul_zero,
      Nat.ofDigitChars_ten_toDigits]

theorem natural?_toDigits (n : Nat) : natural? 10 (Nat.toDigits 10 n) = some n :=
  natural?_zeros_toDigits 0 n

theorem toDigits_append_zeros {n : Nat} (positive : 0 < n) (k : Nat) :
    Nat.toDigits 10 n ++ List.replicate k '0' = Nat.toDigits 10 (n * 10 ^ k) := by
  induction k with
  | zero => simp
  | succ k ih =>
    have shifted : 0 < n * 10 ^ k := by positivity
    calc Nat.toDigits 10 n ++ List.replicate (k + 1) '0'
        = Nat.toDigits 10 (n * 10 ^ k) ++ Nat.toDigits 10 0 := by
          rw [List.replicate_succ', ← List.append_assoc, ih, Nat.toDigits_zero]
      _ = Nat.toDigits 10 (n * 10 ^ (k + 1)) := by
          rw [Nat.toDigits_append_toDigits (by decide) shifted (by decide)]
          congr 1
          ring

def signed (negative : Bool) (digits : List Char) : List Char :=
  if negative then '-' :: digits else digits

theorem takeSign_of_unsigned {cs : List Char} (minus : '-' ∉ cs.head?) (plus : '+' ∉ cs.head?) :
    takeSign cs = (false, cs) := by
  unfold takeSign
  split
  · exact absurd rfl minus
  · exact absurd rfl plus
  · rfl

theorem takeSign_of_head {cs : List Char} (head : ∀ c ∈ cs.head?, c.isDigit = true) :
    takeSign cs = (false, cs) :=
  takeSign_of_unsigned (fun minus => absurd (head '-' minus) (by decide))
    fun plus => absurd (head '+' plus) (by decide)

theorem takeSign_signed {negative : Bool} {cs : List Char}
    (head : ∀ c ∈ cs.head?, c.isDigit = true) :
    takeSign (signed negative cs) = (negative, cs) := by
  cases negative with
  | true => rfl
  | false => exact takeSign_of_head head

theorem isDigit_head_toDigits {n : Nat} : ∀ c ∈ (Nat.toDigits 10 n).head?, c.isDigit = true :=
  fun c head => isDigit_toDigits c (List.mem_of_mem_head? head)

theorem toList_toString (n : Int) :
    (toString n).toList = signed (decide (n < 0)) (Nat.toDigits 10 n.natAbs) := by
  cases n with
  | ofNat k =>
    change (Nat.repr k).toList = _
    simp [Nat.repr_eq_ofList_toDigits, signed]
  | negSucc k =>
    change ("-" ++ Nat.repr (k + 1)).toList = _
    simp [Nat.repr_eq_ofList_toDigits, signed, Int.negSucc_lt_zero]

theorem integer?_eq_some_iff {cs : List Char} {n : Int} :
    integer? cs = some n ↔ ∃ m : Nat, natural? 10 (takeSign cs).2 = some m ∧
      (if (takeSign cs).1 then -(m : Int) else m) = n := by
  rw [integer?]
  rcases takeSign cs with ⟨negative, digits⟩
  dsimp only
  cases natural? 10 digits with
  | none => simp
  | some m => simp

theorem integer?_toString (n : Int) : integer? (toString n).toList = some n := by
  rw [toList_toString, integer?_eq_some_iff, takeSign_signed isDigit_head_toDigits]
  refine ⟨n.natAbs, natural?_toDigits _, ?_⟩
  by_cases negative : n < 0
  · simp only [negative, decide_true, if_true]
    omega
  · simp only [negative, decide_false, Bool.false_eq_true, if_false]
    omega

def FitsWord (n : Int) : Prop := -(signedLimit : Int) ≤ n ∧ n < signedLimit

instance : DecidablePred FitsWord := fun _ => inferInstanceAs (Decidable (_ ∧ _))

theorem signedWord?_eq_some_iff {cs : List Char} {n : Int} :
    signedWord? cs = some n ↔ integer? cs = some n ∧ FitsWord n := by
  rw [signedWord?, Option.filter_eq_some_iff, decide_eq_true_eq, FitsWord]

theorem signedWord?_toString {n : Int} (fits : FitsWord n) :
    signedWord? (toString n).toList = some n :=
  signedWord?_eq_some_iff.2 ⟨integer?_toString n, fits⟩

section Fraction

variable {whole places : List Char}

theorem fraction?_whole (digits : ∀ c ∈ whole, c.isDigit = true) :
    fraction? whole = (natural? 10 whole).map fun n => (n, 0) := by
  unfold fraction?
  rw [List.takeWhile_eq_self_iff.2 digits, List.dropWhile_eq_nil_iff.2 digits]
  cases read : natural? 10 whole with
  | none => simp [read]
  | some n => simp [read]

theorem fraction?_point (digits : ∀ c ∈ whole, c.isDigit = true)
    (digits' : ∀ c ∈ places, c.isDigit = true) :
    fraction? (whole ++ '.' :: places) =
      (natural? 10 (whole ++ places)).map fun n => (n, -(places.length : Int)) := by
  have point : '.'.isDigit = false := by decide
  unfold fraction?
  rw [List.takeWhile_append_of_pos digits, List.dropWhile_append_of_pos digits,
    List.takeWhile_cons_of_neg (by simp [point]), List.dropWhile_cons_of_neg (by simp [point]),
    List.append_nil]
  simp only [List.takeWhile_eq_self_iff.2 digits', List.dropWhile_eq_nil_iff.2 digits']
  cases natural? 10 (whole ++ places) with
  | none => simp
  | some n => simp

theorem fraction?_eq_none_of_head {c : Char} {cs : List Char} (digit : c.isDigit = false)
    (point : c ≠ '.') : fraction? (c :: cs) = none := by
  unfold fraction?
  rw [List.takeWhile_cons_of_neg (by simp [digit]), List.dropWhile_cons_of_neg (by simp [digit])]
  simp [point, natural?]

end Fraction

end BrokerAdmin.Decimal
