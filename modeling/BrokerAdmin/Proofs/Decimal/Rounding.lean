import BrokerAdmin.Decimal.Shortest
import Mathlib.Algebra.Order.Field.Power
import Mathlib.Tactic.FieldSimp
import Mathlib.Tactic.Linarith
import Mathlib.Tactic.NormNum
import Mathlib.Tactic.Positivity
import Mathlib.Tactic.Ring

set_option autoImplicit false

/-!
Rounding of a ratio to a binary floating-point number. The exponent is the one that gives the
mantissa its full length, or the least one, and the mantissa is the nearest whole number, the even
one in the middle. Both are unique, so a ratio in the interval of reals around a number is rounded
to that number.
-/

namespace BrokerAdmin.Decimal.Binary64

theorem cast_fullMantissa : (fullMantissa : ℚ) = 2 ^ (52 : Int) := by
  have full : fullMantissa = 2 ^ 52 := rfl
  rw [full]
  norm_num

/-- A number has one mantissa and exponent only: the mantissa has full length unless the exponent
is the least. -/
def Proper : Binary64 → Prop
  | .finite _ m e => m < 2 * fullMantissa ∧ minExponent ≤ e ∧ e ≤ maxExponent ∧
      (e = minExponent ∨ fullMantissa ≤ m)
  | _ => True

/-- `n` is nearest to `x` among the whole numbers, and even in the middle of two of them. -/
structure IsNearest (x : ℚ) (n : Nat) : Prop where
  lower : (n : ℚ) ≤ x + 1 / 2
  upper : x ≤ n + 1 / 2
  middle : n % 2 = 1 → (n : ℚ) < x + 1 / 2 ∧ x < n + 1 / 2

/-- `x` has the exponent `e`: in units of `2 ^ e` it has the length of a mantissa, and not less,
unless there is no smaller unit. -/
structure IsExponent (x : ℚ) (e : Int) : Prop where
  min_le : minExponent ≤ e
  lt : x / 2 ^ e < 2 * fullMantissa
  le : e = minExponent ∨ fullMantissa ≤ x / 2 ^ e

theorem IsNearest.unique {x : ℚ} {n m : Nat} (near : IsNearest x n) (near' : IsNearest x m) :
    n = m := by
  have apart {n m : Nat} (near : IsNearest x n) (near' : IsNearest x m) : m ≤ n := by
    by_contra less
    have step : (n : ℚ) + 1 ≤ m := by exact_mod_cast not_le.1 less
    have lower := near'.lower
    have upper := near.upper
    have even : n % 2 = 0 := by
      by_contra odd
      have := near.middle (by omega)
      linarith
    have even' : m % 2 = 0 := by
      by_contra odd
      have := near'.middle (by omega)
      linarith
    have step' : (n : ℚ) + 2 ≤ m := by exact_mod_cast (by omega : n + 2 ≤ m)
    linarith
  exact le_antisymm (apart near' near) (apart near near')

theorem roundDiv_isNearest (num : Nat) {den : Nat} (positive : 0 < den) :
    IsNearest (num / den) (roundDiv num den) := by
  have den_pos : (0 : ℚ) < den := by exact_mod_cast positive
  have split : (num : ℚ) / den = (num / den : Nat) + (num % den : Nat) / den := by
    rw [eq_comm, ← mul_right_inj' den_pos.ne', mul_add, mul_div_cancel₀ _ den_pos.ne',
      mul_div_cancel₀ _ den_pos.ne']
    exact_mod_cast Nat.div_add_mod num den
  have nonneg : (0 : ℚ) ≤ (num % den : Nat) / den := by positivity
  have less : ((num % den : Nat) : ℚ) / den < 1 := by
    rw [div_lt_one den_pos]
    exact_mod_cast Nat.mod_lt num positive
  have half : ((num % den : Nat) : ℚ) / den < 1 / 2 ↔ 2 * (num % den) < den := by
    rw [div_lt_div_iff₀ den_pos two_pos, one_mul, mul_comm]
    exact_mod_cast Iff.rfl
  have half' : 1 / 2 < ((num % den : Nat) : ℚ) / den ↔ den < 2 * (num % den) := by
    rw [div_lt_div_iff₀ two_pos den_pos, one_mul, mul_comm _ (2 : ℚ)]
    exact_mod_cast Iff.rfl
  rw [split]
  generalize ((num % den : Nat) : ℚ) / den = r at nonneg less half half'
  simp only [roundDiv]
  split
  · rename_i small
    have := half.2 small
    exact ⟨by linarith, by linarith, fun _ => ⟨by linarith, by linarith⟩⟩
  · rename_i small
    split
    · rename_i large
      have := half'.2 large
      refine ⟨?_, ?_, fun _ => ⟨?_, ?_⟩⟩ <;> push_cast <;> linarith
    · rename_i large
      have := not_lt.1 (mt half.1 small)
      have := not_lt.1 (mt half'.1 large)
      split
      · rename_i even
        exact ⟨by linarith, by linarith, fun odd => by omega⟩
      · refine ⟨?_, ?_, fun odd => by omega⟩ <;> push_cast <;> linarith

theorem IsExponent.unique {x : ℚ} {e e' : Int} (h : IsExponent x e) (h' : IsExponent x e') :
    e = e' := by
  have apart {e e' : Int} (h : IsExponent x e) (h' : IsExponent x e') : e' ≤ e := by
    by_contra less
    have full := h'.le.resolve_left (by have := h.min_le; omega)
    have double : (2 : ℚ) ≤ 2 ^ (e' - e) := by
      calc (2 : ℚ) = 2 ^ (1 : Int) := (zpow_one 2).symm
        _ ≤ 2 ^ (e' - e) := zpow_le_zpow_right₀ one_le_two (by omega)
    have units : x / 2 ^ e = x / 2 ^ e' * 2 ^ (e' - e) := by
      rw [zpow_sub₀ two_ne_zero]
      field_simp
    have lt := h.lt
    rw [units] at lt
    have full_pos : (0 : ℚ) ≤ fullMantissa := by positivity
    nlinarith
  exact le_antisymm (apart h' h) (apart h h')

section Ratio

variable {num den : Nat}

theorem scaled_pos (positive : 0 < den) (e : Int) : 0 < (scaled num den e).2 := by
  unfold scaled
  split
  · rw [Nat.shiftLeft_eq]
    positivity
  · exact positive

theorem scaled_ratio (num den : Nat) (e : Int) :
    ((scaled num den e).1 : ℚ) / (scaled num den e).2 = num / den / 2 ^ e := by
  unfold scaled
  split
  · rename_i nonneg
    rw [Nat.shiftLeft_eq]
    push_cast
    rw [← zpow_natCast, Int.toNat_of_nonneg nonneg, div_div]
  · rename_i negative
    rw [Nat.shiftLeft_eq]
    push_cast
    rw [← zpow_natCast, Int.toNat_of_nonneg (by omega), zpow_neg]
    field_simp

/-- The exponent by the lengths of numerator and denominator. It may be one too large. -/
def guess (num den : Nat) : Int := (num.log2 : Int) - den.log2 - 52

def ratioExponent (num den : Nat) : Int :=
  max minExponent
    (if (scaled num den (guess num den)).1 < (scaled num den (guess num den)).2 <<< 52
      then guess num den - 1 else guess num den)

/-- A rounded mantissa with its exponent. If it has grown too long, the next exponent is taken. -/
def packed (negative : Bool) (m : Nat) (e : Int) : Binary64 :=
  let (m, e) := if m = 2 * fullMantissa then (fullMantissa, e + 1) else (m, e)
  if maxExponent < e then .infinite negative else .finite negative m e

theorem ofRatio_eq_packed (negative : Bool) (positive : 0 < num) :
    ofRatio negative num den =
      packed negative (roundDiv (scaled num den (ratioExponent num den)).1
        (scaled num den (ratioExponent num den)).2) (ratioExponent num den) := by
  unfold ofRatio ratioExponent guess packed
  rw [if_neg positive.ne']

theorem div_log2_bounds {n : Nat} (positive : 0 < n) :
    1 ≤ (n : ℚ) / 2 ^ (n.log2 : Int) ∧ (n : ℚ) / 2 ^ (n.log2 : Int) < 2 := by
  have unit : (0 : ℚ) < 2 ^ n.log2 := by positivity
  rw [zpow_natCast, le_div_iff₀ unit, div_lt_iff₀ unit, one_mul, ← pow_succ']
  exact ⟨by exact_mod_cast Nat.log2_self_le positive.ne', by exact_mod_cast Nat.lt_log2_self⟩

theorem guess_bounds (num_pos : 0 < num) (den_pos : 0 < den) :
    fullMantissa < 2 * ((num : ℚ) / den / 2 ^ guess num den) ∧
      (num : ℚ) / den / 2 ^ guess num den < 2 * fullMantissa := by
  obtain ⟨num_lower, num_upper⟩ := div_log2_bounds num_pos
  obtain ⟨den_lower, den_upper⟩ := div_log2_bounds den_pos
  have units : (num : ℚ) / den / 2 ^ guess num den =
      (num / 2 ^ (num.log2 : Int)) / (den / 2 ^ (den.log2 : Int)) * fullMantissa := by
    rw [guess, zpow_sub₀ two_ne_zero, zpow_sub₀ two_ne_zero]
    rw [cast_fullMantissa]
    field_simp
  rw [units]
  generalize (num : ℚ) / 2 ^ (num.log2 : Int) = a at *
  generalize (den : ℚ) / 2 ^ (den.log2 : Int) = b at *
  have full_pos : (0 : ℚ) < fullMantissa := by
    rw [cast_fullMantissa]
    positivity
  have lower : 1 / 2 < a / b := by
    rw [div_lt_div_iff₀ two_pos (by linarith)]
    linarith
  have upper : a / b < 2 := by
    rw [div_lt_iff₀ (by linarith)]
    linarith
  constructor <;> nlinarith

theorem ratioExponent_isExponent (num_pos : 0 < num) (den_pos : 0 < den) :
    IsExponent (num / den) (ratioExponent num den) := by
  obtain ⟨lower, upper⟩ := guess_bounds num_pos den_pos
  have short : (scaled num den (guess num den)).1 < (scaled num den (guess num den)).2 <<< 52 ↔
      (num : ℚ) / den / 2 ^ guess num den < fullMantissa := by
    have unit_pos : (0 : ℚ) < (scaled num den (guess num den)).2 := by
      exact_mod_cast scaled_pos den_pos _
    rw [← scaled_ratio, div_lt_iff₀ unit_pos, Nat.shiftLeft_eq, mul_comm]
    exact_mod_cast Iff.rfl
  obtain ⟨e, taken, full, long⟩ : ∃ e, ratioExponent num den = max minExponent e ∧
      fullMantissa ≤ (num : ℚ) / den / 2 ^ e ∧ (num : ℚ) / den / 2 ^ e < 2 * fullMantissa := by
    by_cases less : (num : ℚ) / den / 2 ^ guess num den < fullMantissa
    · refine ⟨guess num den - 1, by rw [ratioExponent, if_pos (short.2 less)], ?_⟩
      have units : (num : ℚ) / den / 2 ^ (guess num den - 1) =
          2 * (num / den / 2 ^ guess num den) := by
        rw [zpow_sub_one₀ two_ne_zero]
        field_simp
      rw [units]
      constructor <;> linarith
    · exact ⟨guess num den, by rw [ratioExponent, if_neg (mt short.1 less)], not_lt.1 less, upper⟩
  rw [taken]
  refine ⟨le_max_left _ _, ?_, ?_⟩
  · refine lt_of_le_of_lt ?_ long
    have ratio_nonneg : (0 : ℚ) ≤ num / den := by positivity
    exact div_le_div_of_nonneg_left ratio_nonneg (by positivity)
      (zpow_le_zpow_right₀ one_le_two (le_max_right _ _))
  · rcases le_total minExponent e with le | le
    · rw [max_eq_right le]
      exact .inr full
    · exact .inl (max_eq_left le)

theorem ofRatio_spec (negative : Bool) (num_pos : 0 < num) (den_pos : 0 < den) :
    ∃ e n, IsExponent (num / den) e ∧ IsNearest (num / den / 2 ^ e) n ∧
      ofRatio negative num den = packed negative n e := by
  refine ⟨_, _, ratioExponent_isExponent num_pos den_pos, ?_, ofRatio_eq_packed negative num_pos⟩
  rw [← scaled_ratio]
  exact roundDiv_isNearest _ (scaled_pos den_pos _)

end Ratio

theorem packed_proper {negative : Bool} {m : Nat} {e : Int} (len : m ≤ 2 * fullMantissa)
    (min_le : minExponent ≤ e) (full : e = minExponent ∨ fullMantissa ≤ m) :
    (packed negative m e).Proper := by
  unfold packed
  have full_pos : 0 < fullMantissa := by decide
  by_cases grown : m = 2 * fullMantissa
  · rw [if_pos grown]
    dsimp only
    split
    · trivial
    · exact ⟨by omega, by omega, by omega, .inr le_rfl⟩
  · rw [if_neg grown]
    dsimp only
    split
    · trivial
    · exact ⟨by omega, min_le, by omega, full⟩

theorem zero_proper (negative : Bool) : (finite negative 0 minExponent).Proper :=
  ⟨by decide, le_rfl, by decide, .inl rfl⟩

theorem ofRatio_proper (negative : Bool) (num : Nat) {den : Nat} (den_pos : 0 < den) :
    (ofRatio negative num den).Proper := by
  rcases Nat.eq_zero_or_pos num with rfl | num_pos
  · exact zero_proper negative
  · obtain ⟨e, n, exponent, near, rounded⟩ := ofRatio_spec negative num_pos den_pos
    rw [rounded]
    refine packed_proper ?_ exponent.min_le (exponent.le.imp_right fun full => ?_)
    · have less : (n : ℚ) < 2 * fullMantissa + 1 := by
        linarith [near.lower, exponent.lt]
      exact Nat.lt_succ_iff.1 (by exact_mod_cast less)
    · have less : (fullMantissa : ℚ) < n + 1 := by
        linarith [near.upper]
      exact Nat.lt_succ_iff.1 (by exact_mod_cast less)

theorem ofDecimal_proper (negative : Bool) (n : Nat) (e : Int) :
    (ofDecimal negative n e).Proper := by
  unfold ofDecimal
  dsimp only
  by_cases small : n = 0 ∨ ((Nat.toDigits 10 n).length : Int) + e < -330
  · rw [if_pos small]
    exact zero_proper negative
  · rw [if_neg small]
    by_cases large : 310 < ((Nat.toDigits 10 n).length : Int) + e
    · rw [if_pos large]
      trivial
    · rw [if_neg large]
      split
      · exact ofRatio_proper negative _ (by decide)
      · exact ofRatio_proper negative _ (Nat.pow_pos (by decide))

theorem read?_proper {cs : List Char} {x : Binary64} (read : read? cs = some x) : x.Proper := by
  unfold read? at read
  generalize takeSign cs = parts at read
  obtain ⟨negative, body⟩ := parts
  dsimp only at read
  cases fraction : fraction? body with
  | some q =>
    rw [fraction] at read
    obtain rfl := Option.some.inj read
    exact ofDecimal_proper _ _ _
  | none =>
    rw [fraction] at read
    dsimp only at read
    split at read
    · obtain rfl := Option.some.inj read
      trivial
    · split at read
      · obtain rfl := Option.some.inj read
        trivial
      · cases read

def Interval.Contains (i : Interval) (x : ℚ) : Prop :=
  (i.low * 2 ^ i.exponent ≤ x ∧ x ≤ i.high * 2 ^ i.exponent) ∧
    (i.closed = false → i.low * 2 ^ i.exponent < x ∧ x < i.high * 2 ^ i.exponent)

section Contains

variable {m : Nat} {e : Int} {x : ℚ}

theorem units_lt_iff {a : Nat} : a * 2 ^ (e - 2) < x ↔ (a : ℚ) / 4 < x / 2 ^ e := by
  rw [lt_div_iff₀ (by positivity), zpow_sub₀ two_ne_zero, div_mul_eq_mul_div, ← mul_div_assoc]
  norm_num

theorem lt_units_iff {a : Nat} : x < a * 2 ^ (e - 2) ↔ x / 2 ^ e < (a : ℚ) / 4 := by
  rw [div_lt_iff₀ (by positivity), zpow_sub₀ two_ne_zero, div_mul_eq_mul_div, ← mul_div_assoc]
  norm_num

/-- In units of `2 ^ e`, what is around a mantissa: half a unit to either side, but only a quarter
to the lower side of a power of two. -/
structure IsAround (m : Nat) (e : Int) (y : ℚ) : Prop where
  lower : m - (if m = fullMantissa ∧ minExponent < e then 1 / 4 else 1 / 2) ≤ y
  upper : y ≤ m + 1 / 2
  odd : m % 2 = 1 → m - 1 / 2 < y ∧ y < m + 1 / 2

theorem notFull_of_odd (odd : m % 2 = 1) : m ≠ fullMantissa := by
  rintro rfl
  revert odd
  decide

theorem contains_interval_iff (positive : 0 < m) :
    (interval m e).Contains x ↔ IsAround m e (x / 2 ^ e) := by
  have high : ((interval m e).high : ℚ) / 4 = m + 1 / 2 := by
    simp only [interval]
    push_cast
    ring
  have low : ((interval m e).low : ℚ) / 4 =
      m - if m = fullMantissa ∧ minExponent < e then 1 / 4 else 1 / 2 := by
    change ((4 * m - (if m = fullMantissa ∧ minExponent < e then 1 else 2) : Nat) : ℚ) / 4 = _
    split <;> push_cast [show 1 ≤ 4 * m by omega, show 2 ≤ 4 * m by omega] <;> ring
  have exponent : (interval m e).exponent = e - 2 := rfl
  have isOdd : (interval m e).closed = false ↔ m % 2 = 1 := by
    simp [interval]
  rw [Interval.Contains, exponent, ← not_lt, ← not_lt, lt_units_iff, units_lt_iff, lt_units_iff,
    units_lt_iff, not_lt, not_lt, low, high, isOdd]
  constructor
  · rintro ⟨⟨lower, upper⟩, inner⟩
    refine ⟨lower, upper, fun odd => ?_⟩
    have inner := inner odd
    rwa [if_neg fun quarter => notFull_of_odd odd quarter.1] at inner
  · rintro ⟨lower, upper, odd⟩
    refine ⟨⟨lower, upper⟩, fun isOdd => ?_⟩
    rw [if_neg fun quarter => notFull_of_odd isOdd quarter.1]
    exact odd isOdd

/-- A ratio in the interval around a number is rounded to it. -/
theorem ofRatio_of_contains {num den : Nat} {negative : Bool} (num_pos : 0 < num)
    (den_pos : 0 < den) (positive : 0 < m) (proper : (finite negative m e).Proper)
    (contains : (interval m e).Contains (num / den)) :
    ofRatio negative num den = .finite negative m e := by
  obtain ⟨short, min_le, le_max, full⟩ := proper
  obtain ⟨lower, upper, odd⟩ := (contains_interval_iff positive).1 contains
  obtain ⟨e', n, exponent, near, rounded⟩ := ofRatio_spec negative num_pos den_pos
  rw [rounded]
  generalize (num : ℚ) / den = x at *
  have len : (m : ℚ) + 1 ≤ 2 * fullMantissa := by exact_mod_cast short
  by_cases same : e = minExponent ∨ fullMantissa ≤ x / 2 ^ e
  · have exponent' : IsExponent x e := ⟨min_le, by linarith, same⟩
    obtain rfl := exponent'.unique exponent
    have near' : IsNearest (x / 2 ^ e) m := by
      refine ⟨?_, upper, fun isOdd => ?_⟩
      · split at lower <;> linarith
      · obtain ⟨lower, upper⟩ := odd isOdd
        constructor <;> linarith
    rw [near.unique near', packed, if_neg (by omega)]
    exact if_neg (by omega)
  · obtain ⟨notMin, less⟩ := not_or.1 same
    have less := not_le.1 less
    have isFull : m = fullMantissa := by
      have bound : (m : ℚ) < fullMantissa + 1 := by
        split at lower <;> linarith
      have := full.resolve_left notMin
      have : m < fullMantissa + 1 := by exact_mod_cast bound
      omega
    rw [if_pos ⟨isFull, by omega⟩] at lower
    have units : x / 2 ^ (e - 1) = 2 * (x / 2 ^ e) := by
      rw [zpow_sub_one₀ two_ne_zero]
      field_simp
    have isFull' : (m : ℚ) = fullMantissa := by rw [isFull]
    have full_ge : (1 : ℚ) ≤ fullMantissa := by exact_mod_cast (by decide : 1 ≤ fullMantissa)
    have exponent' : IsExponent x (e - 1) := by
      refine ⟨by omega, ?_, .inr ?_⟩ <;> rw [units] <;> linarith
    obtain rfl := exponent'.unique exponent
    have near' : IsNearest (x / 2 ^ (e - 1)) (2 * fullMantissa) := by
      rw [units]
      refine ⟨?_, ?_, fun isOdd => ?_⟩
      · push_cast
        linarith
      · push_cast
        linarith
      · omega
    rw [near.unique near', packed, if_pos rfl, isFull]
    dsimp only
    rw [if_neg (by omega), sub_add_cancel]

theorem eq_of_packed {negative : Bool} {n : Nat} {e' : Int}
    (packs : packed negative n e' = .finite negative m e) :
    n = 2 * fullMantissa ∧ m = fullMantissa ∧ e = e' + 1 ∨ m = n ∧ e = e' := by
  unfold packed at packs
  by_cases grown : n = 2 * fullMantissa
  · rw [if_pos grown] at packs
    dsimp only at packs
    split at packs
    · cases packs
    · injection packs with _ mantissa exponent
      exact .inl ⟨grown, mantissa.symm, exponent.symm⟩
  · rw [if_neg grown] at packs
    dsimp only at packs
    split at packs
    · cases packs
    · injection packs with _ mantissa exponent
      exact .inr ⟨mantissa.symm, exponent.symm⟩

/-- Nothing else is rounded to a number than what lies in the interval around it. -/
theorem contains_of_ofRatio {num den : Nat} {negative : Bool} (num_pos : 0 < num)
    (den_pos : 0 < den) (positive : 0 < m)
    (rounded : ofRatio negative num den = .finite negative m e) :
    (interval m e).Contains (num / den) := by
  obtain ⟨e', n, exponent, near, packs⟩ := ofRatio_spec negative num_pos den_pos
  rw [rounded] at packs
  rw [contains_interval_iff positive]
  generalize (num : ℚ) / den = x at *
  rcases eq_of_packed packs.symm with ⟨rfl, rfl, rfl⟩ | ⟨rfl, rfl⟩
  · have units : x / 2 ^ (e' + 1) = x / 2 ^ e' / 2 := by
      rw [zpow_add_one₀ two_ne_zero]
      field_simp
    have lower := near.lower
    push_cast at lower
    refine ⟨?_, ?_, fun odd => absurd rfl (notFull_of_odd odd)⟩
    · rw [if_pos ⟨rfl, by have := exponent.min_le; omega⟩, units]
      linarith
    · rw [units]
      linarith [exponent.lt]
  · refine ⟨?_, near.upper, fun odd => ?_⟩
    · split
      · rename_i quarter
        have full := exponent.le.resolve_left (by omega)
        rw [quarter.1]
        linarith
      · linarith [near.lower]
    · obtain ⟨lower, upper⟩ := near.middle odd
      constructor <;> linarith

end Contains

end BrokerAdmin.Decimal.Binary64
