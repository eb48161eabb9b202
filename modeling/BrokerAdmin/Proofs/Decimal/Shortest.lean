import BrokerAdmin.Proofs.Decimal.Digits
import BrokerAdmin.Proofs.Decimal.Rounding

set_option autoImplicit false

/-!
The text of a floating-point number is its shortest decimal, and is read back as that number. The
decimals that are read as a number are those in the interval around it, and the search for digits
ends on the coarsest grid of decimals that meets this interval: seventeen digits are always fine
enough, and a look at the neighbours of the number tells whether a grid meets it.
-/

namespace BrokerAdmin.Decimal.Binary64

section Powers

/-- Powers of two bases can be told apart by their exponents, once two powers of the bases are known
on that side of zero where the exponent lies. -/
theorem zpow_lt_zpow_of_bases {a b : ℚ} (one_lt : 1 < a) (positive : 0 < b) {r n : Int} {j k : Nat}
    (bases : (a ^ j) ^ n ≤ (b ^ k) ^ n) (less : k * r < j * n) : a ^ r < b ^ n := by
  refine lt_of_pow_lt_pow_left₀ k (by positivity) ?_
  calc (a ^ r) ^ k
      = a ^ (k * r) := by rw [← zpow_natCast, ← zpow_mul, mul_comm]
    _ < a ^ (j * n) := zpow_lt_zpow_right₀ one_lt less
    _ = (a ^ j) ^ n := by rw [zpow_mul, zpow_natCast]
    _ ≤ (b ^ k) ^ n := bases
    _ = (b ^ n) ^ k := by
      rw [← zpow_natCast, ← zpow_natCast, ← zpow_mul, ← zpow_mul, mul_comm]

theorem zpow_le_zpow_of_neg {a b : ℚ} {n : Int} (positive : 0 < b) (le : b ≤ a) (negative : n < 0) :
    a ^ n ≤ b ^ n := by
  obtain ⟨m, rfl⟩ : ∃ m : Nat, n = -m := ⟨n.natAbs, by omega⟩
  rw [zpow_neg, zpow_neg, zpow_natCast, zpow_natCast]
  exact inv_anti₀ (by positivity) (pow_le_pow_left₀ positive.le le m)

variable {r n : Int}

theorem ten_zpow_lt_two_zpow_of_nonneg (nonneg : 0 ≤ n) (less : 10 * r < 3 * n) :
    (10 : ℚ) ^ r < 2 ^ n := by
  refine zpow_lt_zpow_of_bases (j := 3) (k := 10) (by norm_num) two_pos ?_ less
  exact zpow_le_zpow_left₀ nonneg (by positivity) (by norm_num)

theorem ten_zpow_lt_two_zpow_of_neg (negative : n < 0) (less : 23 * r < 7 * n) :
    (10 : ℚ) ^ r < 2 ^ n := by
  refine zpow_lt_zpow_of_bases (j := 7) (k := 23) (by norm_num) two_pos ?_ less
  exact zpow_le_zpow_of_neg (by positivity) (by norm_num) negative

theorem two_zpow_lt_ten_zpow_of_nonneg (nonneg : 0 ≤ r) (less : 28 * n < 93 * r) :
    (2 : ℚ) ^ n < 10 ^ r := by
  refine zpow_lt_zpow_of_bases (j := 93) (k := 28) one_lt_two (by norm_num) ?_ less
  exact zpow_le_zpow_left₀ nonneg (by positivity) (by norm_num)

theorem two_zpow_lt_ten_zpow_of_neg (negative : r < 0) (less : 3 * n < 10 * r) :
    (2 : ℚ) ^ n < 10 ^ r := by
  refine zpow_lt_zpow_of_bases (j := 10) (k := 3) one_lt_two (by norm_num) ?_ less
  exact zpow_le_zpow_of_neg (by positivity) (by norm_num) negative

end Powers

theorem commonUnit_spec (e p : Int) : ∃ unit : ℚ, 0 < unit ∧
    ((commonUnit e p).1 : ℚ) = 2 ^ e * unit ∧ ((commonUnit e p).2 : ℚ) = 10 ^ p * unit := by
  have split (b : ℚ) (pos : 0 < b) (n : Int) : b ^ n.toNat = b ^ n * b ^ (-n).toNat := by
    rw [← zpow_natCast, ← zpow_natCast, ← zpow_add₀ pos.ne']
    congr 1
    omega
  refine ⟨10 ^ (-p).toNat * 2 ^ (-e).toNat, by positivity, ?_, ?_⟩
  · change ((tenPow (-p).toNat <<< e.toNat : Nat) : ℚ) = _
    rw [Nat.shiftLeft_eq, Nat.cast_mul, Nat.cast_pow, Nat.cast_ofNat, split 2 two_pos]
    change ((10 ^ (-p).toNat : Nat) : ℚ) * _ = _
    push_cast
    ring
  · change ((tenPow p.toNat <<< (-e).toNat : Nat) : ℚ) = _
    rw [Nat.shiftLeft_eq, Nat.cast_mul, Nat.cast_pow, Nat.cast_ofNat]
    change ((10 ^ p.toNat : Nat) : ℚ) * _ = _
    push_cast
    rw [split 10 (by norm_num)]
    ring

/-- In the common unit, binary and decimal numbers compare as what they stand for. -/
theorem commonUnit_le_iff (e p : Int) (a b : Nat) :
    a * (commonUnit e p).1 ≤ b * (commonUnit e p).2 ↔ (a : ℚ) * 2 ^ e ≤ b * 10 ^ p := by
  obtain ⟨unit, unit_pos, two, ten⟩ := commonUnit_spec e p
  rw [← mul_le_mul_iff_left₀ unit_pos, mul_assoc, mul_assoc, ← two, ← ten]
  exact_mod_cast Iff.rfl

theorem le_commonUnit_iff (e p : Int) (a b : Nat) :
    b * (commonUnit e p).2 ≤ a * (commonUnit e p).1 ↔ (b : ℚ) * 10 ^ p ≤ a * 2 ^ e := by
  obtain ⟨unit, unit_pos, two, ten⟩ := commonUnit_spec e p
  rw [← mul_le_mul_iff_left₀ unit_pos, mul_assoc, mul_assoc, ← two, ← ten]
  exact_mod_cast Iff.rfl

namespace Interval

variable {i : Interval} {p : Int} {d : Nat}

def inside (i : Interval) (p : Int) (d : Nat) : Bool :=
  if i.closed then
    i.low * (commonUnit i.exponent p).1 ≤ d * (commonUnit i.exponent p).2 &&
      d * (commonUnit i.exponent p).2 ≤ i.high * (commonUnit i.exponent p).1
  else
    i.low * (commonUnit i.exponent p).1 < d * (commonUnit i.exponent p).2 &&
      d * (commonUnit i.exponent p).2 < i.high * (commonUnit i.exponent p).1

theorem inside_iff_contains : i.inside p d = true ↔ i.Contains (d * 10 ^ p) := by
  unfold inside Contains
  cases i.closed with
  | true => simp [commonUnit_le_iff, le_commonUnit_iff]
  | false =>
    simp only [Bool.false_eq_true, if_false, Bool.and_eq_true, decide_eq_true_eq, ← not_le,
      commonUnit_le_iff, le_commonUnit_iff, true_imp_iff]
    refine ⟨fun h => ⟨⟨?_, ?_⟩, h⟩, fun h => h.2⟩
    · exact (not_le.1 h.1).le
    · exact (not_le.1 h.2).le

/-- The greatest multiple of `10 ^ p` that does not lie above the centre. -/
def below (i : Interval) (p : Int) : Nat :=
  i.center * (commonUnit i.exponent p).1 / (commonUnit i.exponent p).2

theorem below_bounds (i : Interval) (p : Int) :
    i.below p * (10 : ℚ) ^ p ≤ i.center * 2 ^ i.exponent ∧
      i.center * 2 ^ i.exponent < (i.below p + 1 : Nat) * (10 : ℚ) ^ p := by
  have ten_pos : 0 < (commonUnit i.exponent p).2 := by
    obtain ⟨unit, unit_pos, -, ten⟩ := commonUnit_spec i.exponent p
    have : (0 : ℚ) < (commonUnit i.exponent p).2 := by
      rw [ten]
      positivity
    exact_mod_cast this
  rw [← le_commonUnit_iff, ← not_le, ← le_commonUnit_iff, not_le, Nat.succ_mul]
  exact ⟨Nat.div_mul_le_self _ _, Nat.lt_div_mul_add ten_pos⟩

theorem closer_iff (i : Interval) (p : Int) :
    (i.below p + 1) * (commonUnit i.exponent p).2 - i.center * (commonUnit i.exponent p).1 ≤
        i.center * (commonUnit i.exponent p).1 - i.below p * (commonUnit i.exponent p).2 ↔
      (i.below p + 1 : Nat) * (10 : ℚ) ^ p - i.center * 2 ^ i.exponent ≤
        i.center * 2 ^ i.exponent - i.below p * 10 ^ p := by
  have below_le : i.below p * (commonUnit i.exponent p).2 ≤
      i.center * (commonUnit i.exponent p).1 := Nat.div_mul_le_self _ _
  have sums : (i.below p + 1) * (commonUnit i.exponent p).2 -
        i.center * (commonUnit i.exponent p).1 ≤
        i.center * (commonUnit i.exponent p).1 - i.below p * (commonUnit i.exponent p).2 ↔
      (i.below p + 1 + i.below p) * (commonUnit i.exponent p).2 ≤
        2 * i.center * (commonUnit i.exponent p).1 := by
    rw [Nat.add_mul (i.below p + 1), Nat.mul_assoc 2]
    omega
  rw [sums, le_commonUnit_iff]
  push_cast
  constructor <;> intro le <;> linarith

structure Centered (i : Interval) : Prop where
  low : i.low < i.center
  high : i.center < i.high

theorem Contains.of_between {x y : ℚ} (contains : i.Contains x) (centered : i.Centered)
    (between : x ≤ y ∧ y ≤ i.center * 2 ^ i.exponent ∨ i.center * 2 ^ i.exponent ≤ y ∧ y ≤ x) :
    i.Contains y := by
  obtain ⟨⟨lower, upper⟩, inner⟩ := contains
  have low : (i.low : ℚ) * 2 ^ i.exponent < i.center * 2 ^ i.exponent := by
    have := centered.low
    gcongr
  have high : (i.center : ℚ) * 2 ^ i.exponent < i.high * 2 ^ i.exponent := by
    have := centered.high
    gcongr
  rcases between with ⟨le, le_center⟩ | ⟨center_le, le⟩
  · refine ⟨⟨by linarith, by linarith⟩, fun open_ => ?_⟩
    obtain ⟨lower, upper⟩ := inner open_
    exact ⟨by linarith, by linarith⟩
  · refine ⟨⟨by linarith, by linarith⟩, fun open_ => ?_⟩
    obtain ⟨lower, upper⟩ := inner open_
    exact ⟨by linarith, by linarith⟩

/-- `d` gives the nearest number to the centre among the multiples of `10 ^ p` in the interval. -/
structure IsNearestOn (i : Interval) (p : Int) (d : Nat) : Prop where
  positive : 0 < d
  contains : i.Contains (d * 10 ^ p)
  nearest : ∀ d' : Nat, 0 < d' → i.Contains (d' * 10 ^ p) →
    |d * 10 ^ p - i.center * (2 : ℚ) ^ i.exponent| ≤ |d' * 10 ^ p - i.center * (2 : ℚ) ^ i.exponent|

/-- The number below the centre is one to choose. -/
def meetsBelow (i : Interval) (p : Int) : Bool := 0 < i.below p && i.inside p (i.below p)

theorem nearestOnGrid?_eq (i : Interval) (p : Int) : i.nearestOnGrid? p =
    if i.inside p (i.below p + 1) && (!i.meetsBelow p ||
        (i.below p + 1) * (commonUnit i.exponent p).2 - i.center * (commonUnit i.exponent p).1 ≤
          i.center * (commonUnit i.exponent p).1 - i.below p * (commonUnit i.exponent p).2)
      then some (i.below p + 1)
    else if i.meetsBelow p then some (i.below p)
    else none := rfl

/-- A multiple beyond the neighbour above lies no nearer, and in the interval only with it. -/
theorem beyond_above (centered : i.Centered) (above : i.below p < d) :
    (i.below p + 1 : Nat) * (10 : ℚ) ^ p ≤ d * 10 ^ p ∧
      (i.Contains (d * 10 ^ p) → i.inside p (i.below p + 1) = true) := by
  have le : (i.below p + 1 : Nat) * (10 : ℚ) ^ p ≤ d * 10 ^ p := by
    have : ((i.below p + 1 : Nat) : ℚ) ≤ d := by exact_mod_cast above
    gcongr
  refine ⟨le, fun contains => inside_iff_contains.2 ?_⟩
  exact contains.of_between centered (.inr ⟨(i.below_bounds p).2.le, le⟩)

theorem beyond_below (centered : i.Centered) (positive : 0 < d) (below : d ≤ i.below p) :
    d * (10 : ℚ) ^ p ≤ i.below p * 10 ^ p ∧
      (i.Contains (d * 10 ^ p) → i.meetsBelow p = true) := by
  have le : d * (10 : ℚ) ^ p ≤ i.below p * 10 ^ p := by
    have : (d : ℚ) ≤ i.below p := by exact_mod_cast below
    gcongr
  refine ⟨le, fun contains => ?_⟩
  rw [meetsBelow, Bool.and_eq_true, decide_eq_true_iff, inside_iff_contains]
  exact ⟨by omega, contains.of_between centered (.inl ⟨le, (i.below_bounds p).1⟩)⟩

/-- The search on one grid finds the nearest number in the interval, and fails only if there is
none. It is enough to look at the two neighbours of the centre. -/
theorem nearestOnGrid?_cases (centered : i.Centered) (p : Int) :
    (∃ d, i.nearestOnGrid? p = some d ∧ i.IsNearestOn p d) ∨
      i.nearestOnGrid? p = none ∧ ∀ d : Nat, 0 < d → ¬ i.Contains (d * 10 ^ p) := by
  obtain ⟨below_le, lt_above⟩ := i.below_bounds p
  rw [nearestOnGrid?_eq]
  split
  · rename_i chosen
    obtain ⟨within, closer⟩ := Bool.and_eq_true_iff.1 chosen
    refine .inl ⟨_, rfl, Nat.succ_pos _, inside_iff_contains.1 within,
      fun d positive contains => ?_⟩
    rw [abs_of_pos (sub_pos.2 lt_above)]
    rcases Nat.lt_or_ge (i.below p) d with above | below
    · exact (sub_le_sub_right (beyond_above centered above).1 _).trans (le_abs_self _)
    · obtain ⟨le, meets⟩ := beyond_below centered positive below
      rw [meets contains, Bool.not_true, Bool.false_or, decide_eq_true_iff, closer_iff] at closer
      exact (closer.trans (by linarith)).trans (neg_le_abs _)
  · rename_i notAbove
    split
    · rename_i meets
      obtain ⟨positive, within⟩ := Bool.and_eq_true_iff.1 meets
      refine .inl ⟨_, rfl, of_decide_eq_true positive, inside_iff_contains.1 within,
        fun d positive contains => ?_⟩
      rw [abs_of_nonpos (sub_nonpos.2 below_le)]
      rcases Nat.lt_or_ge (i.below p) d with above | below
      · obtain ⟨le, within⟩ := beyond_above centered above
        rw [within contains, meets, Bool.not_true, Bool.false_or, Bool.true_and,
          decide_eq_true_iff, closer_iff] at notAbove
        exact le_trans (by linarith) (le_abs_self _)
      · have le := (beyond_below centered positive below).1
        exact le_trans (by linarith) (neg_le_abs _)
    · rename_i notBelow
      refine .inr ⟨rfl, fun d positive contains => ?_⟩
      rcases Nat.lt_or_ge (i.below p) d with above | below
      · apply notAbove
        rw [(beyond_above centered above).2 contains, Bool.eq_false_iff.2 notBelow]
        rfl
      · exact notBelow ((beyond_below centered positive below).2 contains)

/-- On a grid finer than the upper half of the interval, the next number above the centre lies in
it. -/
theorem nearestOnGrid?_isSome (centered : i.Centered)
    (fine : i.center * 2 ^ i.exponent + (10 : ℚ) ^ p < i.high * 2 ^ i.exponent) :
    (i.nearestOnGrid? p).isSome := by
  obtain ⟨d, found, -⟩ | ⟨-, outside⟩ := nearestOnGrid?_cases centered p
  · rw [found]
    rfl
  · obtain ⟨below, above⟩ := i.below_bounds p
    have low : (i.low : ℚ) * 2 ^ i.exponent < i.center * 2 ^ i.exponent := by
      have := centered.low
      gcongr
    refine absurd ?_ (outside (i.below p + 1) (Nat.succ_pos _))
    push_cast at above ⊢
    have lower : (i.low : ℚ) * 2 ^ i.exponent < (i.below p + 1) * 10 ^ p := by linarith
    have upper : (i.below p + 1) * (10 : ℚ) ^ p < i.high * 2 ^ i.exponent := by linarith
    exact ⟨⟨lower.le, upper.le⟩, fun _ => ⟨lower, upper⟩⟩

/-- The search over the grids ends on the first one that meets the interval. -/
theorem digitsFrom_spec (centered : i.Centered) {fuel k : Nat} (enough : k < fuel)
    (meets : (i.nearestOnGrid? (p - k)).isSome) :
    ∃ d q, i.digitsFrom fuel p = (d, q) ∧ i.IsNearestOn q d ∧
      ∀ q', q < q' → q' ≤ p → ∀ d' : Nat, 0 < d' → ¬ i.Contains (d' * 10 ^ q') := by
  induction k generalizing fuel p with
  | zero =>
    obtain ⟨fuel, rfl⟩ := Nat.exists_eq_succ_of_ne_zero (Nat.ne_zero_of_lt enough)
    rw [Nat.cast_zero, sub_zero] at meets
    obtain ⟨d, found, nearest⟩ | ⟨missing, -⟩ := nearestOnGrid?_cases centered p
    · exact ⟨d, p, by rw [digitsFrom, found], nearest, fun q' lt le => by omega⟩
    · rw [missing] at meets
      cases meets
  | succ k ih =>
    obtain ⟨fuel, rfl⟩ := Nat.exists_eq_succ_of_ne_zero (Nat.ne_zero_of_lt enough)
    obtain ⟨d, found, nearest⟩ | ⟨missing, none⟩ := nearestOnGrid?_cases centered p
    · exact ⟨d, p, by rw [digitsFrom, found], nearest, fun q' lt le => by omega⟩
    · rw [Nat.cast_succ, add_comm, ← sub_sub] at meets
      obtain ⟨d, q, found, nearest, coarser⟩ := ih (Nat.lt_of_succ_lt_succ enough) meets
      refine ⟨d, q, by rw [digitsFrom, missing, ← found], nearest, fun q' lt le => ?_⟩
      rcases le.eq_or_lt with rfl | lt'
      · exact none
      · exact coarser q' lt (by omega)

theorem not_contains_of_high_lt (coarse : i.high * 2 ^ i.exponent < (10 : ℚ) ^ p)
    (positive : 0 < d) : ¬ i.Contains (d * 10 ^ p) := by
  rintro ⟨⟨-, upper⟩, -⟩
  have one_le : (1 : ℚ) ≤ d := by exact_mod_cast positive
  have : (10 : ℚ) ^ p ≤ d * 10 ^ p := le_mul_of_one_le_left (by positivity) one_le
  linarith

end Interval

section Digits

variable {negative : Bool} {m : Nat} {e : Int}

theorem centered_interval (positive : 0 < m) : (interval m e).Centered where
  low := by
    change 4 * m - _ < 4 * m
    split <;> omega
  high := by
    change 4 * m < 4 * m + 2
    omega

theorem high_lt_top (positive : 0 < m) (proper : (finite negative m e).Proper) :
    ((interval m e).high : ℚ) * 2 ^ (interval m e).exponent <
      10 ^ ((((m.log2 : Int) + e) * 30103 / 100000 + 2) + 1) := by
  obtain ⟨short, min_le, le_max, -⟩ := proper
  simp only [minExponent, maxExponent] at min_le le_max
  have places : m.log2 < 53 := (Nat.log2_lt positive.ne').2 short
  have len : (m : ℚ) + 1 ≤ 2 ^ (m.log2 + 1) := by exact_mod_cast Nat.lt_log2_self
  have quarter : (2 : ℚ) ^ e = 4 * 2 ^ (e - 2) := by
    rw [zpow_sub₀ two_ne_zero]
    norm_num
    ring
  calc ((interval m e).high : ℚ) * 2 ^ (interval m e).exponent
      = ((4 * m + 2 : Nat) : ℚ) * 2 ^ (e - 2) := rfl
    _ < ((m : ℚ) + 1) * 2 ^ e := by
      have unit : (0 : ℚ) < 2 ^ (e - 2) := by positivity
      rw [quarter]
      push_cast
      linarith
    _ ≤ 2 ^ (m.log2 + 1) * 2 ^ e := by gcongr
    _ = 2 ^ ((m.log2 : Int) + 1 + e) := by
      rw [zpow_add₀ two_ne_zero, ← zpow_natCast]
      push_cast
      rfl
    _ < 10 ^ ((((m.log2 : Int) + e) * 30103 / 100000 + 2) + 1) := by
      generalize top : ((m.log2 : Int) + e) * 30103 / 100000 + 2 = t
      rcases le_or_gt 0 (t + 1) with nonneg | negative
      · exact two_zpow_lt_ten_zpow_of_nonneg nonneg (by omega)
      · exact two_zpow_lt_ten_zpow_of_neg negative (by omega)

/-- Twenty-four grids from the top are enough: the last is finer than half the distance to the next
number. -/
theorem isSome_last (positive : 0 < m) (proper : (finite negative m e).Proper) :
    ((interval m e).nearestOnGrid?
      (((m.log2 : Int) + e) * 30103 / 100000 + 2 - (23 : Nat))).isSome := by
  obtain ⟨short, min_le, le_max, -⟩ := proper
  have len : m.log2 < 53 := (Nat.log2_lt positive.ne').2 short
  apply Interval.nearestOnGrid?_isSome (centered_interval positive)
  generalize top : ((m.log2 : Int) + e) * 30103 / 100000 + 2 = t
  have fine : (10 : ℚ) ^ (t - (23 : Nat)) < 2 ^ (e - 1) := by
    simp only [minExponent, maxExponent] at min_le le_max
    rcases le_or_gt 0 (e - 1) with nonneg | negative
    · exact ten_zpow_lt_two_zpow_of_nonneg nonneg (by omega)
    · exact ten_zpow_lt_two_zpow_of_neg negative (by omega)
  have half : (2 : ℚ) ^ (e - 1) = 2 * 2 ^ (e - 2) := by
    rw [show e - 1 = e - 2 + 1 by ring, zpow_add_one₀ two_ne_zero, mul_comm]
  change ((4 * m : Nat) : ℚ) * 2 ^ (e - 2) + _ < ((4 * m + 2 : Nat) : ℚ) * 2 ^ (e - 2)
  push_cast at fine ⊢
  linarith

theorem shortestDigits_spec (positive : 0 < m) (proper : (finite negative m e).Proper) :
    ∃ d p, shortestDigits m e = (d, p) ∧ (interval m e).IsNearestOn p d ∧
      ∀ q, p < q → ∀ d' : Nat, 0 < d' → ¬ (interval m e).Contains (d' * 10 ^ q) := by
  obtain ⟨d, p, found, nearest, coarser⟩ := Interval.digitsFrom_spec (centered_interval positive)
    (by decide : 23 < 24) (isSome_last positive proper)
  refine ⟨d, p, found, nearest, fun q lt => ?_⟩
  rcases le_or_gt q (((m.log2 : Int) + e) * 30103 / 100000 + 2) with le | above
  · exact coarser q lt le
  · intro d' positive'
    refine Interval.not_contains_of_high_lt ?_ positive'
    exact (high_lt_top positive proper).trans_le (zpow_le_zpow_right₀ (by norm_num) (by omega))

end Digits

section Reading

variable {negative : Bool} {m : Nat} {e : Int}

theorem Interval.Contains.range {x : ℚ} (contains : (interval m e).Contains x) (positive : 0 < m)
    (proper : (finite negative m e).Proper) : 2 ^ (-1075 : Int) ≤ x ∧ x ≤ 2 ^ (1024 : Int) := by
  obtain ⟨short, min_le, le_max, -⟩ := proper
  obtain ⟨lower, upper, -⟩ := (contains_interval_iff positive).1 contains
  have unit : (0 : ℚ) < 2 ^ e := by positivity
  have one_le : (1 : ℚ) ≤ m := by exact_mod_cast positive
  have len : (m : ℚ) + 1 ≤ 2 * fullMantissa := by exact_mod_cast short
  have half : 1 / 2 ≤ x / 2 ^ e := by
    split at lower <;> linarith
  constructor
  · calc (2 : ℚ) ^ (-1075 : Int)
        ≤ 2 ^ (e - 1) := by
          simp only [minExponent] at min_le
          exact zpow_le_zpow_right₀ one_le_two (by omega)
      _ = 1 / 2 * 2 ^ e := by rw [zpow_sub_one₀ two_ne_zero]; ring
      _ ≤ x := (le_div_iff₀ unit).1 half
  · calc x ≤ 2 * fullMantissa * 2 ^ e := (div_le_iff₀ unit).1 (by linarith)
      _ = 2 ^ (e + 53) := by
        rw [cast_fullMantissa, zpow_add₀ two_ne_zero]
        norm_num
        ring
      _ ≤ 2 ^ (1024 : Int) := by
        simp only [maxExponent] at le_max
        exact zpow_le_zpow_right₀ one_le_two (by omega)

theorem length_toDigits_bounds {d : Nat} (positive : 0 < d) :
    (10 : ℚ) ^ ((Nat.toDigits 10 d).length - 1 : Int) ≤ d ∧
      (d : ℚ) < 10 ^ ((Nat.toDigits 10 d).length : Int) := by
  have some_digit : 0 < (Nat.toDigits 10 d).length := Nat.length_toDigits_pos
  generalize len : (Nat.toDigits 10 d).length = k at some_digit
  constructor
  · obtain ⟨k, rfl⟩ := Nat.exists_eq_succ_of_ne_zero some_digit.ne'
    have lower : 10 ^ k ≤ d := by
      rcases Nat.eq_zero_or_pos k with rfl | longer
      · exact positive
      · by_contra less
        have := (Nat.length_toDigits_le_iff (by decide) longer).2 (not_le.1 less)
        omega
    rw [Nat.cast_succ, add_sub_cancel_right, zpow_natCast]
    exact_mod_cast lower
  · rw [zpow_natCast]
    exact_mod_cast (Nat.length_toDigits_le_iff (by decide) some_digit).1 len.le

section Range

variable {d : Nat} {p : Int}

theorem not_below_range (d_pos : 0 < d) (small : 2 ^ (-1075 : Int) ≤ (d : ℚ) * 10 ^ p) :
    ¬ ((Nat.toDigits 10 d).length : Int) + p < -330 := by
  intro less
  have tiny : (10 : ℚ) ^ (-331 : Int) < 2 ^ (-1075 : Int) :=
    ten_zpow_lt_two_zpow_of_neg (by decide) (by decide)
  have : (d : ℚ) * 10 ^ p ≤ 10 ^ (-331 : Int) := by
    calc (d : ℚ) * 10 ^ p
        ≤ 10 ^ ((Nat.toDigits 10 d).length : Int) * 10 ^ p := by
          have := (length_toDigits_bounds d_pos).2
          gcongr
      _ = 10 ^ (((Nat.toDigits 10 d).length : Int) + p) := (zpow_add₀ (by norm_num) _ _).symm
      _ ≤ 10 ^ (-331 : Int) := zpow_le_zpow_right₀ (by norm_num) (by omega)
  exact absurd (small.trans this) (not_le.2 tiny)

theorem not_above_range (d_pos : 0 < d) (large : (d : ℚ) * 10 ^ p ≤ 2 ^ (1024 : Int)) :
    ¬ 310 < ((Nat.toDigits 10 d).length : Int) + p := by
  intro greater
  have huge : (2 : ℚ) ^ (1024 : Int) < 10 ^ (310 : Int) :=
    two_zpow_lt_ten_zpow_of_nonneg (by decide) (by decide)
  have : (10 : ℚ) ^ (310 : Int) ≤ d * 10 ^ p := by
    calc (10 : ℚ) ^ (310 : Int)
        ≤ 10 ^ (((Nat.toDigits 10 d).length - 1 : Int) + p) :=
          zpow_le_zpow_right₀ (by norm_num) (by omega)
      _ = 10 ^ ((Nat.toDigits 10 d).length - 1 : Int) * 10 ^ p := zpow_add₀ (by norm_num) _ _
      _ ≤ d * 10 ^ p := by
        have := (length_toDigits_bounds d_pos).1
        gcongr
  exact absurd (this.trans large) (not_le.2 huge)

end Range

theorem tenPow_of_nonneg {p : Int} (nonneg : 0 ≤ p) : (tenPow p.toNat : ℚ) = 10 ^ p := by
  change ((10 ^ p.toNat : Nat) : ℚ) = 10 ^ p
  rw [Nat.cast_pow, ← zpow_natCast, Int.toNat_of_nonneg nonneg, Nat.cast_ofNat]

/-- Within the bounds that spare the reader a power of ten, a decimal is rounded as a ratio. -/
theorem exists_ofDecimal_eq (negative : Bool) {d : Nat} (d_pos : 0 < d) (p : Int) :
    ∃ num den : Nat, 0 < num ∧ 0 < den ∧ (num : ℚ) / den = d * 10 ^ p ∧
      ofDecimal negative d p =
        if ((Nat.toDigits 10 d).length : Int) + p < -330 then .finite negative 0 minExponent
        else if 310 < ((Nat.toDigits 10 d).length : Int) + p then .infinite negative
        else ofRatio negative num den := by
  have positive : ¬ d = 0 := d_pos.ne'
  by_cases nonneg : 0 ≤ p
  · refine ⟨d * tenPow p.toNat, 1, Nat.mul_pos d_pos (Nat.pow_pos (by decide)), by decide, ?_, ?_⟩
    · rw [Nat.cast_mul, tenPow_of_nonneg nonneg, Nat.cast_one, div_one]
    · simp only [ofDecimal, positive, false_or, if_pos nonneg]
  · refine ⟨d, tenPow (-p).toNat, d_pos, Nat.pow_pos (by decide), ?_, ?_⟩
    · rw [tenPow_of_nonneg (by omega), zpow_neg, div_inv_eq_mul]
    · simp only [ofDecimal, positive, false_or, if_neg nonneg]

/-- A decimal is read as a number exactly if it lies in the interval around it. The bounds that
spare the reader a power of ten lie farther out. -/
theorem ofDecimal_eq_iff {d : Nat} {p : Int} (d_pos : 0 < d) (positive : 0 < m)
    (proper : (finite negative m e).Proper) :
    ofDecimal negative d p = .finite negative m e ↔ (interval m e).Contains (d * 10 ^ p) := by
  obtain ⟨num, den, num_pos, den_pos, ratio, read⟩ := exists_ofDecimal_eq negative d_pos p
  rw [read]
  constructor
  · intro rounded
    split at rounded
    · injection rounded with _ zero _
      omega
    · split at rounded
      · cases rounded
      · rw [← ratio]
        exact contains_of_ofRatio num_pos den_pos positive rounded
  · intro contains
    obtain ⟨small, large⟩ := contains.range positive proper
    rw [if_neg (not_below_range d_pos small), if_neg (not_above_range d_pos large)]
    rw [← ratio] at contains
    exact ofRatio_of_contains num_pos den_pos positive proper contains

end Reading

section Text

/-- Digits on both sides of a point, and zeros for what they do not reach. -/
theorem positional_cases (d : Nat) (p : Int) :
    (0 ≤ p ∧ positional d p = Nat.toDigits 10 d ++ List.replicate p.toNat '0') ∨
      ∃ whole places : List Char, p = -places.length ∧ whole ≠ [] ∧
        (∃ k, whole ++ places = List.replicate k '0' ++ Nat.toDigits 10 d) ∧
        positional d p = whole ++ '.' :: places := by
  unfold positional
  split
  · rename_i nonneg
    exact .inl ⟨nonneg, rfl⟩
  · rename_i nonneg
    dsimp only
    generalize padding : (-p).toNat + 1 - (Nat.toDigits 10 d).length = k
    generalize padded : List.replicate k '0' ++ Nat.toDigits 10 d = digits
    have length : k + (Nat.toDigits 10 d).length = digits.length := by
      rw [← padded, List.length_append, List.length_replicate]
    refine .inr ⟨_, _, ?_, ?_, ⟨k, ?_⟩, rfl⟩
    · rw [List.length_drop]
      omega
    · rw [← List.length_pos_iff, List.length_take]
      omega
    · rw [List.take_append_drop, padded]

theorem isDigit_zeros_toDigits {k d : Nat} :
    ∀ c ∈ List.replicate k '0' ++ Nat.toDigits 10 d, c.isDigit = true :=
  (natural?_eq_some_iff.1 (natural?_zeros_toDigits k d)).2.1

theorem head_positional (d : Nat) (p : Int) :
    ∃ c cs, positional d p = c :: cs ∧ c.isDigit = true := by
  obtain ⟨-, shown⟩ | ⟨whole, places, -, nonempty, ⟨k, padded⟩, shown⟩ := positional_cases d p
  · obtain ⟨c, cs, digits⟩ := List.exists_cons_of_ne_nil (Nat.toDigits_ne_nil (n := d) (b := 10))
    refine ⟨c, cs ++ List.replicate p.toNat '0', by rw [shown, digits, List.cons_append], ?_⟩
    exact isDigit_toDigits c (digits ▸ List.mem_cons_self)
  · obtain ⟨c, cs, rfl⟩ := List.exists_cons_of_ne_nil nonempty
    refine ⟨c, cs ++ '.' :: places, by rw [shown, List.cons_append], ?_⟩
    have mem : c ∈ c :: cs ++ places := List.mem_cons_self
    rw [padded] at mem
    exact isDigit_zeros_toDigits c mem

theorem fraction?_positional {d : Nat} (positive : 0 < d) (p : Int) :
    ∃ d' p', fraction? (positional d p) = some (d', p') ∧ 0 < d' ∧
      (d' : ℚ) * 10 ^ p' = d * 10 ^ p := by
  obtain ⟨nonneg, shown⟩ | ⟨whole, places, power, -, ⟨k, padded⟩, shown⟩ := positional_cases d p
  · rw [shown, toDigits_append_zeros positive, fraction?_whole isDigit_toDigits, natural?_toDigits]
    refine ⟨_, _, rfl, by positivity, ?_⟩
    rw [zpow_zero, mul_one, Nat.cast_mul, Nat.cast_pow, Nat.cast_ofNat, ← zpow_natCast,
      Int.toNat_of_nonneg nonneg]
  · have digits : ∀ c ∈ whole ++ places, c.isDigit = true := by
      rw [padded]
      exact isDigit_zeros_toDigits
    obtain ⟨digits, digits'⟩ := List.forall_mem_append.1 digits
    rw [shown, fraction?_point digits digits', padded, natural?_zeros_toDigits, ← power]
    exact ⟨_, _, rfl, positive, rfl⟩

/-- Of the decimals that are read as the number, this one has the coarsest last place, and none with
this last place lies nearer to the number. -/
structure IsShortest (negative : Bool) (m : Nat) (e : Int) (d : Nat) (p : Int) : Prop where
  reads : ofDecimal negative d p = .finite negative m e
  coarsest : ∀ (d' : Nat) (q : Int), ofDecimal negative d' q = .finite negative m e → q ≤ p
  nearest : ∀ d' : Nat, ofDecimal negative d' p = .finite negative m e →
    |d * 10 ^ p - m * (2 : ℚ) ^ e| ≤ |d' * 10 ^ p - m * (2 : ℚ) ^ e|

theorem pos_of_ofDecimal {negative : Bool} {m : Nat} {e : Int} {d : Nat} {p : Int}
    (positive : 0 < m) (read : ofDecimal negative d p = .finite negative m e) : 0 < d := by
  by_contra zero
  obtain rfl : d = 0 := by omega
  injection read with _ mantissa _
  omega

/-- A number other than zero is written with its shortest decimal. -/
theorem toList_text {negative : Bool} {m : Nat} {e : Int} (positive : 0 < m)
    (proper : (finite negative m e).Proper) :
    ∃ (d : Nat) (p : Int), 0 < d ∧ IsShortest negative m e d p ∧
      (finite negative m e).text.toList = signed negative (positional d p) := by
  obtain ⟨d, p, digits, nearest, coarser⟩ := shortestDigits_spec positive proper
  have center : ((interval m e).center : ℚ) * 2 ^ (interval m e).exponent = m * 2 ^ e := by
    change ((4 * m : Nat) : ℚ) * 2 ^ (e - 2) = _
    rw [zpow_sub₀ two_ne_zero]
    push_cast
    ring
  refine ⟨d, p, nearest.positive, ⟨?_, fun d' q read => ?_, fun d' read => ?_⟩, ?_⟩
  · exact (ofDecimal_eq_iff nearest.positive positive proper).2 nearest.contains
  · have d'_pos := pos_of_ofDecimal positive read
    by_contra finer
    exact coarser q (by omega) d' d'_pos ((ofDecimal_eq_iff d'_pos positive proper).1 read)
  · have d'_pos := pos_of_ofDecimal positive read
    rw [← center]
    exact nearest.nearest d' d'_pos ((ofDecimal_eq_iff d'_pos positive proper).1 read)
  · simp only [text, digits, positive.ne', if_false, String.toList_ofList, signed]

theorem eq_minExponent_of_zero {negative : Bool} {e : Int} (proper : (finite negative 0 e).Proper) :
    e = minExponent :=
  proper.2.2.2.resolve_right (by decide)

theorem takeSign_positional (negative : Bool) (d : Nat) (p : Int) :
    takeSign (signed negative (positional d p)) = (negative, positional d p) := by
  obtain ⟨c, cs, first, digit⟩ := head_positional d p
  apply takeSign_signed
  rw [first]
  simpa using digit

/-- The text of a number is read back as the number. -/
theorem read?_text {x : Binary64} (proper : x.Proper) : read? x.text.toList = some x := by
  cases x with
  | nan => decide
  | infinite negative => cases negative <;> decide
  | finite negative m e =>
    rcases Nat.eq_zero_or_pos m with rfl | positive
    · obtain rfl := eq_minExponent_of_zero proper
      cases negative <;> decide
    · obtain ⟨d, p, d_pos, shortest, shown⟩ := toList_text positive proper
      obtain ⟨d', p', fraction, d'_pos, value⟩ := fraction?_positional d_pos p
      rw [shown, read?, takeSign_positional]
      dsimp only
      rw [fraction]
      dsimp only
      rw [(ofDecimal_eq_iff d'_pos positive proper).2]
      rw [value]
      exact (ofDecimal_eq_iff d_pos positive proper).1 shortest.reads

/-- If the text of a number other than negative zero is a whole number, it is so in standard
spelling. -/
theorem toString_of_signedWord?_text {x : Binary64} (proper : x.Proper)
    (other : x ≠ .finite true 0 minExponent) {n : Int}
    (read : signedWord? x.text.toList = some n) : toString n = x.text := by
  cases x with
  | nan =>
    have none : signedWord? nan.text.toList = none := by decide
    cases none.symm.trans read
  | infinite negative =>
    have none : signedWord? (infinite negative).text.toList = none := by
      cases negative <;> decide
    cases none.symm.trans read
  | finite negative m e =>
    rcases Nat.eq_zero_or_pos m with rfl | positive
    · obtain rfl := eq_minExponent_of_zero proper
      cases negative with
      | true => exact absurd rfl other
      | false =>
        have zero : signedWord? (finite false 0 minExponent).text.toList = some 0 := by decide
        cases zero.symm.trans read
        decide
    · obtain ⟨d, p, d_pos, -, shown⟩ := toList_text positive proper
      rw [shown] at read
      obtain ⟨k, digits, rfl⟩ := integer?_eq_some_iff.1 (signedWord?_eq_some_iff.1 read).1
      rw [takeSign_positional] at digits ⊢
      dsimp only at digits ⊢
      obtain ⟨-, whole⟩ | ⟨whole, places, -, -, -, point⟩ := positional_cases d p
      · rw [whole, toDigits_append_zeros d_pos, natural?_toDigits] at digits
        cases digits
        have k_pos : 0 < d * 10 ^ p.toNat := by positivity
        apply String.toList_injective
        rw [shown, whole, toDigits_append_zeros d_pos, toList_toString]
        generalize d * 10 ^ p.toNat = k at k_pos
        cases negative with
        | true => simp [k_pos]
        | false =>
          have nonneg : ¬ (k : Int) < 0 := by omega
          simp [nonneg]
      · have digit := (natural?_eq_some_iff.1 digits).2.1 '.' (by simp [point])
        exact absurd digit (by decide)

end Text

end BrokerAdmin.Decimal.Binary64
