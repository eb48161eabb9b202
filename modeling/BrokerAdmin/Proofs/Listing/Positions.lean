import BrokerAdmin.Page
import BrokerAdmin.Registry.Basic

set_option autoImplicit false

/-!
Which positions of a listing a page shows. They are reckoned here with numbers that have no bound,
page zero counting as the first. The stores reckon with words, and the word in which a window
starts may fall short of the position meant; but then it lies behind every listing that a word can
count, as the position meant does, and the page is empty either way.
-/

namespace BrokerAdmin

variable {α : Type}

namespace Listing

/-- What stands at the positions that satisfy `p`, in order. -/
def atPositions (l : List α) (p : Nat → Prop) [DecidablePred p] : List α :=
  (l.zipIdx.filter fun e => p e.2).map (·.1)

theorem atPositions_cons (a : α) (l : List α) (p : Nat → Prop) [DecidablePred p] :
    atPositions (a :: l) p =
      if p 0 then a :: atPositions l (fun i => p (i + 1))
      else atPositions l fun i => p (i + 1) := by
  unfold atPositions
  rw [List.zipIdx_cons', List.filter_cons, List.filter_map]
  by_cases first : p 0
  · simp [first, Function.comp_def]
  · simp [first, Function.comp_def]

theorem atPositions_interval (l : List α) (start size : Nat) :
    atPositions l (fun i => start ≤ i ∧ i < start + size) = (l.drop start).take size := by
  induction l generalizing start size with
  | nil => simp [atPositions]
  | cons a l ih =>
    rw [atPositions_cons]
    cases start with
    | succ start =>
      rw [if_neg (by omega), List.drop_succ_cons, ← ih start size]
      congr 1
      funext i
      rw [Nat.add_le_add_iff_right, Nat.add_right_comm, Nat.add_lt_add_iff_right]
    | zero =>
      cases size with
      | zero => simp [atPositions]
      | succ size =>
        have rest := ih 0 size
        rw [List.drop_zero] at rest
        rw [if_pos (by omega), List.drop_zero, List.take_succ_cons, ← rest]
        congr 2
        funext i
        simp only [Nat.zero_le, Nat.zero_add, Nat.add_lt_add_iff_right]

/-- While a listing is no longer than a word can count, the words of a window are exact. -/
theorem window_ofPage {l : List α} (counted : l.length < UInt64.size) (page size : UInt64) :
    (l.drop (Window.ofPage page size).start.toNat).take (Window.ofPage page size).size.toNat =
      (l.drop ((page.toNat - 1) * size.toNat)).take size.toNat := by
  rw [Window.ofPage, saturatingMul_toNat, pagesBefore_toNat]
  rcases Nat.le_total ((page.toNat - 1) * size.toNat) (UInt64.size - 1) with inside | outside
  · rw [Nat.min_eq_left inside]
  · rw [Nat.min_eq_right outside, List.drop_of_length_le (by omega),
      List.drop_of_length_le (by omega)]

theorem window_ofPage_one {l : List α} {size : UInt64} (enough : l.length ≤ size.toNat) :
    (l.drop (Window.ofPage 1 size).start.toNat).take (Window.ofPage 1 size).size.toNat = l := by
  have start : (Window.ofPage 1 size).start.toNat = 0 := by
    simp [Window.ofPage, saturatingMul_toNat, pagesBefore_toNat]
  rw [start, List.drop_zero, List.take_of_length_le]
  exact enough

end Listing

/-- Every page shows exactly what stands at its positions, and how much is listed. -/
def ShowsPositions (list : UInt64 → UInt64 → Except Fault (Page α)) (all : List α) : Prop :=
  ∀ page size, list page size = .ok ⟨Listing.atPositions all fun i =>
    (max page.toNat 1 - 1) * size.toNat ≤ i ∧
      i < (max page.toNat 1 - 1) * size.toNat + size.toNat, all.length⟩

theorem showsPositions_of_windows {list : UInt64 → UInt64 → Except Fault (Page α)} {all : List α}
    (counted : all.length < UInt64.size)
    (windows : ∀ page size, list page size =
      .ok ⟨(all.drop (Window.ofPage page size).start.toNat).take
        (Window.ofPage page size).size.toNat, all.length⟩) :
    ShowsPositions list all := by
  intro page size
  have first : max page.toNat 1 - 1 = page.toNat - 1 := by omega
  rw [windows, Listing.window_ofPage counted, first, Listing.atPositions_interval]

end BrokerAdmin
