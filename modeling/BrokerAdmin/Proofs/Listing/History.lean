import BrokerAdmin.Registry.Listing
import Mathlib.Data.List.Induction
import Mathlib.Order.Nat
import Mathlib.Data.Nat.SuccPred
import Mathlib.Order.SuccPred.Archimedean

set_option autoImplicit false

/-!
Listings as the outcome of a history of changes. A key is listed when it has been put since it was
last dropped. The latest of these puts, amended by the changes behind it, is its value, and the
earliest of them is what its position goes by.
-/

namespace BrokerAdmin.Listing

variable {K V : Type}

theorem mem_keys_iff {l : List (K × V)} {k : K} : k ∈ keys l ↔ ∃ v, (k, v) ∈ l := by
  simp [keys]

section Membership

variable [BEq K]

theorem keys_set (l : List (K × V)) (k : K) (v : V) :
    keys (set l k v) = if contains l k then keys l else keys l ++ [k] := by
  unfold set
  split
  · rw [keys_modify]
  · rw [keys_append, keys_cons, keys_nil]

variable [LawfulBEq K]

theorem mem_modify {l : List (K × V)} {k a : K} {f : V → V} {v : V} :
    (a, v) ∈ modify l k f ↔ a ≠ k ∧ (a, v) ∈ l ∨ a = k ∧ ∃ u, (k, u) ∈ l ∧ f u = v := by
  simp only [modify, List.mem_map, Prod.exists]
  constructor
  · rintro ⟨b, u, hmem, heq⟩
    by_cases h : b = k
    · subst h
      simp only [beq_self_eq_true, if_true, Prod.mk.injEq] at heq
      exact .inr ⟨heq.1.symm, u, hmem, heq.2⟩
    · simp only [beq_iff_eq, h, if_false, Prod.mk.injEq] at heq
      obtain ⟨rfl, rfl⟩ := heq
      exact .inl ⟨h, hmem⟩
  · rintro (⟨h, hmem⟩ | ⟨rfl, u, hmem, rfl⟩)
    · exact ⟨a, v, hmem, by simp [h]⟩
    · exact ⟨a, u, hmem, by simp⟩

theorem mem_set {l : List (K × V)} {k a : K} {v w : V} :
    (a, w) ∈ set l k v ↔ a ≠ k ∧ (a, w) ∈ l ∨ a = k ∧ v = w := by
  unfold set
  split
  · rename_i h
    obtain ⟨u, hu⟩ := mem_keys_iff.1 ((contains_iff_mem_keys l k).1 h)
    rw [mem_modify]
    have known : ∃ u, (k, u) ∈ l := ⟨u, hu⟩
    simp [known]
  · rename_i h
    have unknown : ∀ w, (k, w) ∉ l := fun w hw =>
      h ((contains_iff_mem_keys l k).2 (mem_keys_iff.2 ⟨w, hw⟩))
    rw [List.mem_append, List.mem_singleton, Prod.mk.injEq]
    by_cases ha : a = k
    · subst ha
      simp [unknown, eq_comm]
    · simp [ha]

end Membership

inductive Change (K V : Type) where
  | put (k : K) (v : V)
  | amend (k : K) (f : V → V)
  | drop (p : K → Bool)

/-- At place `n` the key is put, and nothing behind that place drops it. -/
def PutSince (cs : List (Change K V)) (k : K) (n : Nat) : Prop :=
  (∃ v, cs[n]? = some (.put k v)) ∧ ∀ m p, n < m → cs[m]? = some (.drop p) → p k = false

theorem getElem?_concat_eq_some {α : Type} {l : List α} {a b : α} {n : Nat} :
    (l ++ [a])[n]? = some b ↔ l[n]? = some b ∨ n = l.length ∧ a = b := by
  rcases Nat.lt_trichotomy n l.length with h | rfl | h
  · simp [List.getElem?_append_left h, Nat.ne_of_lt h]
  · simp
  · have outside : l[n]? = none := List.getElem?_eq_none (Nat.le_of_lt h)
    have outside' : (l ++ [a])[n]? = none := List.getElem?_eq_none (by simp; omega)
    simp [outside, outside', Nat.ne_of_gt h]

theorem lt_length_of_getElem?_eq_some {α : Type} {l : List α} {a : α} {n : Nat}
    (h : l[n]? = some a) : n < l.length := (List.getElem?_eq_some_iff.1 h).1

theorem mem_drop_succ_iff {α : Type} {l : List α} {a : α} {n : Nat} :
    a ∈ l.drop (n + 1) ↔ ∃ m, n < m ∧ l[m]? = some a := by
  rw [List.mem_iff_getElem?]
  simp only [List.getElem?_drop]
  constructor
  · rintro ⟨i, hi⟩
    exact ⟨n + 1 + i, by omega, hi⟩
  · rintro ⟨m, hm, he⟩
    refine ⟨m - (n + 1), ?_⟩
    rwa [Nat.add_sub_cancel' hm]

namespace PutSince

variable {cs : List (Change K V)} {c : Change K V} {k : K} {n : Nat}

theorem lt_length (h : PutSince cs k n) : n < cs.length := by
  obtain ⟨⟨v, hv⟩, -⟩ := h
  exact lt_length_of_getElem?_eq_some hv

theorem concat_iff : PutSince (cs ++ [c]) k n ↔
    (PutSince cs k n ∧ ∀ p, c = .drop p → p k = false) ∨ n = cs.length ∧ ∃ v, c = .put k v := by
  constructor
  · rintro ⟨⟨v, hv⟩, kept⟩
    rcases getElem?_concat_eq_some.1 hv with earlier | ⟨rfl, rfl⟩
    · refine .inl ⟨⟨⟨v, earlier⟩, ?_⟩, ?_⟩
      · intro m p hm hp
        exact kept m p hm (getElem?_concat_eq_some.2 (.inl hp))
      · rintro p rfl
        exact kept cs.length p (lt_length_of_getElem?_eq_some earlier)
          (getElem?_concat_eq_some.2 (.inr ⟨rfl, rfl⟩))
    · exact .inr ⟨rfl, v, rfl⟩
  · rintro (⟨⟨⟨v, hv⟩, kept⟩, last⟩ | ⟨rfl, v, rfl⟩)
    · refine ⟨⟨v, getElem?_concat_eq_some.2 (.inl hv)⟩, fun m p hm hp => ?_⟩
      rcases getElem?_concat_eq_some.1 hp with hp | ⟨-, rfl⟩
      · exact kept m p hm hp
      · exact last p rfl
    · refine ⟨⟨v, getElem?_concat_eq_some.2 (.inr ⟨rfl, rfl⟩)⟩, fun m p hm hp => ?_⟩
      have bound := lt_length_of_getElem?_eq_some hp
      rw [List.length_append, List.length_singleton] at bound
      omega

theorem exists_isLeast (h : PutSince cs k n) : ∃ m, IsLeast {n | PutSince cs k n} m := by
  classical
  exact ⟨Nat.find ⟨n, h⟩, Nat.isLeast_find ⟨n, h⟩⟩

theorem exists_isGreatest (h : PutSince cs k n) : ∃ m, IsGreatest {n | PutSince cs k n} m :=
  BddAbove.exists_isGreatest_of_nonempty ⟨cs.length, fun _ hm => Nat.le_of_lt hm.lt_length⟩ ⟨n, h⟩

theorem isLeast_concat (h : IsLeast {n | PutSince cs k n} n)
    (kept : ∀ p, c = .drop p → p k = false) : IsLeast {n | PutSince (cs ++ [c]) k n} n := by
  refine ⟨concat_iff.2 (.inl ⟨h.1, kept⟩), ?_⟩
  intro m hm
  rcases concat_iff.1 hm with ⟨hm, -⟩ | ⟨rfl, -⟩
  · exact h.2 hm
  · exact Nat.le_of_lt h.1.lt_length

end PutSince

variable [BEq K]

def Change.apply (l : List (K × V)) : Change K V → List (K × V)
  | put k v => set l k v
  | amend k f => modify l k f
  | drop p => l.filter fun e => !p e.1

/-- The listing that the changes make of the empty one. -/
def after (cs : List (Change K V)) : List (K × V) := cs.foldl Change.apply []

theorem after_concat (cs : List (Change K V)) (c : Change K V) :
    after (cs ++ [c]) = c.apply (after cs) := by
  rw [after, List.foldl_append]
  rfl

def Change.amended (k : K) (v : V) : Change K V → V
  | amend a f => if a == k then f v else v
  | _ => v

/-- The latest put of the key, amended by what stands behind it, gives the value. -/
def Holds (cs : List (Change K V)) (k : K) (v : V) : Prop :=
  ∃ n u, IsGreatest {n | PutSince cs k n} n ∧ cs[n]? = some (.put k u) ∧
    (cs.drop (n + 1)).foldl (Change.amended k) u = v

section Holds

variable {cs : List (Change K V)} {c : Change K V} {k : K} {v w : V}

theorem Holds.unique (hv : Holds cs k v) (hw : Holds cs k w) : v = w := by
  obtain ⟨n, u, greatest, hu, rfl⟩ := hv
  obtain ⟨m, u', greatest', hu', rfl⟩ := hw
  cases greatest.unique greatest'
  rw [hu] at hu'
  cases hu'
  rfl

theorem holds_concat_put : Holds (cs ++ [.put k v]) k v := by
  have here : (cs ++ [Change.put k v])[cs.length]? = some (.put k v) := List.getElem?_concat_length
  refine ⟨cs.length, v, ⟨PutSince.concat_iff.2 (.inr ⟨rfl, v, rfl⟩), ?_⟩, here, ?_⟩
  · intro m hm
    rcases PutSince.concat_iff.1 hm with ⟨hm, -⟩ | ⟨rfl, -⟩
    · exact Nat.le_of_lt hm.lt_length
    · exact Nat.le_refl _
  · rw [List.drop_of_length_le (by simp)]
    rfl

theorem holds_concat_iff (other : ∀ u, c ≠ .put k u) : Holds (cs ++ [c]) k w ↔
    (∀ p, c = .drop p → p k = false) ∧ ∃ v, Holds cs k v ∧ c.amended k v = w := by
  have since : ∀ n, PutSince (cs ++ [c]) k n ↔
      PutSince cs k n ∧ ∀ p, c = .drop p → p k = false := by
    intro n
    rw [PutSince.concat_iff, or_iff_left]
    rintro ⟨-, u, hu⟩
    exact other u hu
  constructor
  · rintro ⟨n, u, greatest, hu, rfl⟩
    obtain ⟨earlier, kept⟩ := (since n).1 greatest.1
    have bound := earlier.lt_length
    rw [List.getElem?_append_left bound] at hu
    refine ⟨kept, _, ⟨n, u, ⟨earlier, ?_⟩, hu, rfl⟩, ?_⟩
    · intro m hm
      exact greatest.2 ((since m).2 ⟨hm, kept⟩)
    · rw [List.drop_append_of_le_length bound, List.foldl_append]
      rfl
  · rintro ⟨kept, v, ⟨n, u, greatest, hu, rfl⟩, rfl⟩
    have bound := greatest.1.lt_length
    refine ⟨n, u, ⟨(since n).2 ⟨greatest.1, kept⟩, ?_⟩, ?_, ?_⟩
    · intro m hm
      exact greatest.2 ((since m).1 hm).1
    · rwa [List.getElem?_append_left bound]
    · rw [List.drop_append_of_le_length bound, List.foldl_append]
      rfl

end Holds

variable [LawfulBEq K]

theorem mem_after_iff (cs : List (Change K V)) (k : K) (v : V) :
    (k, v) ∈ after cs ↔ Holds cs k v := by
  induction cs using List.reverseRecOn generalizing v with
  | nil =>
    refine iff_of_false List.not_mem_nil ?_
    rintro ⟨n, u, -, hu, -⟩
    cases hu
  | append_singleton cs c ih =>
    rw [after_concat]
    cases c with
    | put a u =>
      rw [Change.apply, mem_set]
      by_cases hk : k = a
      · subst hk
        simp only [ne_eq, not_true_eq_false, false_and, true_and, false_or]
        exact ⟨fun h => h ▸ holds_concat_put, fun h => holds_concat_put.unique h⟩
      · rw [holds_concat_iff (by rintro w ⟨⟩; exact hk rfl)]
        simp [hk, ih, Change.amended]
    | amend a f =>
      rw [Change.apply, mem_modify, holds_concat_iff (by rintro w ⟨⟩)]
      by_cases hk : k = a
      · subst hk
        simp [ih, Change.amended]
      · simp [hk, Ne.symm hk, ih, Change.amended]
    | drop p =>
      rw [Change.apply, List.mem_filter, holds_concat_iff (by rintro w ⟨⟩)]
      simp [ih, Change.amended, and_comm]

/-- A key is listed when it has been put since it was last dropped. -/
theorem mem_keys_after_iff (cs : List (Change K V)) (k : K) :
    k ∈ keys (after cs) ↔ ∃ n, PutSince cs k n := by
  rw [mem_keys_iff]
  constructor
  · rintro ⟨v, hv⟩
    obtain ⟨n, u, greatest, -⟩ := (mem_after_iff cs k v).1 hv
    exact ⟨n, greatest.1⟩
  · rintro ⟨n, hn⟩
    obtain ⟨m, greatest⟩ := hn.exists_isGreatest
    obtain ⟨u, hu⟩ := greatest.1.1
    exact ⟨_, (mem_after_iff cs k _).2 ⟨m, u, greatest, hu, rfl⟩⟩

/-- Listed keys stand in the order of their earliest puts. -/
theorem pairwise_keys_after (cs : List (Change K V)) :
    (keys (after cs)).Pairwise fun a b =>
      ∃ m n, IsLeast {n | PutSince cs a n} m ∧ IsLeast {n | PutSince cs b n} n ∧ m < n := by
  induction cs using List.reverseRecOn with
  | nil => exact .nil
  | append_singleton cs c ih =>
    have stays : (keys (after cs)).Pairwise fun a b =>
        (∀ p, c = .drop p → p a = false) → (∀ p, c = .drop p → p b = false) →
        ∃ m n, IsLeast {n | PutSince (cs ++ [c]) a n} m ∧
          IsLeast {n | PutSince (cs ++ [c]) b n} n ∧ m < n := by
      refine ih.imp ?_
      rintro a b ⟨m, n, hm, hn, lt⟩ keptA keptB
      exact ⟨m, n, PutSince.isLeast_concat hm keptA, PutSince.isLeast_concat hn keptB, lt⟩
    rw [after_concat]
    cases c with
    | put k v =>
      replace stays := stays.imp fun h => h (by rintro p ⟨⟩) (by rintro p ⟨⟩)
      rw [Change.apply, keys_set]
      split
      · exact stays
      · rename_i unknown
        rw [contains_iff_mem_keys, mem_keys_after_iff] at unknown
        refine List.pairwise_append.2 ⟨stays, List.pairwise_singleton .., ?_⟩
        intro a ha b hb
        cases List.mem_singleton.1 hb
        obtain ⟨n, hn⟩ := (mem_keys_after_iff cs a).1 ha
        obtain ⟨m, least⟩ := hn.exists_isLeast
        refine ⟨m, cs.length, PutSince.isLeast_concat least (by rintro p ⟨⟩), ⟨?_, ?_⟩,
          least.1.lt_length⟩
        · exact PutSince.concat_iff.2 (.inr ⟨rfl, v, rfl⟩)
        · intro n hn
          rcases PutSince.concat_iff.1 hn with ⟨hn, -⟩ | ⟨rfl, -⟩
          · exact absurd ⟨n, hn⟩ unknown
          · exact Nat.le_refl _
    | amend k f =>
      rw [Change.apply, keys_modify]
      exact stays.imp fun h => h (by rintro p ⟨⟩) (by rintro p ⟨⟩)
    | drop p =>
      have keys_filter : keys (Change.apply (after cs) (.drop p)) =
          (keys (after cs)).filter fun k => !p k := by
        simp [keys, Change.apply, List.filter_map, Function.comp_def]
      rw [keys_filter]
      apply (stays.filter _).imp_of_mem
      intro a b ha hb h
      have survives : ∀ a ∈ (keys (after cs)).filter fun k => !p k,
          ∀ q, Change.drop (V := V) p = .drop q → q a = false := by
        rintro a ha q ⟨⟩
        simpa using (List.mem_filter.1 ha).2
      exact h (survives _ ha) (survives _ hb)

/-- The values of a listing whose values tell their keys. -/
structure Values (cs : List (Change K V)) (key : V → K) (l : List V) : Prop where
  after_eq : after cs = l.map fun v => (key v, v)
  mem_iff : ∀ v, v ∈ l ↔ Holds cs (key v) v
  listed_iff : ∀ k, (∃ v ∈ l, key v = k) ↔ ∃ n, PutSince cs k n
  nodup : (l.map key).Nodup
  ordered : l.Pairwise fun v w => ∃ m n, IsLeast {n | PutSince cs (key v) n} m ∧
    IsLeast {n | PutSince cs (key w) n} n ∧ m < n

theorem exists_values {cs : List (Change K V)} {key : V → K}
    (owns : ∀ k v, Holds cs k v → key v = k) : ∃ l, Values cs key l := by
  have eq : after cs = ((after cs).map (·.2)).map fun v => (key v, v) := by
    rw [List.map_map]
    refine (List.map_id _).symm.trans (List.map_congr_left ?_)
    intro e he
    exact Prod.ext (owns _ _ ((mem_after_iff cs _ _).1 he)).symm rfl
  generalize (after cs).map (·.2) = l at eq
  have keys_eq : keys (after cs) = l.map key := by
    rw [eq, keys, List.map_map]
    rfl
  have ordered := pairwise_keys_after cs
  rw [keys_eq, List.pairwise_map] at ordered
  refine ⟨l, eq, ?_, ?_, List.pairwise_map.2 (ordered.imp ?_), ordered⟩
  · intro v
    rw [← mem_after_iff, eq, List.mem_map]
    constructor
    · intro hv
      exact ⟨v, hv, rfl⟩
    · rintro ⟨w, hw, same⟩
      cases (Prod.mk.inj same).2
      exact hw
  · intro k
    rw [← mem_keys_after_iff, keys_eq, List.mem_map]
  · rintro v w ⟨m, n, hm, hn, lt⟩ same
    rw [same] at hm
    exact Nat.ne_of_lt lt (hm.unique hn)

omit [LawfulBEq K] in
theorem Values.filter_eq_singleton {cs : List (Change K V)} {key : V → K} {l : List V}
    (h : Values cs key l) {v : V} (hv : v ∈ l) {p : V → Bool}
    (picks : ∀ w, p w = true ↔ key w = key v) : l.filter p = [v] := by
  have nodup := h.nodup
  obtain ⟨xs, ys, rfl⟩ := List.append_of_mem hv
  rw [List.map_append, List.map_cons, List.perm_middle.nodup_iff, List.nodup_cons,
    ← List.map_append] at nodup
  have others : (xs ++ ys).filter p = [] := by
    refine List.filter_eq_nil_iff.2 fun w hw picked => nodup.1 ?_
    rw [← (picks w).1 picked]
    exact List.mem_map_of_mem hw
  rw [List.filter_append, List.append_eq_nil_iff] at others
  rw [List.filter_append, List.filter_cons_of_pos ((picks v).2 rfl), others.1, others.2]
  rfl

end BrokerAdmin.Listing
