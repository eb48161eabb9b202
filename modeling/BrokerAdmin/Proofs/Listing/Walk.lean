import BrokerAdmin.Proofs.Listing.History
import Mathlib.Data.List.Nodup

set_option autoImplicit false

/-!
Keys read page after page while their list changes. A change takes some keys out, so that those
behind them move up, and brings new ones in behind all others; no key ever moves back. A reader who
goes on by one page after each reading therefore meets no key twice, and as long as no key is taken
out, those of the first reading keep their places and are all met.
-/

namespace BrokerAdmin.Listing

variable {K V : Type}

/-- Some keys go, the others stay in order, and behind them come keys that were not there. -/
def Advances (l m : List K) : Prop :=
  ∃ (p : K → Bool) (new : List K), m = l.filter p ++ new ∧ ∀ k ∈ new, k ∉ l

theorem idxOf_filter_le [DecidableEq K] (l : List K) {p : K → Bool} {k : K} (hk : p k = true) :
    (l.filter p).idxOf k ≤ l.idxOf k := by
  induction l with
  | nil => exact Nat.le_refl _
  | cons a l ih =>
    by_cases same : a = k
    · subst same
      rw [List.filter_cons_of_pos hk, List.idxOf_cons_self]
      exact Nat.zero_le _
    · rw [List.idxOf_cons_ne _ same]
      cases ha : p a with
      | true =>
        rw [List.filter_cons_of_pos ha, List.idxOf_cons_ne _ same]
        exact Nat.succ_le_succ ih
      | false =>
        rw [List.filter_cons_of_neg (by simp [ha])]
        exact Nat.le_succ_of_le ih

namespace Advances

variable {l m : List K} {k : K}

theorem refl (l : List K) : Advances l l :=
  ⟨fun _ => true, [], by rw [List.filter_true, List.append_nil], by simp⟩

theorem idxOf_le [DecidableEq K] (h : Advances l m) (hl : k ∈ l) (hm : k ∈ m) :
    m.idxOf k ≤ l.idxOf k := by
  obtain ⟨p, new, rfl, fresh⟩ := h
  have kept : k ∈ l.filter p :=
    (List.mem_append.1 hm).resolve_right fun hk => fresh k hk hl
  rw [List.idxOf_append_of_mem kept]
  exact idxOf_filter_le l (List.mem_filter.1 kept).2

theorem isPrefix (h : Advances l m) (kept : ∀ k ∈ l, k ∈ m) : l <+: m := by
  obtain ⟨p, new, rfl, fresh⟩ := h
  have all : l.filter p = l := by
    refine List.filter_eq_self.2 fun k hk => ?_
    have stays := (List.mem_append.1 (kept k hk)).resolve_right fun hn => fresh k hn hk
    exact (List.mem_filter.1 stays).2
  rw [all]
  exact List.prefix_append l new

end Advances

section Changes

variable [DecidableEq K] {cs new : List (Change K V)}

theorem advances_put (cs : List (Change K V)) (k : K) (v : V) :
    Advances (keys (after cs)) (keys (after (cs ++ [.put k v]))) := by
  rw [after_concat, Change.apply, keys_set]
  have all : (keys (after cs)).filter (fun _ => true) = keys (after cs) := List.filter_true _
  split
  · exact ⟨fun _ => true, [], by rw [all, List.append_nil], by simp⟩
  · rename_i unknown
    refine ⟨fun _ => true, [k], by rw [all], fun a ha => ?_⟩
    rw [List.mem_singleton.1 ha, ← contains_iff_mem_keys]
    exact unknown

theorem keys_after_append (puts : ∀ c ∈ new, ∀ k v, c ≠ .put k v) :
    ∃ p, keys (after (cs ++ new)) = (keys (after cs)).filter p := by
  induction new using List.reverseRecOn with
  | nil => exact ⟨fun _ => true, by rw [List.append_nil, List.filter_true]⟩
  | append_singleton new c ih =>
    obtain ⟨p, earlier⟩ := ih fun a ha => puts a (List.mem_append_left _ ha)
    rw [← List.append_assoc, after_concat]
    cases c with
    | put k v => exact absurd rfl (puts (.put k v) (by simp) k v)
    | amend k f => exact ⟨p, by rw [Change.apply, keys_modify, earlier]⟩
    | drop q =>
      refine ⟨fun k => !q k && p k, ?_⟩
      rw [← List.filter_filter, ← earlier]
      simp [keys, Change.apply, List.filter_map, Function.comp_def]

theorem advances_of_no_put (puts : ∀ c ∈ new, ∀ k v, c ≠ .put k v) :
    Advances (keys (after cs)) (keys (after (cs ++ new))) := by
  obtain ⟨p, eq⟩ := keys_after_append puts
  exact ⟨p, [], by rw [eq, List.append_nil], by simp⟩

theorem nodup_keys_after (cs : List (Change K V)) : (keys (after cs)).Nodup :=
  (pairwise_keys_after cs).imp fun {a b} ⟨m, n, hm, hn, lt⟩ same => by
    subst same
    exact Nat.ne_of_lt lt (hm.unique hn)

end Changes

/-- What pages `1` to `k` of size `s` show together, if page `i + 1` is read at time `t i`. -/
def pagesRead (L : Nat → List K) (t : Nat → Nat) (s k : Nat) : List K :=
  (List.range k).flatMap fun i => ((L (t i)).drop (i * s)).take s

theorem idxOf_of_mem_page [DecidableEq K] {l : List K} (nodup : l.Nodup) {k : K} {m s : Nat}
    (h : k ∈ (l.drop m).take s) : k ∈ l ∧ m ≤ l.idxOf k ∧ l.idxOf k < m + s := by
  obtain ⟨i, inside, rfl⟩ := List.mem_take_iff_getElem.1 h
  rw [List.length_drop] at inside
  rw [List.getElem_drop, nodup.idxOf_getElem]
  exact ⟨List.getElem_mem _, by omega, by omega⟩

section Reading

variable {L : Nat → List K} {t : Nat → Nat}

theorem idxOf_le_of_advances [DecidableEq K] (advances : ∀ n, Advances (L n) (L (n + 1)))
    {k : K} {m n : Nat} (le : m ≤ n) (listed : ∀ i, m ≤ i → i ≤ n → k ∈ L i) :
    (L n).idxOf k ≤ (L m).idxOf k := by
  induction n, le using Nat.le_induction with
  | base => exact Nat.le_refl _
  | succ n le ih =>
    have before : k ∈ L n := listed n le (Nat.le_succ n)
    have now : k ∈ L (n + 1) := listed (n + 1) (Nat.le_succ_of_le le) (Nat.le_refl _)
    have earlier := ih fun i hm hn => listed i hm (Nat.le_succ_of_le hn)
    exact Nat.le_trans ((advances n).idxOf_le before now) earlier

/-- If no key that is taken out comes back, the pages show no key twice. -/
theorem nodup_pagesRead [DecidableEq K] (nodup : ∀ n, (L n).Nodup)
    (advances : ∀ n, Advances (L n) (L (n + 1)))
    (gone : ∀ k m n, m < n → k ∈ L m → k ∉ L (m + 1) → k ∉ L n) (mono : Monotone t) (s k : Nat) :
    (pagesRead L t s k).Nodup := by
  refine List.nodup_flatMap.2 ⟨fun i _ => ?_, ?_⟩
  · exact (nodup _).sublist ((List.take_sublist ..).trans (List.drop_sublist ..))
  refine List.pairwise_lt_range.imp fun {i j} lt a first second => ?_
  obtain ⟨listed, -, before⟩ := idxOf_of_mem_page (nodup _) first
  obtain ⟨again, behind, -⟩ := idxOf_of_mem_page (nodup _) second
  have between : ∀ n, t i ≤ n → n ≤ t j → a ∈ L n := by
    intro n le
    induction n, le using Nat.le_induction with
    | base => exact fun _ => listed
    | succ n le ih =>
      intro upto
      by_contra out
      exact gone a n (t j) upto (ih (Nat.le_of_succ_le upto)) out again
  have moved := idxOf_le_of_advances advances (mono (Nat.le_of_lt lt)) between
  have further : (i + 1) * s ≤ j * s := Nat.mul_le_mul_right s lt
  rw [Nat.succ_mul] at further
  omega

theorem isPrefix_of_advances (advances : ∀ n, Advances (L n) (L (n + 1)))
    (kept : ∀ k n, k ∈ L n → k ∈ L (n + 1)) {m n : Nat} (le : m ≤ n) : L m <+: L n := by
  induction n, le using Nat.le_induction with
  | base => exact List.prefix_rfl
  | succ n le ih => exact ih.trans ((advances n).isPrefix fun k => kept k n)

/-- Pages that end inside a list that only grows show that part of it. -/
theorem pagesRead_eq_take {l : List K} (prefixes : ∀ n, l <+: L n) {s k : Nat}
    (le : k * s ≤ l.length) : pagesRead L t s k = l.take (k * s) := by
  induction k with
  | zero => simp [pagesRead]
  | succ k ih =>
    rw [Nat.succ_mul] at le ⊢
    have earlier := ih (Nat.le_of_add_right_le le)
    rw [pagesRead] at earlier ⊢
    obtain ⟨new, eq⟩ := prefixes (t k)
    rw [List.range_succ, List.flatMap_append, earlier, List.flatMap_singleton, ← eq,
      List.drop_append_of_le_length (Nat.le_of_add_right_le le), List.take_append_of_le_length,
      List.take_add]
    rw [List.length_drop]
    omega

/-- Enough pages of a list that only grows begin with what it was at first. -/
theorem isPrefix_pagesRead {l : List K} (prefixes : ∀ n, l <+: L n) {s k : Nat}
    (le : l.length ≤ k * s) : l <+: pagesRead L t s k := by
  induction k with
  | zero =>
    rw [Nat.zero_mul, Nat.le_zero, List.length_eq_zero_iff] at le
    rw [le]
    exact List.nil_prefix
  | succ k ih =>
    rw [pagesRead, List.range_succ, List.flatMap_append, List.flatMap_singleton]
    rcases Nat.le_total l.length (k * s) with enough | short
    · exact (ih enough).trans (List.prefix_append ..)
    · have earlier := pagesRead_eq_take (t := t) prefixes short
      rw [pagesRead] at earlier
      obtain ⟨new, eq⟩ := prefixes (t k)
      have fits : (l.drop (k * s)).length ≤ s := by
        rw [List.length_drop]
        rw [Nat.succ_mul] at le
        omega
      rw [earlier, ← eq, List.drop_append_of_le_length short, List.take_append,
        List.take_of_length_le fits, ← List.append_assoc, List.take_append_drop]
      exact List.prefix_append ..

end Reading

end BrokerAdmin.Listing
