import BrokerAdmin.Registry.Listing

set_option autoImplicit false

/-!
Listings at one key. A key is either unknown to a listing, which then has nothing to change, or
the listing falls into the entry of that key and entries of other keys around it. Keys need only
be compared by an equivalence, so "no key twice" speaks of that comparison.
-/

namespace BrokerAdmin.Listing

variable {K V : Type} [BEq K]

def Distinct (l : List (K × V)) : Prop := l.Pairwise fun a b => (a.1 == b.1) = false

def Unknown (l : List (K × V)) (k : K) : Prop := ∀ e ∈ l, (e.1 == k) = false

theorem unknown_append {xs ys : List (K × V)} {k : K} :
    Unknown (xs ++ ys) k ↔ Unknown xs k ∧ Unknown ys k := List.forall_mem_append

theorem modify_of_unknown {l : List (K × V)} {k : K} (h : Unknown l k) (f : V → V) :
    modify l k f = l := by
  refine (List.map_congr_left ?_).trans l.map_id
  intro e he
  simp [h e he]

theorem erase_of_unknown {l : List (K × V)} {k : K} (h : Unknown l k) : erase l k = l := by
  apply List.filter_eq_self.2
  intro e he
  simp [h e he]

theorem modify_append_cons {xs ys : List (K × V)} {e : K × V} {k : K} (hk : (e.1 == k) = true)
    (hxs : Unknown xs k) (hys : Unknown ys k) (f : V → V) :
    modify (xs ++ e :: ys) k f = xs ++ (e.1, f e.2) :: ys := by
  have front : modify xs k f = xs := modify_of_unknown hxs f
  have behind : modify ys k f = ys := modify_of_unknown hys f
  unfold modify at *
  rw [List.map_append, List.map_cons, front, behind, if_pos hk]

theorem erase_append_cons {xs ys : List (K × V)} {e : K × V} {k : K} (hk : (e.1 == k) = true)
    (hxs : Unknown xs k) (hys : Unknown ys k) : erase (xs ++ e :: ys) k = xs ++ ys := by
  have front : erase xs k = xs := erase_of_unknown hxs
  have behind : erase ys k = ys := erase_of_unknown hys
  unfold erase at *
  rw [List.filter_append, List.filter_cons_of_neg (by simp [hk]), front, behind]

theorem erase_modify (l : List (K × V)) (k : K) (f : V → V) :
    erase (modify l k f) k = erase l k := by
  induction l with
  | nil => rfl
  | cons e l ih =>
    unfold erase modify at ih ⊢
    rw [List.map_cons, List.filter_cons, List.filter_cons, ih]
    by_cases own : (e.1 == k) = true
    · simp [own]
    · simp [own]

theorem erase_map (key : V → K) (l : List V) (k : K) :
    erase (l.map fun v => (key v, v)) k =
      (l.filter fun v => !(key v == k)).map fun v => (key v, v) := by
  rw [erase, List.filter_map]
  rfl

theorem modify_map {key : V → K} {f : V → V} (kept : ∀ v, key (f v) = key v) (l : List V) (k : K) :
    modify (l.map fun v => (key v, v)) k f =
      (l.map fun v => if key v == k then f v else v).map fun v => (key v, v) := by
  rw [modify, List.map_map, List.map_map]
  apply List.map_congr_left
  intro v _
  by_cases own : (key v == k) = true
  · simp [own, kept]
  · simp [own]

theorem length_modify (l : List (K × V)) (k : K) (f : V → V) : (modify l k f).length = l.length :=
  List.length_map _

theorem length_set (l : List (K × V)) (k : K) (v : V) :
    (set l k v).length = l.length + if contains l k then 0 else 1 := by
  unfold set
  split
  · rw [length_modify, Nat.add_zero]
  · rw [List.length_append, List.length_singleton]

section Equivalence

variable [EquivBEq K]

theorem get?_of_unknown {l : List (K × V)} {k : K} (h : Unknown l k) : get? l k = none := by
  apply List.lookup_eq_none_iff.2
  intro e he
  rw [bne, BEq.comm, h e he]
  rfl

theorem get?_map (key : V → K) (l : List V) (k : K) :
    get? (l.map fun v => (key v, v)) k = l.find? fun v => key v == k := by
  induction l with
  | nil => rfl
  | cons v l ih =>
    rw [get?] at ih ⊢
    rw [List.map_cons, List.lookup_cons, List.find?_cons, ih, BEq.comm]

theorem get?_append_cons {xs ys : List (K × V)} {e : K × V} {k : K} (hk : (e.1 == k) = true)
    (hxs : Unknown xs k) : get? (xs ++ e :: ys) k = some e.2 := by
  have front : xs.lookup k = none := get?_of_unknown hxs
  rw [get?, List.lookup_append, front, Option.none_or, List.lookup_cons, BEq.comm, hk]

theorem contains_of_unknown {l : List (K × V)} {k : K} (h : Unknown l k) :
    contains l k = false := by
  rw [contains, get?_of_unknown h]
  rfl

theorem contains_eq_false_iff {l : List (K × V)} {k : K} :
    contains l k = false ↔ Unknown l k := by
  refine ⟨fun missing e he => ?_, contains_of_unknown⟩
  rw [contains, get?, Option.isSome_eq_false_iff, Option.isNone_iff_eq_none,
    List.lookup_eq_none_iff] at missing
  have other := missing e he
  rwa [bne, Bool.not_eq_true', BEq.comm] at other

theorem contains_erase_self (l : List (K × V)) (k : K) : contains (erase l k) k = false := by
  apply contains_of_unknown
  intro e he
  simpa using (List.mem_filter.1 he).2

theorem contains_append_cons {xs ys : List (K × V)} {e : K × V} {k : K}
    (hk : (e.1 == k) = true) (hxs : Unknown xs k) : contains (xs ++ e :: ys) k = true := by
  rw [contains, get?_append_cons hk hxs]
  rfl

theorem set_of_unknown {l : List (K × V)} {k : K} (h : Unknown l k) (v : V) :
    set l k v = l ++ [(k, v)] := by
  rw [set, contains_of_unknown h]
  rfl

theorem set_append_cons {xs ys : List (K × V)} {e : K × V} {k : K} (hk : (e.1 == k) = true)
    (hxs : Unknown xs k) (hys : Unknown ys k) (v : V) :
    set (xs ++ e :: ys) k v = xs ++ (e.1, v) :: ys := by
  rw [set, contains_append_cons hk hxs, if_pos rfl, modify_append_cons hk hxs hys]

theorem Distinct.unknown_of_append_cons {xs ys : List (K × V)} {e : K × V}
    (h : Distinct (xs ++ e :: ys)) {k : K} (hk : (e.1 == k) = true) :
    Unknown xs k ∧ Unknown ys k := by
  obtain ⟨-, hcons, hcross⟩ := List.pairwise_append.1 h
  have hys := (List.pairwise_cons.1 hcons).1
  constructor
  · intro d hd
    rw [← BEq.congr_right hk]
    exact hcross d hd e (by simp)
  · intro d hd
    rw [← BEq.congr_right hk]
    exact BEq.symm_false (hys d hd)

end Equivalence

end BrokerAdmin.Listing
