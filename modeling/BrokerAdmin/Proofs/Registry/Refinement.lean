import BrokerAdmin.Proofs.Listing.Keys
import BrokerAdmin.Proofs.Registry.Links

set_option autoImplicit false

/-!
A registry stands for a listing when its slots are arranged as cells that hold the entries of the
listing in order and its index leads from every key to the slot of that key. Each operation on the
registry then meets no fault and does what the operation of the same name does to the listing.
-/

namespace BrokerAdmin.Registry

def entriesOf {K V : Type} (cells : List (Cell K V)) : List (K × V) :=
  cells.map fun c => (c.key, c.value)

section Entries

variable {K V : Type}

@[simp] theorem entriesOf_nil : entriesOf ([] : List (Cell K V)) = [] := rfl

@[simp] theorem entriesOf_cons (c : Cell K V) (cells : List (Cell K V)) :
    entriesOf (c :: cells) = (c.key, c.value) :: entriesOf cells := rfl

@[simp] theorem entriesOf_append (xs ys : List (Cell K V)) :
    entriesOf (xs ++ ys) = entriesOf xs ++ entriesOf ys := List.map_append

@[simp] theorem length_entriesOf (cells : List (Cell K V)) :
    (entriesOf cells).length = cells.length := List.length_map ..

theorem unknown_entriesOf [BEq K] {cells : List (Cell K V)} {k : K} :
    Listing.Unknown (entriesOf cells) k ↔ ∀ c ∈ cells, (c.key == k) = false := by
  simp [Listing.Unknown, entriesOf]

theorem find?_of_unknown [BEq K] [EquivBEq K] {cells : List (Cell K V)} {k a : K}
    (h : Listing.Unknown (entriesOf cells) k) (ha : (k == a) = true) :
    cells.find? (·.key == a) = none := by
  apply List.find?_eq_none.2
  intro c hc
  rw [← BEq.congr_right ha, unknown_entriesOf.1 h c hc]
  exact Bool.false_ne_true

end Entries

variable {K V : Type} [BEq K] [Hashable K] {r : Registry K V} {cells : List (Cell K V)}
  {vacant : List Nat}

/-- The arrangement of a registry together with its index: no key stands in two cells, and the
index leads from a key to the slot of its cell and knows no other key. -/
structure LaidOut (r : Registry K V) (cells : List (Cell K V)) (vacant : List Nat) : Prop
    extends Arranged r cells vacant where
  distinct : Listing.Distinct (entriesOf cells)
  index : ∀ k, r.index[k]? = (cells.find? (·.key == k)).map Cell.slot

def Represents (r : Registry K V) (l : List (K × V)) : Prop :=
  ∃ cells vacant, LaidOut r cells vacant ∧ entriesOf cells = l

theorem Arranged.withIndex (h : Arranged r cells vacant) (index : Std.HashMap K Nat) :
    Arranged { r with index } cells vacant :=
  ⟨h.first, h.last, h.linked, h.free, h.slots, h.size⟩

namespace LaidOut

theorem empty : LaidOut (∅ : Registry K V) [] [] :=
  { Arranged.empty with
    distinct := .nil
    index := fun _ => Std.HashMap.getElem?_empty }

theorem unknown (h : LaidOut r cells vacant) {k : K} (hk : r.index[k]? = none) :
    Listing.Unknown (entriesOf cells) k := by
  rw [h.index, Option.map_eq_none_iff, List.find?_eq_none] at hk
  exact unknown_entriesOf.2 fun c hc => Bool.not_eq_true _ ▸ hk c hc

theorem replace {xs ys : List (Cell K V)} {c : Cell K V} (h : LaidOut r (xs ++ c :: ys) vacant)
    (f : V → V) :
    ∃ s, r.modifyEntry c.slot (fun e => { e with value := f e.value }) = .ok s ∧
      LaidOut s (xs ++ { c with value := f c.value } :: ys) vacant ∧
      s.slots.size = r.slots.size := by
  obtain ⟨slots, modified, size, arranged⟩ := h.toArranged.modifyEntry f
  refine ⟨{ r with slots }, modified, ⟨arranged, ?_, ?_⟩, size⟩
  · have distinct := h.distinct
    simp only [Listing.Distinct, entriesOf_append, entriesOf_cons, List.pairwise_append,
      List.pairwise_cons, List.forall_mem_cons] at distinct ⊢
    exact distinct
  · intro k
    rw [h.index, List.find?_append, List.find?_append, List.find?_cons, List.find?_cons]
    cases xs.find? (·.key == k) with
    | some d => rfl
    | none => cases hk : c.key == k <;> rfl

variable [EquivBEq K]

theorem known (h : LaidOut r cells vacant) {k : K} {i : Nat} (hk : r.index[k]? = some i) :
    ∃ xs c ys, cells = xs ++ c :: ys ∧ c.slot = i ∧ (c.key == k) = true ∧
      Listing.Unknown (entriesOf xs) k ∧ Listing.Unknown (entriesOf ys) k := by
  rw [h.index, Option.map_eq_some_iff] at hk
  obtain ⟨c, found, hi⟩ := hk
  obtain ⟨hc, xs, ys, rfl, -⟩ := List.find?_eq_some_iff_append.1 found
  have distinct := h.distinct
  rw [entriesOf_append, entriesOf_cons] at distinct
  exact ⟨xs, c, ys, rfl, hi, hc, distinct.unknown_of_append_cons hc⟩

theorem get? (h : LaidOut r cells vacant) (k : K) :
    r.get? k = .ok (Listing.get? (entriesOf cells) k) := by
  cases hk : r.index[k]? with
  | none =>
    rw [Listing.get?_of_unknown (h.unknown hk)]
    simp only [Registry.get?, hk]
  | some i =>
    obtain ⟨xs, c, ys, rfl, rfl, hc, hxs, -⟩ := h.known hk
    have entry := ((linked_append ..).1 h.linked).2.entryIn_head
    rw [entriesOf_append, entriesOf_cons, Listing.get?_append_cons hc hxs]
    simp only [Registry.get?, hk, entry]
    rfl

theorem contains [LawfulHashable K] (h : LaidOut r cells vacant) (k : K) :
    r.contains k = Listing.contains (entriesOf cells) k := by
  rw [Registry.contains, Std.HashMap.contains_eq_isSome_getElem?]
  cases hk : r.index[k]? with
  | none => rw [Listing.contains_of_unknown (h.unknown hk), Option.isSome_none]
  | some i =>
    obtain ⟨xs, c, ys, rfl, rfl, hc, hxs, -⟩ := h.known hk
    rw [entriesOf_append, entriesOf_cons, Listing.contains_append_cons hc hxs, Option.isSome_some]

theorem modify (h : LaidOut r cells vacant) (k : K) (f : V → V) :
    ∃ s cells', r.modify k f = .ok ((Listing.get? (entriesOf cells) k).map f, s) ∧
      LaidOut s cells' vacant ∧ entriesOf cells' = Listing.modify (entriesOf cells) k f ∧
      s.slots.size = r.slots.size := by
  cases hk : r.index[k]? with
  | none =>
    have unknown := h.unknown hk
    refine ⟨r, cells, ?_, h, (Listing.modify_of_unknown unknown f).symm, rfl⟩
    rw [Listing.get?_of_unknown unknown]
    simp only [Registry.modify, hk]
    rfl
  | some i =>
    obtain ⟨xs, c, ys, rfl, rfl, hc, hxs, hys⟩ := h.known hk
    have entry := ((linked_append ..).1 h.linked).2.entryIn_head
    obtain ⟨s, modified, laidOut, size⟩ := h.replace fun _ => f c.value
    refine ⟨s, _, ?_, laidOut, ?_, size⟩
    · rw [entriesOf_append, entriesOf_cons, Listing.get?_append_cons hc hxs]
      simp only [Registry.modify, hk, entry, bind, Except.bind, modified]
      rfl
    · simp only [entriesOf_append, entriesOf_cons]
      rw [Listing.modify_append_cons hc hxs hys]

theorem set [LawfulHashable K] (h : LaidOut r cells vacant) (k : K) (v : V) :
    ∃ s cells' vacant', r.set k v = .ok (Listing.get? (entriesOf cells) k, s) ∧
      LaidOut s cells' vacant' ∧ entriesOf cells' = Listing.set (entriesOf cells) k v ∧
      s.slots.size = max r.slots.size s.size := by
  cases hk : r.index[k]? with
  | none =>
    have unknown := h.unknown hk
    obtain ⟨i, s, rest, inserted, index, arranged, length⟩ := h.toArranged.set_new hk v
    refine ⟨s, cells ++ [⟨i, k, v⟩], rest, ?_, ⟨arranged, ?_, ?_⟩, ?_, ?_⟩
    · rw [inserted, Listing.get?_of_unknown unknown]
    · rw [entriesOf_append]
      refine List.pairwise_append.2 ⟨h.distinct, List.pairwise_singleton .., ?_⟩
      intro e he d hd
      rw [List.mem_singleton.1 hd]
      exact unknown e he
    · intro a
      rw [index, Std.HashMap.getElem?_insert, h.index, List.find?_append, List.find?_singleton]
      by_cases ha : (k == a) = true
      · rw [find?_of_unknown unknown ha, if_pos ha, if_pos ha]
        rfl
      · rw [if_neg ha, if_neg ha, Option.or_none]
    · rw [entriesOf_append, Listing.set_of_unknown unknown]
      rfl
    · rw [arranged.size_slots, h.size_slots, arranged.size, List.length_append,
        List.length_singleton]
      omega
  | some i =>
    obtain ⟨xs, c, ys, rfl, rfl, hc, hxs, hys⟩ := h.known hk
    have entry := ((linked_append ..).1 h.linked).2.entryIn_head
    obtain ⟨s, modified, laidOut, size⟩ := h.replace fun _ => v
    refine ⟨s, _, vacant, ?_, laidOut, ?_, ?_⟩
    · rw [entriesOf_append, entriesOf_cons, Listing.get?_append_cons hc hxs]
      simp only [Registry.set, hk, entry, bind, Except.bind, modified]
      rfl
    · simp only [entriesOf_append, entriesOf_cons]
      rw [Listing.set_append_cons hc hxs hys]
    · have := laidOut.size_slots
      rw [← size, laidOut.size]
      omega

/-- The cells around an entry are laid out once its slot is vacant and its key is forgotten, in
whichever order the two are done. -/
theorem vacate [LawfulHashable K] {xs ys : List (Cell K V)} {c : Cell K V}
    (h : LaidOut r (xs ++ c :: ys) vacant) {k : K} (hk : (c.key == k) = true)
    {s : Registry K V} (arranged : Arranged s (xs ++ ys) (c.slot :: vacant))
    (index : s.index = r.index.erase k) : LaidOut s (xs ++ ys) (c.slot :: vacant) := by
  have distinct := h.distinct
  rw [entriesOf_append, entriesOf_cons] at distinct
  refine ⟨arranged, ?_, ?_⟩
  · rw [entriesOf_append]
    exact distinct.sublist ((List.Sublist.refl _).append (List.sublist_cons_self ..))
  · intro a
    obtain ⟨hxs, hys⟩ := distinct.unknown_of_append_cons hk
    rw [index, Std.HashMap.getElem?_erase, h.index]
    by_cases ha : (k == a) = true
    · have unknown : Listing.Unknown (entriesOf (xs ++ ys)) k := by
        rw [entriesOf_append]
        exact Listing.unknown_append.2 ⟨hxs, hys⟩
      rw [if_pos ha, find?_of_unknown unknown ha]
      rfl
    · have other : (c.key == a) = false := by
        rw [BEq.congr_left hk]
        exact Bool.not_eq_true _ ▸ ha
      rw [if_neg ha, List.find?_append, List.find?_cons, other, List.find?_append]

theorem erase [LawfulHashable K] (h : LaidOut r cells vacant) (k : K) :
    ∃ s cells' vacant', r.erase k = .ok (Listing.get? (entriesOf cells) k, s) ∧
      LaidOut s cells' vacant' ∧ entriesOf cells' = Listing.erase (entriesOf cells) k ∧
      s.slots.size = r.slots.size := by
  cases hk : r.index[k]? with
  | none =>
    have unknown := h.unknown hk
    refine ⟨r, cells, vacant, ?_, h, (Listing.erase_of_unknown unknown).symm, rfl⟩
    rw [Listing.get?_of_unknown unknown]
    simp only [Registry.erase, hk]
  | some i =>
    obtain ⟨xs, c, ys, rfl, rfl, hc, hxs, hys⟩ := h.known hk
    obtain ⟨s, detached, index, arranged⟩ := (h.withIndex (r.index.erase k)).detach
    refine ⟨s, xs ++ ys, c.slot :: vacant, ?_, h.vacate hc arranged index, ?_, ?_⟩
    · rw [entriesOf_append, entriesOf_cons, Listing.get?_append_cons hc hxs]
      simp only [Registry.erase, hk, bind, Except.bind, detached]
      rfl
    · rw [entriesOf_append, entriesOf_append, entriesOf_cons, Listing.erase_append_cons hc hxs hys]
    · rw [arranged.size_slots, h.size_slots]
      simp only [List.length_append, List.length_cons]
      omega

end LaidOut

namespace Represents

variable {l : List (K × V)}

theorem empty : (∅ : Registry K V).Represents [] := ⟨[], [], LaidOut.empty, rfl⟩

theorem distinct (h : r.Represents l) : Listing.Distinct l := by
  obtain ⟨cells, vacant, laidOut, rfl⟩ := h
  exact laidOut.distinct

theorem size (h : r.Represents l) : r.size = l.length := by
  obtain ⟨cells, vacant, laidOut, rfl⟩ := h
  rw [laidOut.size, length_entriesOf]

theorem isEmpty (h : r.Represents l) : r.isEmpty = l.isEmpty := by
  rw [Registry.isEmpty, h.size]
  cases l <;> rfl

variable [EquivBEq K]

theorem get? (h : r.Represents l) (k : K) : r.get? k = .ok (Listing.get? l k) := by
  obtain ⟨cells, vacant, laidOut, rfl⟩ := h
  exact laidOut.get? k

theorem modify (h : r.Represents l) (k : K) (f : V → V) :
    ∃ s, r.modify k f = .ok ((Listing.get? l k).map f, s) ∧
      s.Represents (Listing.modify l k f) := by
  obtain ⟨cells, vacant, laidOut, rfl⟩ := h
  obtain ⟨s, cells', modified, after, entries, -⟩ := laidOut.modify k f
  exact ⟨s, modified, cells', vacant, after, entries⟩

variable [LawfulHashable K]

theorem contains (h : r.Represents l) (k : K) : r.contains k = Listing.contains l k := by
  obtain ⟨cells, vacant, laidOut, rfl⟩ := h
  exact laidOut.contains k

theorem set (h : r.Represents l) (k : K) (v : V) :
    ∃ s, r.set k v = .ok (Listing.get? l k, s) ∧ s.Represents (Listing.set l k v) := by
  obtain ⟨cells, vacant, laidOut, rfl⟩ := h
  obtain ⟨s, cells', vacant', done, after, entries, -⟩ := laidOut.set k v
  exact ⟨s, done, cells', vacant', after, entries⟩

theorem erase (h : r.Represents l) (k : K) :
    ∃ s, r.erase k = .ok (Listing.get? l k, s) ∧ s.Represents (Listing.erase l k) := by
  obtain ⟨cells, vacant, laidOut, rfl⟩ := h
  obtain ⟨s, cells', vacant', done, after, entries, -⟩ := laidOut.erase k
  exact ⟨s, done, cells', vacant', after, entries⟩

theorem index_of_unknown (h : r.Represents l) {k : K} (unknown : Listing.contains l k = false) :
    r.index[k]? = none := by
  rw [← h.contains, Registry.contains, Std.HashMap.contains_eq_isSome_getElem?] at unknown
  apply Option.isNone_iff_eq_none.1
  simpa using unknown

theorem modify_of_unknown (h : r.Represents l) {k : K} (unknown : Listing.contains l k = false)
    (f : V → V) : r.modify k f = .ok (none, r) := by
  simp only [Registry.modify, h.index_of_unknown unknown]

end Represents

section Erasing

variable {k : K}

theorem map_erase {i : Nat} (hk : r.index[k]? = some i) :
    (r.erase k).map (·.2) = (detach { r with index := r.index.erase k } i).map (·.2) := by
  simp only [Registry.erase, hk]
  cases detach { r with index := r.index.erase k } i <;> rfl

/-- Which value a slot gives up makes no difference to what is left. -/
theorem map_detach_of_value {i : Nat} {e : Entry K V} (entry : r.slots[i]? = some (.occupied e))
    (v : V) : (detach { r with
      slots := r.slots.setIfInBounds i (.occupied { e with value := v }) } i).map (·.2) =
        (r.detach i).map (·.2) := by
  have changed := getElem?_setIfInBounds_eq entry (.occupied { e with value := v })
  simp only [detach, entryIn_eq_ok entry, entryIn_eq_ok changed, bind, Except.bind,
    Array.setIfInBounds_setIfInBounds]
  generalize linkForward (K := K) (V := V) _ e.before e.after = forward
  cases forward with
  | error fault => rfl
  | ok r₁ =>
    dsimp only
    generalize r₁.linkBackward e.after e.before = backward
    cases backward with
    | error fault => rfl
    | ok r₂ =>
      dsimp only
      cases r₂.size <;> rfl

/-- Changing the value of a key makes no difference to what is left once the key is erased. -/
theorem map_erase_of_modify {f : V → V} {new : Option V} {s : Registry K V}
    (done : r.modify k f = .ok (new, s)) : (s.erase k).map (·.2) = (r.erase k).map (·.2) := by
  unfold Registry.modify at done
  cases hk : r.index[k]? with
  | none =>
    rw [hk] at done
    cases done
    rfl
  | some i =>
    rw [hk] at done
    cases entry : r.slots[i]? with
    | none => simp [entryIn, entry, bind, Except.bind] at done
    | some slot =>
      cases slot with
      | vacant next => simp [entryIn, entry, bind, Except.bind] at done
      | occupied e =>
        simp only [entryIn_eq_ok entry, modifyEntry_eq_ok entry, bind, Except.bind] at done
        cases done
        have detached := map_detach_of_value (r := { r with index := r.index.erase k }) entry
          (f e.value)
        refine (map_erase ?_).trans (detached.trans (map_erase hk).symm)
        exact hk

end Erasing

end BrokerAdmin.Registry
