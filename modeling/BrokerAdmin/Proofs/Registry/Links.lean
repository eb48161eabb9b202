import BrokerAdmin.Proofs.Registry.Layout
import Mathlib.Data.List.Nodup

set_option autoImplicit false

/-!
What the operations on links and slots do to the arrangement of a registry: an entry is changed in
place, put at the end, or taken out from between its neighbours. The index plays no part here.
-/

namespace BrokerAdmin.Registry

variable {K V : Type}

theorem getElem?_setIfInBounds_eq {slots : Array (Slot K V)} {i : Nat} {s : Slot K V}
    (h : slots[i]? = some s) (t : Slot K V) : (slots.setIfInBounds i t)[i]? = some t := by
  have bound : i < slots.size := (Array.getElem?_eq_some_iff.1 h).1
  simp [bound]

theorem getElem?_setIfInBounds_of_notMem {slots : Array (Slot K V)} {t : Slot K V}
    {part : List Nat} {i : Nat} (hi : i ∉ part) :
    ∀ j ∈ part, (slots.setIfInBounds i t)[j]? = slots[j]? := by
  intro j hj
  refine Array.getElem?_setIfInBounds_ne ?_
  rintro rfl
  exact hi hj

variable [BEq K] [Hashable K] {r : Registry K V} {cells xs ys : List (Cell K V)}
  {c : Cell K V} {vacant : List Nat}

theorem modifyEntry_eq_ok {i : Nat} {e : Entry K V} (h : r.slots[i]? = some (.occupied e))
    (f : Entry K V → Entry K V) :
    r.modifyEntry i f = .ok { r with slots := r.slots.setIfInBounds i (.occupied (f e)) } := by
  simp only [modifyEntry, entryIn_eq_ok h]
  rfl

/-- Only the last of the cells in front is written, or the beginning of the order if there are
none. -/
theorem linkForward_of_linked {after : Option Nat} (linked : Linked r.slots none xs after)
    (first : r.first = firstSlot xs after) (nodup : (slotsOf xs).Nodup) (target : Option Nat) :
    ∃ slots, r.linkForward (lastSlot none xs) target =
        .ok { r with slots, first := firstSlot xs target } ∧
      Linked slots none xs target ∧ slots.size = r.slots.size ∧
      ∀ i ∉ slotsOf xs, slots[i]? = r.slots[i]? := by
  rcases List.eq_nil_or_concat xs with rfl | ⟨front, c, rfl⟩
  · exact ⟨r.slots, rfl, trivial, rfl, fun _ _ => rfl⟩
  · rw [List.concat_eq_append] at *
    obtain ⟨hfront, hc, -⟩ := (linked_append ..).1 linked
    have apart : c.slot ∉ slotsOf front := by
      intro hmem
      rw [slotsOf_append] at nodup
      exact (List.nodup_append.1 nodup).2.2 _ hmem _ (by simp) rfl
    refine ⟨r.slots.setIfInBounds c.slot
      (.occupied ⟨c.key, c.value, lastSlot none front, target⟩), ?_, ?_, by simp, ?_⟩
    · rw [lastSlot_append, lastSlot_cons, lastSlot_nil, linkForward, modifyEntry_eq_ok hc]
      rw [first, firstSlot_append, firstSlot_append]
      rfl
    · exact (linked_append ..).2 ⟨hfront.congr (getElem?_setIfInBounds_of_notMem apart),
        getElem?_setIfInBounds_eq hc _, trivial⟩
    · intro i hi
      refine Array.getElem?_setIfInBounds_ne fun e => hi ?_
      simp [e]

/-- Only the first of the cells behind is written, or the end of the order if there are none. -/
theorem linkBackward_of_linked {before : Option Nat} (linked : Linked r.slots before ys none)
    (last : r.last = lastSlot before ys) (nodup : (slotsOf ys).Nodup) (target : Option Nat) :
    ∃ slots, r.linkBackward (firstSlot ys none) target =
        .ok { r with slots, last := lastSlot target ys } ∧
      Linked slots target ys none ∧ slots.size = r.slots.size ∧
      ∀ i ∉ slotsOf ys, slots[i]? = r.slots[i]? := by
  cases ys with
  | nil => exact ⟨r.slots, rfl, trivial, rfl, fun _ _ => rfl⟩
  | cons c rest =>
    obtain ⟨hc, hrest⟩ := linked
    have apart : c.slot ∉ slotsOf rest := (List.nodup_cons.1 nodup).1
    refine ⟨r.slots.setIfInBounds c.slot
      (.occupied ⟨c.key, c.value, target, firstSlot rest none⟩), ?_, ?_, by simp, ?_⟩
    · rw [firstSlot_cons, linkBackward, modifyEntry_eq_ok hc, last]
      rfl
    · exact ⟨getElem?_setIfInBounds_eq hc _,
        hrest.congr (getElem?_setIfInBounds_of_notMem apart)⟩
    · intro i hi
      refine Array.getElem?_setIfInBounds_ne fun e => hi ?_
      simp [e]

namespace Arranged

theorem nodup_around (h : Arranged r (xs ++ c :: ys) vacant) :
    (c.slot ∉ slotsOf xs ∧ c.slot ∉ slotsOf ys) ∧ (slotsOf xs ++ slotsOf ys).Nodup := by
  have nodup := h.nodup_slotsOf
  rwa [slotsOf_append, slotsOf_cons, List.nodup_middle, List.nodup_cons, List.mem_append,
    not_or] at nodup

theorem modifyEntry (h : Arranged r (xs ++ c :: ys) vacant) (f : V → V) :
    ∃ slots, r.modifyEntry c.slot (fun e => { e with value := f e.value }) =
        .ok { r with slots } ∧ slots.size = r.slots.size ∧
      Arranged { r with slots } (xs ++ { c with value := f c.value } :: ys) vacant := by
  obtain ⟨hxs, hc, hys⟩ := (linked_append ..).1 h.linked
  obtain ⟨⟨apartXs, apartYs⟩, -⟩ := h.nodup_around
  refine ⟨_, modifyEntry_eq_ok hc _, by simp, ?_⟩
  have slotsEq : slotsOf (xs ++ { c with value := f c.value } :: ys) =
      slotsOf (xs ++ c :: ys) := by simp
  refine ⟨?_, ?_, ?_, ?_, ?_, ?_⟩
  · rw [h.first, firstSlot_append, firstSlot_append]
    rfl
  · rw [h.last, lastSlot_append, lastSlot_append]
    rfl
  · exact (linked_append ..).2 ⟨hxs.congr (getElem?_setIfInBounds_of_notMem apartXs),
      getElem?_setIfInBounds_eq hc _, hys.congr (getElem?_setIfInBounds_of_notMem apartYs)⟩
  · exact h.free.congr (getElem?_setIfInBounds_of_notMem (h.notMem_vacant (by simp)))
  · rw [slotsEq]
    simpa using h.slots
  · rw [h.size]
    simp

/-- A new entry is put into a slot that no cell has. A slot is added only if none is vacant. -/
theorem allocate (h : Arranged r cells vacant) (e : Entry K V) :
    ∃ i slots free rest, r.allocate e = .ok (i, { r with slots, free }) ∧
      slots[i]? = some (.occupied e) ∧ i ∉ slotsOf cells ∧
      (∀ j ∈ slotsOf cells, slots[j]? = r.slots[j]?) ∧ VacantFrom slots free rest ∧
      (slotsOf cells ++ i :: rest).Perm (List.range slots.size) ∧
      rest.length = vacant.length - 1 := by
  cases vacant with
  | nil =>
    have hfree : r.free = none := h.free
    have fresh : r.slots.size ∉ slotsOf cells := fun hmem => Nat.lt_irrefl _ (h.lt_size hmem)
    refine ⟨r.slots.size, r.slots.push (.occupied e), none, [], ?_, by simp, fresh, ?_, rfl, ?_,
      rfl⟩
    · simp only [Registry.allocate, hfree]
    · intro j hj
      rw [Array.getElem?_push, if_neg (Nat.ne_of_lt (h.lt_size hj))]
    · rw [Array.size_push, List.range_succ]
      refine List.Perm.append_right _ ?_
      simpa using h.slots
  | cons i rest =>
    obtain ⟨hfree, next, hi, hrest⟩ := h.free
    have nodup := h.nodup
    simp only [List.nodup_append, List.nodup_cons] at nodup
    obtain ⟨-, ⟨apartRest, -⟩, apartCells⟩ := nodup
    have fresh : i ∉ slotsOf cells := fun hmem => apartCells i hmem i (by simp) rfl
    refine ⟨i, r.slots.setIfInBounds i (.occupied e), next, rest, ?_,
      getElem?_setIfInBounds_eq hi _, fresh, getElem?_setIfInBounds_of_notMem fresh,
      hrest.congr (getElem?_setIfInBounds_of_notMem apartRest), ?_, rfl⟩
    · simp only [Registry.allocate, hfree, hi]
    · simpa using h.slots

theorem set_new (h : Arranged r cells vacant) {k : K} (unknown : r.index[k]? = none) (v : V) :
    ∃ i s rest, r.set k v = .ok (none, s) ∧ s.index = r.index.insert k i ∧
      Arranged s (cells ++ [⟨i, k, v⟩]) rest ∧ rest.length = vacant.length - 1 := by
  obtain ⟨i, slots₁, free, rest, allocated, hi, fresh, same₁, hrest, perm, length⟩ :=
    h.allocate ⟨k, v, r.last, none⟩
  obtain ⟨slots₂, linked, hcells, size, same₂⟩ :=
    linkForward_of_linked (r := { r with slots := slots₁, free }) (h.linked.congr same₁) h.first
      h.nodup_slotsOf (some i)
  have apart : ∀ j ∈ rest, j ∉ slotsOf cells := by
    intro j hj hmem
    have nodup := perm.nodup_iff.2 List.nodup_range
    exact (List.nodup_append.1 nodup).2.2 j hmem j (List.mem_cons_of_mem _ hj) rfl
  refine ⟨i, { r with
    slots := slots₂, free, first := firstSlot cells (some i), last := some i
    index := r.index.insert k i, size := r.size + 1 }, rest, ?_, rfl, ?_, length⟩
  · rw [← h.last] at linked
    simp only [Registry.set, unknown, allocated, bind, Except.bind, linked]
    rfl
  · refine ⟨?_, ?_, ?_, hrest.congr fun j hj => same₂ j (apart j hj), ?_, ?_⟩
    · rw [firstSlot_append, firstSlot_cons]
    · rw [lastSlot_append, lastSlot_cons, lastSlot_nil]
    · refine (linked_append ..).2 ⟨hcells, ?_, trivial⟩
      rw [same₂ i fresh, hi, h.last, firstSlot_nil]
    · rw [size, slotsOf_append]
      simpa using perm
    · rw [List.length_append, ← h.size]
      rfl

/-- The cells in front of an entry and those behind it close up, and its slot is the next to be
served. -/
theorem detach (h : Arranged r (xs ++ c :: ys) vacant) :
    ∃ s, r.detach c.slot =
        .ok (⟨c.key, c.value, lastSlot none xs, firstSlot ys none⟩, s) ∧
      s.index = r.index ∧ Arranged s (xs ++ ys) (c.slot :: vacant) := by
  obtain ⟨hxs, hc, hys⟩ := (linked_append ..).1 h.linked
  obtain ⟨⟨apartXs, apartYs⟩, nodup⟩ := h.nodup_around
  obtain ⟨nodupXs, nodupYs, apart⟩ := List.nodup_append.1 nodup
  let slots₁ := r.slots.setIfInBounds c.slot (.vacant r.free)
  have first₁ : r.first = firstSlot xs (some c.slot) := by
    rw [h.first, firstSlot_append, firstSlot_cons]
  have last₁ : r.last = lastSlot (some c.slot) ys := by
    rw [h.last, lastSlot_append, lastSlot_cons]
  obtain ⟨slots₂, forward, hxs₂, size₂, same₂⟩ :=
    linkForward_of_linked (r := { r with slots := slots₁ })
      (hxs.congr (getElem?_setIfInBounds_of_notMem apartXs)) first₁ nodupXs (firstSlot ys none)
  have hys₁ : Linked slots₁ (some c.slot) ys none :=
    hys.congr (getElem?_setIfInBounds_of_notMem apartYs)
  have hys₂ : Linked slots₂ (some c.slot) ys none :=
    hys₁.congr fun i hi => same₂ i fun hmem => apart i hmem i hi rfl
  obtain ⟨slots₃, backward, hys₃, size₃, same₃⟩ :=
    linkBackward_of_linked
      (r := { r with slots := slots₂, first := firstSlot xs (firstSlot ys none) })
      hys₂ last₁ nodupYs (lastSlot none xs)
  have same : ∀ i, i ∉ slotsOf xs → i ∉ slotsOf ys → slots₃[i]? = slots₁[i]? :=
    fun i hx hy => (same₃ i hy).trans (same₂ i hx)
  refine ⟨{ r with
    slots := slots₃, first := firstSlot xs (firstSlot ys none)
    last := lastSlot (lastSlot none xs) ys, free := some c.slot
    size := (xs ++ ys).length }, ?_, rfl, ?_⟩
  · have size : r.size = (xs ++ ys).length + 1 := by
      rw [h.size, List.length_append, List.length_append, List.length_cons, Nat.add_assoc]
    simp only [Registry.detach, entryIn_eq_ok hc, bind, Except.bind]
    rw [forward]
    simp only [backward]
    rw [size]
    rfl
  · refine ⟨?_, ?_, ?_, ?_, ?_, rfl⟩
    · rw [firstSlot_append]
    · rw [lastSlot_append]
    · refine (linked_append ..).2 ⟨hxs₂.congr fun i hi => same₃ i ?_, hys₃⟩
      intro hmem
      exact apart i hi i hmem rfl
    · refine ⟨rfl, r.free, ?_, h.free.congr ?_⟩
      · rw [same _ apartXs apartYs, getElem?_setIfInBounds_eq hc]
      · intro i hi
        have hx : i ∉ slotsOf xs := fun hmem => h.notMem_vacant (by simp [hmem]) hi
        have hy : i ∉ slotsOf ys := fun hmem => h.notMem_vacant (by simp [hmem]) hi
        rw [same i hx hy]
        exact getElem?_setIfInBounds_of_notMem (h.notMem_vacant (by simp)) i hi
    · have perm := h.slots
      rw [slotsOf_append, slotsOf_cons, List.append_assoc, List.cons_append] at perm
      rw [size₃, size₂, Array.size_setIfInBounds, slotsOf_append]
      refine List.Perm.trans ?_ perm
      simpa using List.perm_middle.append_left (slotsOf xs)

end Arranged

end BrokerAdmin.Registry
