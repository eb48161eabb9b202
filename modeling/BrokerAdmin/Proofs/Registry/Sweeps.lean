import BrokerAdmin.Proofs.Registry.Refinement
import BrokerAdmin.Registry.Listing

set_option autoImplicit false

/-!
Sweeping a registry is sweeping its listing. Half way through, the cells fall into those kept so
far and those still to be judged, and the sweep stands at the first of the latter. Vacating that
slot writes only to its neighbours and leaves the rest of the way as it was.
-/

namespace BrokerAdmin

/-- A judge without a state of its own filters. -/
theorem Listing.sweep_filter {K V : Type} (p : K → V → Bool) (l : List (K × V)) :
    Listing.sweep (fun (_ : Unit) k v => ((), if p k v then .keep v else .drop)) l () =
      (l.filter (fun e => p e.1 e.2), (), l.countP (fun e => !p e.1 e.2), false) := by
  induction l with
  | nil => rfl
  | cons e l ih =>
    cases hp : p e.1 e.2 <;> simp [Listing.sweep, hp, ih]

namespace Registry

variable {K V σ : Type} [BEq K] [Hashable K] [EquivBEq K] [LawfulHashable K]

/-- The registry may hold the cells in front in any state, since they are not judged again. -/
theorem sweepFrom_eq_ok (judge : σ → K → V → σ × Verdict V) {fuel : Nat}
    {todo done : List (Cell K V)} {vacant : List Nat} {s : Sweep K V σ}
    (h : LaidOut s.registry (done ++ todo) vacant)
    (enough : todo.length ≤ fuel) (going : s.aborted = false) :
    ∃ r cells vacant', sweepFrom judge fuel (firstSlot todo none) s = .ok {
        registry := r
        state := (Listing.sweep judge (entriesOf todo) s.state).2.1
        removed := s.removed + (Listing.sweep judge (entriesOf todo) s.state).2.2.1
        aborted := (Listing.sweep judge (entriesOf todo) s.state).2.2.2 } ∧
      LaidOut r cells vacant' ∧
      entriesOf cells = entriesOf done ++ (Listing.sweep judge (entriesOf todo) s.state).1 ∧
      r.slots.size = s.registry.slots.size := by
  induction todo generalizing fuel done vacant s with
  | nil =>
    refine ⟨s.registry, done, vacant, ?_, by simpa using h, by simp [Listing.sweep], rfl⟩
    obtain ⟨registry, state, removed, aborted⟩ := s
    subst going
    cases fuel <;> rfl
  | cons c todo ih =>
    obtain ⟨fuel, rfl⟩ := Nat.exists_eq_add_of_lt (Nat.lt_of_lt_of_le (Nat.succ_pos _) enough)
    rw [Nat.zero_add] at enough ⊢
    replace enough : todo.length ≤ fuel := Nat.le_of_succ_le_succ enough
    have entry := ((linked_append ..).1 h.linked).2.entryIn_head
    rcases judged : judge s.state c.key c.value with ⟨state, _ | _ | _⟩
    case keep v =>
      obtain ⟨r, modified, laidOut, size⟩ := h.replace fun _ => v
      rw [List.append_cons] at laidOut
      obtain ⟨r', cells, vacant', swept, laidOut', entries, size'⟩ :=
        ih (s := { s with registry := r, state }) laidOut enough going
      refine ⟨r', cells, vacant', ?_, laidOut', ?_, size'.trans size⟩
      · simp only [firstSlot_cons, sweepFrom, entry, bind, Except.bind, judged, modified, swept,
          entriesOf_cons, Listing.sweep]
      · rw [entries, entriesOf_append]
        simp [Listing.sweep, judged]
    case drop =>
      obtain ⟨r, detached, index, arranged⟩ := h.detach
      have laidOut := h.vacate (k := c.key) BEq.rfl (arranged.withIndex (r.index.erase c.key))
        (by rw [index])
      obtain ⟨r', cells, vacant', swept, laidOut', entries, size'⟩ :=
        ih (s := { s with
          registry := { r with index := r.index.erase c.key }, state, removed := s.removed + 1 })
          laidOut enough going
      refine ⟨r', cells, vacant', ?_, laidOut', ?_, size'.trans ?_⟩
      · simp only [firstSlot_cons, sweepFrom, entry, bind, Except.bind, judged, detached, swept,
          entriesOf_cons, Listing.sweep, Nat.add_assoc, Nat.add_comm 1]
      · rw [entries]
        simp [Listing.sweep, judged]
      · rw [arranged.size_slots, h.size_slots]
        simp only [List.length_append, List.length_cons]
        omega
    case abort v =>
      obtain ⟨r, modified, laidOut, size⟩ := h.replace fun _ => v
      refine ⟨r, _, vacant, ?_, laidOut, ?_, size⟩
      · simp only [firstSlot_cons, sweepFrom, entry, bind, Except.bind, judged, modified,
          entriesOf_cons, Listing.sweep]
        rfl
      · rw [entriesOf_append, entriesOf_cons, entriesOf_cons]
        simp [Listing.sweep, judged]

theorem LaidOut.sweep {r : Registry K V} {cells : List (Cell K V)} {vacant : List Nat}
    (h : LaidOut r cells vacant) (judge : σ → K → V → σ × Verdict V) (state : σ) :
    ∃ s cells' vacant', r.sweep judge state = .ok {
        registry := s
        state := (Listing.sweep judge (entriesOf cells) state).2.1
        removed := (Listing.sweep judge (entriesOf cells) state).2.2.1
        aborted := (Listing.sweep judge (entriesOf cells) state).2.2.2 } ∧
      LaidOut s cells' vacant' ∧
      entriesOf cells' = (Listing.sweep judge (entriesOf cells) state).1 ∧
      s.slots.size = r.slots.size := by
  have enough : cells.length ≤ r.slots.size := by
    rw [h.size_slots]
    exact Nat.le_add_right ..
  have start : LaidOut r ([] ++ cells) vacant := h
  obtain ⟨s, cells', vacant', swept, after, entries, size⟩ :=
    sweepFrom_eq_ok judge (s := ⟨r, state, 0, false⟩) start enough rfl
  refine ⟨s, cells', vacant', ?_, after, entries, size⟩
  rw [Registry.sweep, h.first, swept, Nat.zero_add]

theorem Represents.sweep {r : Registry K V} {l : List (K × V)} (h : r.Represents l)
    (judge : σ → K → V → σ × Verdict V) (state : σ) :
    ∃ s, r.sweep judge state = .ok {
        registry := s
        state := (Listing.sweep judge l state).2.1
        removed := (Listing.sweep judge l state).2.2.1
        aborted := (Listing.sweep judge l state).2.2.2 } ∧
      s.Represents (Listing.sweep judge l state).1 := by
  obtain ⟨cells, vacant, laidOut, rfl⟩ := h
  obtain ⟨s, cells', vacant', swept, after, entries, -⟩ := laidOut.sweep judge state
  exact ⟨s, swept, cells', vacant', after, entries⟩

theorem Represents.filter {r : Registry K V} {l : List (K × V)} (h : r.Represents l)
    (p : K → V → Bool) :
    ∃ s, r.filter p = .ok (l.countP fun e => !p e.1 e.2, s) ∧
      s.Represents (l.filter fun e => p e.1 e.2) := by
  obtain ⟨s, swept, after⟩ := h.sweep (fun _ k v => ((), if p k v then .keep v else .drop)) ()
  rw [Listing.sweep_filter] at swept after
  refine ⟨s, ?_, after⟩
  simp only [Registry.filter, swept]
  rfl

end Registry

end BrokerAdmin
