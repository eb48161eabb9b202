import BrokerAdmin.Proofs.Registry.WellFormed
import Mathlib.Order.Bounds.Basic

set_option autoImplicit false

/-!
How many slots a registry has. A command adds a slot only for an entry that finds none vacant, so
there are as many slots as there have ever been entries at once, and every slot that was vacated is
served again before one is added.
-/

namespace BrokerAdmin.Registry

variable {K V σ : Type} [BEq K] [Hashable K] {r s : Registry K V} {l : List (K × V)}

theorem LaidOut.size_le_slots {cells : List (Cell K V)} {vacant : List Nat}
    (h : LaidOut r cells vacant) : r.size ≤ r.slots.size := by
  rw [h.size_slots, h.size]
  exact Nat.le_add_right ..

theorem Represents.size_le_slots (h : r.Represents l) : r.size ≤ r.slots.size := by
  obtain ⟨cells, vacant, laidOut, -⟩ := h
  exact laidOut.size_le_slots

theorem Represents.occupied_of_full (h : r.Represents l) (full : r.size = r.slots.size) {i : Nat}
    (hi : i < r.slots.size) : ∃ e, r.slots[i]? = some (.occupied e) := by
  obtain ⟨cells, vacant, laidOut, -⟩ := h
  have counted := laidOut.size_slots
  rw [← full, laidOut.size] at counted
  have none : vacant = [] := List.length_eq_zero_iff.1 (by omega)
  subst none
  rw [← laidOut.mem_slotsOf_iff]
  have listed := laidOut.slots.mem_iff.2 (List.mem_range.2 hi)
  rwa [List.append_nil] at listed

namespace Command

omit [Hashable K] in
theorem length_onListing_le (c : Command K V σ) (l : List (K × V)) :
    (c.onListing l).2.length ≤ l.length + 1 := by
  cases c with
  | set k v =>
    rw [onListing, Listing.length_set]
    split <;> omega
  | erase k => exact Nat.le_succ_of_le (List.length_filter_le ..)
  | modify k f => exact Nat.le_succ_of_le (Nat.le_of_eq (Listing.length_modify ..))
  | sweep judge s =>
    have fewer := (Listing.keys_sweep_sublist judge l s).length_le
    rw [Listing.keys, Listing.keys, List.length_map, List.length_map] at fewer
    exact Nat.le_succ_of_le fewer
  | filter p => exact Nat.le_succ_of_le (List.length_filter_le ..)
  | _ => exact Nat.le_succ _

variable [EquivBEq K] [LawfulHashable K]

/-- The slots suffice for what was there before and for what is there now. -/
theorem size_slots_of_perform (h : r.Represents l) {c : Command K V σ} {answer : Answer K V σ}
    (done : c.perform r = .ok (answer, s)) : s.slots.size = max r.slots.size s.size := by
  obtain ⟨cells, vacant, laidOut, -⟩ := h
  have kept {cells' : List (Cell K V)} {vacant' : List Nat} {t : Registry K V}
      (after : LaidOut t cells' vacant') (same : t.slots.size = r.slots.size) :
      t.slots.size = max r.slots.size t.size := by
    rw [← same]
    exact (Nat.max_eq_left after.size_le_slots).symm
  cases c with
  | set k v =>
    obtain ⟨t, cells', vacant', set, -, -, size⟩ := laidOut.set k v
    simp only [perform, set] at done
    cases done
    exact size
  | erase k =>
    obtain ⟨t, cells', vacant', erased, after, -, same⟩ := laidOut.erase k
    simp only [perform, erased] at done
    cases done
    exact kept after same
  | modify k f =>
    obtain ⟨t, cells', modified, after, -, same⟩ := laidOut.modify k f
    simp only [perform, modified] at done
    cases done
    exact kept after same
  | sweep judge state =>
    obtain ⟨t, cells', vacant', swept, after, -, same⟩ := laidOut.sweep judge state
    simp only [perform, swept] at done
    cases done
    exact kept after same
  | filter p =>
    obtain ⟨t, cells', vacant', swept, after, -, same⟩ :=
      laidOut.sweep (fun _ k v => ((), if p k v then .keep v else .drop)) ()
    simp only [perform, Registry.filter, swept] at done
    cases done
    exact kept after same
  | get k =>
    simp only [perform, laidOut.get?] at done
    cases done
    exact kept laidOut rfl
  | toList =>
    simp only [perform, laidOut.toArranged.toList] at done
    cases done
    exact kept laidOut rfl
  | window start count =>
    simp only [perform, laidOut.toArranged.window] at done
    cases done
    exact kept laidOut rfl
  | iterate start count visit state =>
    simp only [perform, Registry.iterate, laidOut.toArranged.window] at done
    cases done
    exact kept laidOut rfl
  | _ =>
    cases done
    exact kept laidOut rfl

/-- A command adds at most one slot, and only if no slot is vacant. -/
theorem slots_of_perform (h : r.Represents l) (c : Command K V σ) :
    ∃ answer s, c.perform r = .ok (answer, s) ∧ (s.slots.size = r.slots.size ∨
      s.slots.size = r.slots.size + 1 ∧
        ∀ i < r.slots.size, ∃ e, r.slots[i]? = some (.occupied e)) := by
  obtain ⟨s, done, after⟩ := perform_represents h c
  refine ⟨_, s, done, ?_⟩
  have slots := size_slots_of_perform h done
  have fits := h.size_le_slots
  have more : s.size ≤ r.size + 1 := by
    rw [h.size, after.size]
    exact length_onListing_le c l
  rcases Nat.lt_or_ge r.slots.size s.size with short | enough
  · exact .inr ⟨by omega, fun i hi => h.occupied_of_full (by omega) hi⟩
  · exact .inl (slots.trans (Nat.max_eq_left enough))

/-- The numbers of entries that a run of commands passes through: how many there are before it and
after each of its commands. -/
def sizesFrom (r : Registry K V) (cs : List (Command K V σ)) : Set Nat :=
  {n | ∃ k answers s, performAll r (cs.take k) = .ok (answers, s) ∧ s.size = n}

omit [EquivBEq K] [LawfulHashable K] in
theorem size_mem_sizesFrom (r : Registry K V) (cs : List (Command K V σ)) :
    r.size ∈ sizesFrom r cs := ⟨0, [], r, rfl, rfl⟩

omit [EquivBEq K] [LawfulHashable K] in
theorem sizesFrom_cons {c : Command K V σ} {answer : Answer K V σ}
    (done : c.perform r = .ok (answer, s)) (cs : List (Command K V σ)) :
    sizesFrom r (c :: cs) = insert r.size (sizesFrom s cs) := by
  ext n
  constructor
  · rintro ⟨k, answers, t, run, rfl⟩
    cases k with
    | zero =>
      cases run
      exact .inl rfl
    | succ k =>
      obtain ⟨⟨answer', s'⟩, first, rest⟩ := exists_of_bind_eq_ok run
      cases done.symm.trans first
      obtain ⟨⟨answers', t'⟩, later, last⟩ := exists_of_bind_eq_ok rest
      cases last
      exact .inr ⟨k, answers', t, later, rfl⟩
  · rintro (rfl | ⟨k, answers, t, run, rfl⟩)
    · exact size_mem_sizesFrom r _
    · refine ⟨k + 1, answer :: answers, t, ?_, rfl⟩
      simp only [List.take_succ_cons, performAll, done, bind, Except.bind, run]
      rfl

/-- From `r` on, the most entries that there have been at once are as many as the slots, unless
`r` has more slots already. -/
theorem isGreatest_slots_of_performAll (h : r.Represents l) {cs : List (Command K V σ)}
    {answers : List (Answer K V σ)} (run : performAll r cs = .ok (answers, s)) :
    IsGreatest (insert r.slots.size (sizesFrom r cs)) s.slots.size := by
  induction cs generalizing r l answers with
  | nil =>
    cases run
    refine ⟨.inl rfl, ?_⟩
    rintro n (rfl | ⟨k, answers, t, none, rfl⟩)
    · exact Nat.le_refl _
    · rw [List.take_nil] at none
      cases none
      exact h.size_le_slots
  | cons c cs ih =>
    obtain ⟨r₁, done, after⟩ := perform_represents h c
    obtain ⟨⟨answer, r'⟩, first, rest⟩ := exists_of_bind_eq_ok run
    cases done.symm.trans first
    obtain ⟨⟨answers', s'⟩, later, last⟩ := exists_of_bind_eq_ok rest
    cases last
    obtain ⟨reached, bound⟩ := ih after later
    have slots := size_slots_of_perform h done
    have grown : r₁.slots.size ≤ s.slots.size := bound (.inl rfl)
    rw [sizesFrom_cons done]
    constructor
    · rcases reached with same | seen
      · rcases Nat.le_total r₁.size r.slots.size with enough | more
        · rw [same, slots, Nat.max_eq_left enough]
          exact .inl rfl
        · rw [same, slots, Nat.max_eq_right more]
          exact .inr (.inr (size_mem_sizesFrom r₁ cs))
      · exact .inr (.inr seen)
    · rintro n (rfl | rfl | seen)
      · omega
      · have fits := h.size_le_slots
        omega
      · exact bound (.inr seen)

theorem slots_of_sets (h : r.Represents l) (entries : List (K × V))
    (room : r.size + entries.length ≤ r.slots.size) :
    ∃ answers s, performAll r (entries.map fun e => (.set e.1 e.2 : Command K V σ)) =
      .ok (answers, s) ∧ s.slots.size = r.slots.size := by
  induction entries generalizing r l with
  | nil => exact ⟨[], r, rfl, rfl⟩
  | cons e entries ih =>
    rw [List.length_cons] at room
    obtain ⟨r₁, done, after⟩ := perform_represents h (.set e.1 e.2 : Command K V σ)
    have more : r₁.size ≤ r.size + 1 := by
      rw [h.size, after.size]
      exact length_onListing_le ..
    have same : r₁.slots.size = r.slots.size := by
      rw [size_slots_of_perform h done]
      omega
    obtain ⟨answers, s, run, kept⟩ := ih after (by omega)
    refine ⟨(onListing l (.set e.1 e.2)).1 :: answers, s, ?_, kept.trans same⟩
    simp only [List.map_cons, performAll, done, bind, Except.bind, run]
    rfl

end Command

/-- Vacant slots wait for new entries: they are chained without a gap, a slot is added only when
none of them is left, and new entries fill them all before that. -/
structure Reuses (r : Registry K V) : Prop where
  chained : ∃ vacant, Follows (nextFree? r.slots) r.free vacant ∧ vacant.Nodup ∧
    ∀ i, i ∈ vacant ↔ ∃ next, r.slots[i]? = some (.vacant next)
  added : ∀ (τ : Type) (c : Command K V τ), ∃ answer s, c.perform r = .ok (answer, s) ∧
    (s.slots.size = r.slots.size ∨ s.slots.size = r.slots.size + 1 ∧
      ∀ i < r.slots.size, ∃ e, r.slots[i]? = some (.occupied e))
  filled : ∀ entries : List (K × V), r.size + entries.length ≤ r.slots.size →
    ∃ answers s, Command.performAll r
      (entries.map fun e => (.set e.1 e.2 : Command K V Unit)) = .ok (answers, s) ∧
        s.slots.size = r.slots.size

variable [EquivBEq K] [LawfulHashable K]

theorem Represents.reuses (h : r.Represents l) : r.Reuses where
  chained := by
    obtain ⟨cells, vacant, laidOut, -⟩ := h
    have wellFormed := laidOut.wellFormed
    exact ⟨vacant, wellFormed.free, wellFormed.nodup_vacant, wellFormed.mem_vacant⟩
  added _ c := Command.slots_of_perform h c
  filled entries room := Command.slots_of_sets h entries room

/-- There are as many slots as there have been entries at once, at most, since the registry was
empty. -/
theorem isGreatest_size_slots (cs : List (Command K V σ)) :
    ∃ answers r, Command.performAll (∅ : Registry K V) cs = .ok (answers, r) ∧
      IsGreatest (Command.sizesFrom (∅ : Registry K V) cs) r.slots.size ∧ r.Reuses := by
  obtain ⟨r, run, represents⟩ := Command.performAll_represents Represents.empty cs
  refine ⟨_, r, run, ?_, represents.reuses⟩
  have greatest := Command.isGreatest_slots_of_performAll Represents.empty run
  have none : (∅ : Registry K V).slots.size ∈ Command.sizesFrom (∅ : Registry K V) cs :=
    Command.size_mem_sizesFrom ∅ cs
  rwa [Set.insert_eq_of_mem none] at greatest

/-- Three entries at once, all removed in a sweep but one, and two put into vacated slots. -/
theorem isGreatest_size_slots_refilled : ∃ answers r, Command.performAll ∅ ([
      .set "a" 1, .set "b" 2, .erase "a", .set "c" 3, .set "d" 4, .filter fun _ v => v = 3,
      .set "e" 5, .set "f" 6] : List (Command String Nat Unit)) = .ok (answers, r) ∧
    IsGreatest (Command.sizesFrom ∅ ([
      .set "a" 1, .set "b" 2, .erase "a", .set "c" 3, .set "d" 4, .filter fun _ v => v = 3,
      .set "e" 5, .set "f" 6] : List (Command String Nat Unit))) r.slots.size ∧ r.Reuses :=
  isGreatest_size_slots _

end BrokerAdmin.Registry
