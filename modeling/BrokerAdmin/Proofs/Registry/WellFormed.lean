import BrokerAdmin.Proofs.Registry.Command

set_option autoImplicit false

/-!
What holds of the slots, links, index and count of every registry that commands lead to, said of
the registry alone. The order, followed either way, and the vacant chain each end and between them
meet every slot exactly once. Hence no command meets a fault, and whoever walks the order finds
its end after exactly as many entries as the registry counts.
-/

namespace BrokerAdmin.Registry

variable {K V σ : Type}

def after? (slots : Array (Slot K V)) (i : Nat) : Option (Option Nat) :=
  match slots[i]? with
  | some (.occupied e) => some e.after
  | _ => none

def before? (slots : Array (Slot K V)) (i : Nat) : Option (Option Nat) :=
  match slots[i]? with
  | some (.occupied e) => some e.before
  | _ => none

def nextFree? (slots : Array (Slot K V)) (i : Nat) : Option (Option Nat) :=
  match slots[i]? with
  | some (.vacant next) => some next
  | _ => none

/-- Following the links from `start` visits the slots of the path and ends behind the last. -/
def Follows (link : Nat → Option (Option Nat)) : Option Nat → List Nat → Prop
  | start, [] => start = none
  | start, i :: path => start = some i ∧ ∃ next, link i = some next ∧ Follows link next path

structure WellFormed [BEq K] [Hashable K] (r : Registry K V) (order vacant : List Nat) : Prop where
  forward : Follows (after? r.slots) r.first order
  ends : order.getLast? = r.last
  backward : Follows (before? r.slots) r.last order.reverse
  free : Follows (nextFree? r.slots) r.free vacant
  nodup_order : order.Nodup
  mem_order : ∀ i, i ∈ order ↔ ∃ e, r.slots[i]? = some (.occupied e)
  nodup_vacant : vacant.Nodup
  mem_vacant : ∀ i, i ∈ vacant ↔ ∃ next, r.slots[i]? = some (.vacant next)
  index : ∀ (k : K) (i : Nat), r.index[k]? = some i ↔
    ∃ e, r.slots[i]? = some (.occupied e) ∧ (e.key == k) = true
  size : r.size = order.length

theorem Linked.follows_after {slots : Array (Slot K V)} {before : Option Nat}
    {cells : List (Cell K V)} (h : Linked slots before cells none) :
    Follows (after? slots) (firstSlot cells none) (slotsOf cells) := by
  induction cells generalizing before with
  | nil => rfl
  | cons c rest ih =>
    refine ⟨rfl, firstSlot rest none, ?_, ih h.2⟩
    simp only [after?, h.1]

theorem Linked.follows_before {slots : Array (Slot K V)} {before after : Option Nat}
    {cells : List (Cell K V)} (h : Linked slots before cells after) {path : List Nat}
    (hpath : Follows (before? slots) before path) :
    Follows (before? slots) (lastSlot before cells) ((slotsOf cells).reverse ++ path) := by
  induction cells generalizing before path with
  | nil => exact hpath
  | cons c rest ih =>
    rw [slotsOf_cons, List.reverse_cons, List.append_assoc]
    refine ih h.2 ⟨rfl, before, ?_, hpath⟩
    simp only [before?, h.1]

theorem VacantFrom.follows {slots : Array (Slot K V)} {start : Option Nat} {vacant : List Nat}
    (h : VacantFrom slots start vacant) : Follows (nextFree? slots) start vacant := by
  induction vacant generalizing start with
  | nil => exact h
  | cons i rest ih =>
    obtain ⟨rfl, next, hi, hrest⟩ := h
    refine ⟨rfl, next, ?_, ih hrest⟩
    simp only [nextFree?, hi]

theorem getLast?_slotsOf (cells : List (Cell K V)) :
    (slotsOf cells).getLast? = lastSlot none cells := by
  rcases List.eq_nil_or_concat cells with rfl | ⟨front, c, rfl⟩
  · rfl
  · rw [List.concat_eq_append, lastSlot_append]
    simp

variable [BEq K] [Hashable K] {r : Registry K V} {cells : List (Cell K V)} {vacant : List Nat}

theorem Arranged.mem_slotsOf_iff (h : Arranged r cells vacant) (i : Nat) :
    i ∈ slotsOf cells ↔ ∃ e, r.slots[i]? = some (.occupied e) := by
  constructor
  · intro hi
    obtain ⟨c, hc, rfl⟩ := List.mem_map.1 hi
    obtain ⟨e, he, -⟩ := h.linked.occupied hc
    exact ⟨e, he⟩
  · rintro ⟨e, he⟩
    have bound : i < r.slots.size := (Array.getElem?_eq_some_iff.1 he).1
    rcases List.mem_append.1 (h.slots.mem_iff.2 (List.mem_range.2 bound)) with hi | hi
    · exact hi
    · obtain ⟨next, vacated⟩ := h.free.vacant hi
      rw [he] at vacated
      cases vacated

theorem Arranged.mem_vacant_iff (h : Arranged r cells vacant) (i : Nat) :
    i ∈ vacant ↔ ∃ next, r.slots[i]? = some (.vacant next) := by
  constructor
  · exact h.free.vacant
  · rintro ⟨next, vacated⟩
    have bound : i < r.slots.size := (Array.getElem?_eq_some_iff.1 vacated).1
    rcases List.mem_append.1 (h.slots.mem_iff.2 (List.mem_range.2 bound)) with hi | hi
    · obtain ⟨e, he⟩ := (h.mem_slotsOf_iff i).1 hi
      rw [he] at vacated
      cases vacated
    · exact hi

theorem LaidOut.index_cell [EquivBEq K] (h : LaidOut r cells vacant) {c : Cell K V}
    (hc : c ∈ cells) {k : K} (hk : (c.key == k) = true) : r.index[k]? = some c.slot := by
  obtain ⟨xs, ys, rfl⟩ := List.append_of_mem hc
  have distinct := h.distinct
  rw [entriesOf_append, entriesOf_cons] at distinct
  have others := (distinct.unknown_of_append_cons hk).1
  rw [h.index, List.find?_append, find?_of_unknown others BEq.rfl, List.find?_cons, hk]
  rfl

theorem LaidOut.index_iff [EquivBEq K] (h : LaidOut r cells vacant) (k : K) (i : Nat) :
    r.index[k]? = some i ↔ ∃ e, r.slots[i]? = some (.occupied e) ∧ (e.key == k) = true := by
  constructor
  · intro hk
    obtain ⟨xs, c, ys, rfl, rfl, hc, -⟩ := h.known hk
    exact ⟨_, ((linked_append ..).1 h.linked).2.1, hc⟩
  · rintro ⟨e, he, hk⟩
    obtain ⟨c, hc, rfl⟩ := List.mem_map.1 ((h.mem_slotsOf_iff i).2 ⟨e, he⟩)
    obtain ⟨d, hd, key, -⟩ := h.linked.occupied hc
    rw [he] at hd
    cases hd
    exact h.index_cell hc (key ▸ hk)

theorem LaidOut.wellFormed [EquivBEq K] (h : LaidOut r cells vacant) :
    WellFormed r (slotsOf cells) vacant where
  forward := by
    rw [h.first]
    exact h.linked.follows_after
  ends := by rw [getLast?_slotsOf, h.last]
  backward := by
    rw [h.last, ← List.append_nil (slotsOf cells).reverse]
    exact h.linked.follows_before rfl
  free := h.free.follows
  nodup_order := h.nodup_slotsOf
  mem_order := h.mem_slotsOf_iff
  nodup_vacant := (List.nodup_append.1 h.nodup).2.1
  mem_vacant := h.mem_vacant_iff
  index := h.index_iff
  size := by rw [h.size, length_slotsOf]

/-- A judge that also counts how often it is asked. -/
def counting (judge : σ → K → V → σ × Verdict V) (s : σ × Nat) (k : K) (v : V) :
    (σ × Nat) × Verdict V :=
  (((judge s.1 k v).1, s.2 + 1), (judge s.1 k v).2)

omit [BEq K] [Hashable K] in
theorem sweep_counting (judge : σ → K → V → σ × Verdict V) (l : List (K × V)) (s : σ × Nat)
    (finished : (Listing.sweep (counting judge) l s).2.2.2 = false) :
    (Listing.sweep (counting judge) l s).2.1.2 = s.2 + l.length := by
  induction l generalizing s with
  | nil => rfl
  | cons e l ih =>
    obtain ⟨k, v⟩ := e
    rcases judged : judge s.1 k v with ⟨state, _ | _ | _⟩
    case abort v' => simp [Listing.sweep, counting, judged] at finished
    all_goals
      simp only [Listing.sweep, counting, judged] at finished ⊢
      rw [ih _ finished, List.length_cons]
      omega

theorem Represents.cursor_take {l : List (K × V)} (h : r.Represents l) (n : Nat) :
    ∃ c, r.cursor.take n = .ok (l.take n, c) ∧ c.remaining = r.size - n ∧
      (c.position = none ↔ r.size ≤ n) := by
  obtain ⟨cells, vacant, laidOut, rfl⟩ := h
  obtain ⟨c, taken, behind⟩ := laidOut.toArranged.cursor.take_eq_ok n
  refine ⟨c, ?_, ?_, ?_⟩
  · rw [taken, entriesOf, entriesOf, List.map_take]
  · rw [behind.remaining, List.length_drop, laidOut.size]
  · rw [behind.position, laidOut.size, ← List.drop_eq_nil_iff]
    cases cells.drop n <;> simp

variable [EquivBEq K] [LawfulHashable K]

theorem Represents.sweep_counting {l : List (K × V)} (h : r.Represents l)
    (judge : σ → K → V → σ × Verdict V) (s : σ) :
    ∃ o, r.sweep (counting judge) (s, 0) = .ok o ∧ (o.aborted = false → o.state.2 = r.size) := by
  obtain ⟨after, swept, -⟩ := h.sweep (counting judge) (s, 0)
  refine ⟨_, swept, ?_⟩
  intro finished
  rw [h.size, ← Nat.zero_add l.length]
  exact Registry.sweep_counting judge l (s, 0) finished

/-- The registry is well formed; no command meets a fault in it, and neither does a walk, which
ends after as many entries as the registry counts. -/
structure Sound (r : Registry K V) : Prop where
  wellFormed : ∃ order vacant, WellFormed r order vacant
  perform : ∀ (τ : Type) (c : Command K V τ), ∃ answer s, c.perform r = .ok (answer, s)
  take : ∀ n, ∃ visited c, r.cursor.take n = .ok (visited, c) ∧
    visited.length = min n r.size ∧ c.remaining = r.size - visited.length ∧
    (c.position = none ↔ r.size ≤ n)
  sweep : ∀ (τ : Type) (judge : τ → K → V → τ × Verdict V) (s : τ),
    ∃ o, r.sweep (counting judge) (s, 0) = .ok o ∧ (o.aborted = false → o.state.2 = r.size)

theorem Represents.sound {l : List (K × V)} (h : r.Represents l) : r.Sound where
  wellFormed := by
    obtain ⟨cells, vacant, laidOut, -⟩ := h
    exact ⟨_, _, laidOut.wellFormed⟩
  perform τ c := by
    obtain ⟨s, performed, -⟩ := Command.perform_represents h c
    exact ⟨_, s, performed⟩
  take n := by
    obtain ⟨c, taken, remaining, ended⟩ := h.cursor_take n
    refine ⟨_, c, taken, ?_, ?_, ended⟩
    · rw [List.length_take, h.size]
    · rw [remaining, List.length_take, h.size]
      omega
  sweep _ judge s := h.sweep_counting judge s

theorem sound_of_performAll (cs : List (Command K V σ)) :
    ∃ answers r, Command.performAll ∅ cs = .ok (answers, r) ∧ r.Sound := by
  obtain ⟨r, done, represents⟩ := Command.performAll_represents Represents.empty cs
  exact ⟨_, r, done, represents.sound⟩

/-- The order and the vacant chain after removals at both ends and in the middle. -/
theorem sound_of_performAll_vacated : ∃ answers r, Command.performAll ∅ ([
      .set "a" 1, .set "b" 2, .set "c" 3, .set "d" 4, .erase "a", .set "e" 5, .erase "c",
      .filter fun _ v => v ≠ 5] : List (Command String Nat Unit)) = .ok (answers, r) ∧ r.Sound :=
  sound_of_performAll _

end BrokerAdmin.Registry
