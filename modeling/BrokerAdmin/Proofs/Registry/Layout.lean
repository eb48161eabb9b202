import BrokerAdmin.Registry.Basic

set_option autoImplicit false

/-!
How a registry lies in its slots. A list of cells says, in order, which slot holds which entry, and
the vacant slots form a chain of their own. An operation on one entry splits the cells there: the
part in front of it, its own cell and the part behind it never share a slot, so what is written
into one of them leaves the others as they are.
-/

namespace BrokerAdmin

theorem exists_of_bind_eq_ok {ε α β : Type} {x : Except ε α} {f : α → Except ε β} {b : β}
    (done : (x >>= f) = .ok b) : ∃ a, x = .ok a ∧ f a = .ok b := by
  cases x with
  | error e => cases done
  | ok a => exact ⟨a, rfl, done⟩

namespace Registry

/-- An entry together with the slot that holds it. -/
structure Cell (K V : Type) where
  slot : Nat
  key : K
  value : V
  deriving DecidableEq, Repr

variable {K V : Type}

def slotsOf (cells : List (Cell K V)) : List Nat := cells.map Cell.slot

@[simp] theorem slotsOf_nil : slotsOf ([] : List (Cell K V)) = [] := rfl

@[simp] theorem slotsOf_cons (c : Cell K V) (cells : List (Cell K V)) :
    slotsOf (c :: cells) = c.slot :: slotsOf cells := rfl

@[simp] theorem slotsOf_append (xs ys : List (Cell K V)) :
    slotsOf (xs ++ ys) = slotsOf xs ++ slotsOf ys := List.map_append

@[simp] theorem length_slotsOf (cells : List (Cell K V)) :
    (slotsOf cells).length = cells.length := List.length_map ..

/-- The slot in which the cells begin, `after` if there are none. -/
def firstSlot (cells : List (Cell K V)) (after : Option Nat) : Option Nat :=
  match cells with
  | [] => after
  | c :: _ => some c.slot

def lastSlot (before : Option Nat) : List (Cell K V) → Option Nat
  | [] => before
  | c :: cells => lastSlot (some c.slot) cells

@[simp] theorem firstSlot_nil (after : Option Nat) :
    firstSlot ([] : List (Cell K V)) after = after := rfl

@[simp] theorem firstSlot_cons (c : Cell K V) (cells : List (Cell K V)) (after : Option Nat) :
    firstSlot (c :: cells) after = some c.slot := rfl

theorem firstSlot_append (xs ys : List (Cell K V)) (after : Option Nat) :
    firstSlot (xs ++ ys) after = firstSlot xs (firstSlot ys after) := by
  cases xs <;> rfl

@[simp] theorem lastSlot_nil (before : Option Nat) :
    lastSlot before ([] : List (Cell K V)) = before := rfl

@[simp] theorem lastSlot_cons (before : Option Nat) (c : Cell K V) (cells : List (Cell K V)) :
    lastSlot before (c :: cells) = lastSlot (some c.slot) cells := rfl

theorem lastSlot_append (before : Option Nat) (xs ys : List (Cell K V)) :
    lastSlot before (xs ++ ys) = lastSlot (lastSlot before xs) ys := by
  induction xs generalizing before with
  | nil => rfl
  | cons c xs ih => exact ih (some c.slot)

/-- The cells stand in their slots and name one another as neighbours. The first of them names
`before` and the last `after`. -/
def Linked (slots : Array (Slot K V)) (before : Option Nat) (cells : List (Cell K V))
    (after : Option Nat) : Prop :=
  match cells with
  | [] => True
  | c :: rest =>
    slots[c.slot]? = some (.occupied ⟨c.key, c.value, before, firstSlot rest after⟩) ∧
      Linked slots (some c.slot) rest after

@[simp] theorem linked_nil (slots : Array (Slot K V)) (before after : Option Nat) :
    Linked slots before [] after := trivial

@[simp] theorem linked_cons (slots : Array (Slot K V)) (before after : Option Nat) (c : Cell K V)
    (rest : List (Cell K V)) :
    Linked slots before (c :: rest) after ↔
      slots[c.slot]? = some (.occupied ⟨c.key, c.value, before, firstSlot rest after⟩) ∧
        Linked slots (some c.slot) rest after := Iff.rfl

theorem linked_append (slots : Array (Slot K V)) (before after : Option Nat)
    (xs ys : List (Cell K V)) :
    Linked slots before (xs ++ ys) after ↔
      Linked slots before xs (firstSlot ys after) ∧ Linked slots (lastSlot before xs) ys after := by
  induction xs generalizing before with
  | nil => simp
  | cons c xs ih => simp only [List.cons_append, linked_cons, lastSlot_cons, ih,
      firstSlot_append, and_assoc]

theorem Linked.congr {slots slots' : Array (Slot K V)} {before after : Option Nat}
    {cells : List (Cell K V)} (h : Linked slots before cells after)
    (same : ∀ i ∈ slotsOf cells, slots'[i]? = slots[i]?) : Linked slots' before cells after := by
  induction cells generalizing before with
  | nil => trivial
  | cons c rest ih =>
    refine ⟨(same c.slot (by simp)).trans h.1, ih h.2 fun i hi => same i ?_⟩
    exact List.mem_cons_of_mem _ hi

theorem Linked.occupied {slots : Array (Slot K V)} {before after : Option Nat}
    {cells : List (Cell K V)} (h : Linked slots before cells after) {c : Cell K V}
    (hc : c ∈ cells) :
    ∃ e, slots[c.slot]? = some (.occupied e) ∧ e.key = c.key ∧ e.value = c.value := by
  induction cells generalizing before with
  | nil => cases hc
  | cons d rest ih =>
    rcases List.mem_cons.1 hc with rfl | hc
    · exact ⟨_, h.1, rfl, rfl⟩
    · exact ih h.2 hc

/-- The chain of vacant slots that begins at `start`. -/
def VacantFrom (slots : Array (Slot K V)) (start : Option Nat) : List Nat → Prop
  | [] => start = none
  | i :: rest => start = some i ∧ ∃ next, slots[i]? = some (.vacant next) ∧
      VacantFrom slots next rest

theorem VacantFrom.congr {slots slots' : Array (Slot K V)} {start : Option Nat}
    {vacant : List Nat} (h : VacantFrom slots start vacant)
    (same : ∀ i ∈ vacant, slots'[i]? = slots[i]?) : VacantFrom slots' start vacant := by
  induction vacant generalizing start with
  | nil => exact h
  | cons i rest ih =>
    obtain ⟨rfl, next, hi, hrest⟩ := h
    refine ⟨rfl, next, (same i (by simp)).trans hi, ih hrest fun j hj => same j ?_⟩
    exact List.mem_cons_of_mem _ hj

theorem VacantFrom.vacant {slots : Array (Slot K V)} {start : Option Nat} {vacant : List Nat}
    (h : VacantFrom slots start vacant) {i : Nat} (hi : i ∈ vacant) :
    ∃ next, slots[i]? = some (.vacant next) := by
  induction vacant generalizing start with
  | nil => cases hi
  | cons j rest ih =>
    obtain ⟨-, next, hj, hrest⟩ := h
    rcases List.mem_cons.1 hi with rfl | hi
    · exact ⟨next, hj⟩
    · exact ih hrest hi

theorem entryIn_eq_ok {slots : Array (Slot K V)} {i : Nat} {e : Entry K V}
    (h : slots[i]? = some (.occupied e)) : entryIn slots i = .ok e := by
  simp [entryIn, h]

theorem Linked.entryIn_head {slots : Array (Slot K V)} {before after : Option Nat}
    {c : Cell K V} {rest : List (Cell K V)} (h : Linked slots before (c :: rest) after) :
    entryIn slots c.slot = .ok ⟨c.key, c.value, before, firstSlot rest after⟩ :=
  entryIn_eq_ok h.1

variable [BEq K] [Hashable K]

/-- The ends of the order, the vacant chain and the count fit the cells, and each slot belongs to
exactly one cell or is vacant. Nothing is said about the index. -/
structure Arranged (r : Registry K V) (cells : List (Cell K V)) (vacant : List Nat) : Prop where
  first : r.first = firstSlot cells none
  last : r.last = lastSlot none cells
  linked : Linked r.slots none cells none
  free : VacantFrom r.slots r.free vacant
  slots : (slotsOf cells ++ vacant).Perm (List.range r.slots.size)
  size : r.size = cells.length

variable {r : Registry K V} {cells xs ys : List (Cell K V)} {c : Cell K V} {vacant : List Nat}

namespace Arranged

theorem empty : Arranged (∅ : Registry K V) [] [] :=
  ⟨rfl, rfl, trivial, rfl, .refl _, rfl⟩

theorem nodup (h : Arranged r cells vacant) : (slotsOf cells ++ vacant).Nodup :=
  h.slots.nodup_iff.2 List.nodup_range

theorem nodup_slotsOf (h : Arranged r cells vacant) : (slotsOf cells).Nodup :=
  (List.nodup_append.1 h.nodup).1

theorem notMem_vacant (h : Arranged r cells vacant) {i : Nat} (hi : i ∈ slotsOf cells) :
    i ∉ vacant := fun hv => (List.nodup_append.1 h.nodup).2.2 i hi i hv rfl

theorem lt_size (h : Arranged r cells vacant) {i : Nat} (hi : i ∈ slotsOf cells) :
    i < r.slots.size :=
  List.mem_range.1 (h.slots.mem_iff.1 (List.mem_append_left _ hi))

theorem size_slots (h : Arranged r cells vacant) :
    r.slots.size = cells.length + vacant.length := by
  have := h.slots.length_eq
  simpa using this.symm

end Arranged

end Registry

end BrokerAdmin
