import BrokerAdmin.Proofs.Registry.Refinement

set_option autoImplicit false

/-!
Reading a registry in order. A cursor stands before the cells that are still to come; it counts
exactly those, and behind the last of them it finds no slot to go to.
-/

namespace BrokerAdmin.Registry

variable {K V : Type}

namespace Cursor

structure Before (c : Cursor K V) (cells : List (Cell K V)) : Prop where
  position : c.position = firstSlot cells none
  remaining : c.remaining = cells.length
  linked : ∃ before, Linked c.slots before cells none

variable {c : Cursor K V} {cells : List (Cell K V)}

theorem Before.next_nil (h : Before c []) : c.next = .ok none := by
  have position : c.position = none := h.position
  simp only [next, position]

theorem Before.next_cons {d : Cell K V} (h : Before c (d :: cells)) :
    ∃ c', c.next = .ok (some ((d.key, d.value), c')) ∧ Before c' cells := by
  obtain ⟨before, linked⟩ := h.linked
  refine ⟨⟨c.slots, firstSlot cells none, cells.length⟩, ?_, rfl, rfl, _, linked.2⟩
  have position : c.position = some d.slot := h.position
  have remaining : c.remaining = cells.length + 1 := h.remaining
  simp only [next, position, linked.entryIn_head, bind, Except.bind, remaining]
  rfl

theorem Before.drop_eq_ok (h : Before c cells) (n : Nat) :
    ∃ c', drop n c = .ok c' ∧ Before c' (cells.drop n) := by
  induction n generalizing c cells with
  | zero => exact ⟨c, rfl, h⟩
  | succ n ih =>
    cases cells with
    | nil => exact ⟨c, by simp only [drop, h.next_nil]; rfl, h⟩
    | cons d rest =>
      obtain ⟨c₁, moved, behind⟩ := h.next_cons
      obtain ⟨c₂, dropped, last⟩ := ih behind
      exact ⟨c₂, by simp only [drop, moved, bind, Except.bind, dropped], last⟩

theorem Before.take_eq_ok (h : Before c cells) (n : Nat) :
    ∃ c', take n c = .ok (entriesOf (cells.take n), c') ∧ Before c' (cells.drop n) := by
  induction n generalizing c cells with
  | zero => exact ⟨c, rfl, h⟩
  | succ n ih =>
    cases cells with
    | nil => exact ⟨c, by simp only [take, h.next_nil]; rfl, h⟩
    | cons d rest =>
      obtain ⟨c₁, moved, behind⟩ := h.next_cons
      obtain ⟨c₂, taken, last⟩ := ih behind
      exact ⟨c₂, by simp only [take, moved, bind, Except.bind, taken]; rfl, last⟩

end Cursor

variable [BEq K] [Hashable K] {r : Registry K V} {cells : List (Cell K V)} {vacant : List Nat}

namespace Arranged

theorem cursor (h : Arranged r cells vacant) : r.cursor.Before cells :=
  ⟨h.first, h.size, none, h.linked⟩

theorem toList (h : Arranged r cells vacant) : r.toList = .ok (entriesOf cells) := by
  obtain ⟨c, taken, -⟩ := h.cursor.take_eq_ok (r.size + 1)
  rw [List.take_of_length_le (by rw [h.size]; exact Nat.le_succ _)] at taken
  simp only [Registry.toList, taken]
  rfl

theorem window (h : Arranged r cells vacant) (start size : Nat) :
    r.window start size = .ok (Listing.window (entriesOf cells) start size) := by
  obtain ⟨c₁, dropped, there⟩ := h.cursor.drop_eq_ok start
  obtain ⟨c₂, taken, -⟩ := there.take_eq_ok size
  simp only [Registry.window, dropped, bind, Except.bind, taken]
  simp only [Listing.window, entriesOf, List.map_drop, List.map_take]
  rfl

end Arranged

namespace Represents

variable {l : List (K × V)}

theorem toList (h : r.Represents l) : r.toList = .ok l := by
  obtain ⟨cells, vacant, laidOut, rfl⟩ := h
  exact laidOut.toArranged.toList

theorem window (h : r.Represents l) (start size : Nat) :
    r.window start size = .ok (Listing.window l start size) := by
  obtain ⟨cells, vacant, laidOut, rfl⟩ := h
  exact laidOut.toArranged.window start size

theorem iterate {σ : Type} (h : r.Represents l) (start size : Nat) (visit : σ → K → V → σ)
    (s : σ) :
    r.iterate start size visit s =
      .ok ((Listing.window l start size).foldl (fun s kv => visit s kv.1 kv.2) s) := by
  simp only [Registry.iterate, h.window]
  rfl

end Represents

end BrokerAdmin.Registry
