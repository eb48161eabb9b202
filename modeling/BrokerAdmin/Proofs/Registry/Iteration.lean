import BrokerAdmin.Proofs.Registry.Command

set_option autoImplicit false

/-!
Asking for entry after entry. A cursor gives the entries in order and then nothing, however often
it is asked, and what it announces at any time is the number of entries that it still gives.
-/

namespace BrokerAdmin.Registry

variable {K V σ : Type}

/-- The answers of a list to `n` questions: its entries as far as they go, and nothing behind. -/
def answersOf (l : List (K × V)) (n : Nat) : List (Option (K × V)) :=
  (l.take n).map some ++ List.replicate (n - l.length) none

section Answers

variable (l : List (K × V)) (e : K × V) (n : Nat)

@[simp] theorem answersOf_zero : answersOf l 0 = [] := by
  simp [answersOf]

@[simp] theorem answersOf_nil_succ :
    answersOf ([] : List (K × V)) (n + 1) = none :: answersOf [] n := by
  simp [answersOf, List.replicate_succ]

@[simp] theorem answersOf_cons_succ : answersOf (e :: l) (n + 1) = some e :: answersOf l n := by
  simp [answersOf]

theorem countP_answersOf : (answersOf l n).countP (·.isSome) = min n l.length := by
  have entries : ((l.take n).map some).countP (·.isSome) = (l.take n).length := by
    rw [List.countP_map]
    exact List.countP_eq_length.2 fun _ _ => rfl
  have nothing : (List.replicate (n - l.length) (none : Option (K × V))).countP (·.isSome) = 0 :=
    List.countP_replicate ..
  rw [answersOf, List.countP_append, entries, nothing, List.length_take, Nat.add_zero]

end Answers

namespace Cursor

/-- Asks for the next entry. At the end there is none, and the cursor stays where it is. -/
def ask (c : Cursor K V) : Except Fault (Option (K × V) × Cursor K V) := do
  match ← c.next with
  | none => return (none, c)
  | some (kv, c) => return (some kv, c)

def askTimes : Nat → Cursor K V → Except Fault (List (Option (K × V)) × Cursor K V)
  | 0, c => .ok ([], c)
  | n + 1, c => do
    let (answer, c) ← c.ask
    let (answers, c) ← askTimes n c
    return (answer :: answers, c)

namespace Before

variable {c : Cursor K V} {cells : List (Cell K V)}

theorem ask_nil (h : Before c []) : c.ask = .ok (none, c) := by
  simp only [ask, h.next_nil]
  rfl

theorem ask_cons {d : Cell K V} (h : Before c (d :: cells)) :
    ∃ c', c.ask = .ok (some (d.key, d.value), c') ∧ Before c' cells := by
  obtain ⟨c', moved, behind⟩ := h.next_cons
  refine ⟨c', ?_, behind⟩
  simp only [ask, moved]
  rfl

theorem askTimes (h : Before c cells) (n : Nat) :
    ∃ c', askTimes n c = .ok (answersOf (entriesOf cells) n, c') ∧ Before c' (cells.drop n) := by
  induction n generalizing c cells with
  | zero =>
    rw [answersOf_zero]
    exact ⟨c, rfl, h⟩
  | succ n ih =>
    cases cells with
    | nil =>
      obtain ⟨c', asked, last⟩ := ih h
      rw [List.drop_nil] at last
      refine ⟨c', ?_, last⟩
      rw [entriesOf_nil, answersOf_nil_succ]
      simp only [Cursor.askTimes, h.ask_nil, bind, Except.bind, asked, entriesOf_nil]
      rfl
    | cons d rest =>
      obtain ⟨c₁, moved, behind⟩ := h.ask_cons
      obtain ⟨c₂, asked, last⟩ := ih behind
      refine ⟨c₂, ?_, last⟩
      rw [entriesOf_cons, answersOf_cons_succ]
      simp only [Cursor.askTimes, moved, bind, Except.bind, asked]
      rfl

theorem sizeHint (h : Before c cells) : c.sizeHint = (cells.length, some cells.length) := by
  rw [Cursor.sizeHint, h.remaining]

end Before

end Cursor

/-- A cursor of a registry that lists `l`, once it has been asked `n` times. -/
structure Iterates [BEq K] [Hashable K] (r : Registry K V) (l : List (K × V)) (n : Nat)
    (c : Cursor K V) : Prop where
  asked : r.cursor.askTimes n = .ok (answersOf l n, c)
  sizeHint : c.sizeHint = (l.length - min n l.length, some (l.length - min n l.length))
  later : ∀ k, ∃ c', c.askTimes k = .ok (answersOf (l.drop n) k, c') ∧
    (answersOf (l.drop n) k).countP (·.isSome) = min k c.sizeHint.1

variable [BEq K] [Hashable K]

theorem Represents.exists_iterates {r : Registry K V} {l : List (K × V)} (h : r.Represents l)
    (n : Nat) : ∃ c, Iterates r l n c := by
  obtain ⟨cells, vacant, laidOut, rfl⟩ := h
  obtain ⟨c, asked, there⟩ := laidOut.toArranged.cursor.askTimes n
  have left :
      (entriesOf cells).length - min n (entriesOf cells).length = (cells.drop n).length := by
    rw [length_entriesOf, List.length_drop]
    omega
  have hint : c.sizeHint = ((cells.drop n).length, some (cells.drop n).length) := there.sizeHint
  have entries : entriesOf (cells.drop n) = (entriesOf cells).drop n := List.map_drop
  refine ⟨c, asked, by rw [hint, left], fun k => ?_⟩
  obtain ⟨c', askedAgain, -⟩ := there.askTimes k
  rw [entries] at askedAgain
  refine ⟨c', askedAgain, ?_⟩
  rw [countP_answersOf, hint, ← entries, length_entriesOf]

variable [EquivBEq K] [LawfulHashable K]

/-- A cursor of any registry that commands lead to gives what the commands leave listed. -/
theorem iterates_of_performAll (cs : List (Command K V σ)) : ∃ answers r,
    Command.performAll ∅ cs = .ok (answers, r) ∧ r.size = (Command.allOnListing [] cs).2.length ∧
      ∀ n, ∃ c, Iterates r (Command.allOnListing [] cs).2 n c := by
  obtain ⟨r, done, represents⟩ := Command.performAll_represents Represents.empty cs
  exact ⟨_, r, done, represents.size, represents.exists_iterates⟩

/-- The first entry has been removed, and another key stands in its slot. -/
theorem iterates_of_performAll_reused : ∃ answers r, Command.performAll ∅ ([
      .set "a" 1, .set "b" 2, .set "c" 3, .erase "a", .set "d" 4, .set "b" 5,
      .filter fun _ v => v ≠ 3] : List (Command String Nat Unit)) = .ok (answers, r) ∧
    r.size = 2 ∧ ∀ n, ∃ c, Iterates r [("b", 5), ("d", 4)] n c :=
  iterates_of_performAll _

end BrokerAdmin.Registry
