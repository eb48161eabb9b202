import BrokerAdmin.Proofs.Registry.WellFormed

set_option autoImplicit false

/-!
What a sweep asks of its judge. A judge that keeps a record of its calls shows that each entry is
asked about once, in order, with the value that it has and the state that the call before left.
What becomes of an entry is settled by its own call alone; when a call aborts the sweep, the entries
behind are not asked about and stay.
-/

namespace BrokerAdmin.Registry

/-- One question to a judge: an entry, and the state in which the judge meets it. -/
structure Call (K V σ : Type) where
  state : σ
  key : K
  value : V
  deriving DecidableEq, Repr

variable {K V σ τ : Type}

namespace Call

variable (judge : σ → K → V → σ × Verdict V) (c : Call K V σ)

def entry : K × V := (c.key, c.value)

def verdict : Verdict V := (judge c.state c.key c.value).2

def drops : Bool :=
  match c.verdict judge with
  | .drop => true
  | _ => false

def aborts : Bool :=
  match c.verdict judge with
  | .abort _ => true
  | _ => false

/-- The entry with the value that the judge has given it, unless it is dropped. -/
def left? : Option (K × V) :=
  match c.verdict judge with
  | .keep v | .abort v => some (c.key, v)
  | .drop => none

variable {judge c}

theorem drops_of_aborts (aborts : c.aborts judge = true) : c.drops judge = false := by
  cases said : c.verdict judge with
  | abort v => rw [drops, said]
  | _ =>
    rw [Call.aborts, said] at aborts
    cases aborts

theorem left?_eq_none (drops : c.drops judge = true) : c.left? judge = none := by
  cases said : c.verdict judge with
  | drop => rw [left?, said]
  | _ =>
    rw [Call.drops, said] at drops
    cases drops

theorem exists_left? (stays : c.drops judge = false) : ∃ v, c.left? judge = some (c.key, v) := by
  cases said : c.verdict judge with
  | drop =>
    rw [drops, said] at stays
    cases stays
  | keep v => exact ⟨v, by rw [left?, said]⟩
  | abort v => exact ⟨v, by rw [left?, said]⟩

theorem key_of_left? {e : K × V} (left : c.left? judge = some e) : e.1 = c.key := by
  cases said : c.verdict judge with
  | drop =>
    rw [left?, said] at left
    cases left
  | _ =>
    rw [left?, said] at left
    cases left
    rfl

end Call

variable (judge : σ → K → V → σ × Verdict V)

/-- The judge, which now also keeps a record of its calls. -/
def recording (s : σ × List (Call K V σ)) (k : K) (v : V) :
    (σ × List (Call K V σ)) × Verdict V :=
  (((judge s.1 k v).1, s.2 ++ [⟨s.1, k, v⟩]), (judge s.1 k v).2)

/-- The first call meets the judge in state `s`, every other one in the state that the call before
it left, and the last one leaves `t`. -/
def HandsOn (s : σ) (calls : List (Call K V σ)) (t : σ) : Prop :=
  match calls with
  | [] => s = t
  | c :: calls => c.state = s ∧ HandsOn (judge c.state c.key c.value).1 calls t

/-- A sweep over `all` makes these calls, one for each entry in front of `rest`, and leaves `left`.
It drops what it was told to drop and changes values as it was told. Only an abort keeps it from
asking about every entry, and it comes from the last call. -/
structure Judges (s : σ) (all : List (K × V)) (calls : List (Call K V σ)) (rest : List (K × V))
    (left : List (K × V)) (t : σ) (removed : Nat) (aborted : Bool) : Prop where
  asked : all = calls.map Call.entry ++ rest
  states : HandsOn judge s calls t
  left : left = calls.filterMap (·.left? judge) ++ rest
  removed : removed = calls.countP (·.drops judge)
  finished : aborted = false → rest = [] ∧ ∀ c ∈ calls, c.aborts judge = false
  stopped : aborted = true → ∃ earlier last, calls = earlier ++ [last] ∧
    last.aborts judge = true ∧ ∀ c ∈ earlier, c.aborts judge = false

namespace Judges

variable {judge} {s t : σ} {all left rest : List (K × V)} {calls : List (Call K V σ)}
  {c : Call K V σ} {removed : Nat} {aborted : Bool}

theorem nil (s : σ) : Judges judge s [] [] [] [] s 0 false :=
  ⟨rfl, rfl, rfl, rfl, fun _ => ⟨rfl, by simp⟩, fun h => nomatch h⟩

/-- A call that aborts is the last one, and the entries behind its own stay as they are. -/
theorem stop (aborts : c.aborts judge = true) (rest : List (K × V)) :
    Judges judge c.state (c.entry :: rest) [c] rest ((c.left? judge).toList ++ rest)
      (judge c.state c.key c.value).1 0 true where
  asked := rfl
  states := ⟨rfl, rfl⟩
  left := by
    rw [List.filterMap_cons]
    cases c.left? judge <;> rfl
  removed := by
    rw [List.countP_singleton, Call.drops_of_aborts aborts]
    rfl
  finished h := nomatch h
  stopped _ := ⟨[], c, rfl, aborts, by simp⟩

/-- A call that does not abort settles its own entry, and the sweep goes on with the next. -/
theorem go (goes : c.aborts judge = false)
    (h : Judges judge (judge c.state c.key c.value).1 all calls rest left t removed aborted) :
    Judges judge c.state (c.entry :: all) (c :: calls) rest ((c.left? judge).toList ++ left) t
      (removed + if c.drops judge then 1 else 0) aborted where
  asked := by rw [h.asked, List.map_cons, List.cons_append]
  states := ⟨rfl, h.states⟩
  left := by
    rw [h.left, List.filterMap_cons]
    cases c.left? judge <;> rfl
  removed := by rw [h.removed, List.countP_cons]
  finished done := by
    obtain ⟨none, others⟩ := h.finished done
    exact ⟨none, List.forall_mem_cons.2 ⟨goes, others⟩⟩
  stopped done := by
    obtain ⟨earlier, last, rfl, stops, others⟩ := h.stopped done
    exact ⟨c :: earlier, last, rfl, stops, List.forall_mem_cons.2 ⟨goes, others⟩⟩

end Judges

section Steps

variable {judge} {c : Call K V σ}

theorem sweep_of_aborts (aborts : c.aborts judge = true) (l : List (K × V)) :
    Listing.sweep judge (c.entry :: l) c.state =
      ((c.left? judge).toList ++ l, (judge c.state c.key c.value).1, 0, true) := by
  rcases judged : judge c.state c.key c.value with ⟨state, v | _ | v⟩
  case abort =>
    simp only [Call.entry, Listing.sweep, Call.left?, Call.verdict, judged]
    rfl
  all_goals simp [Call.aborts, Call.verdict, judged] at aborts

theorem sweep_of_goes (goes : c.aborts judge = false) (l : List (K × V)) :
    Listing.sweep judge (c.entry :: l) c.state =
      ((c.left? judge).toList ++ (Listing.sweep judge l (judge c.state c.key c.value).1).1,
        (Listing.sweep judge l (judge c.state c.key c.value).1).2.1,
        (Listing.sweep judge l (judge c.state c.key c.value).1).2.2.1 +
          (if c.drops judge then 1 else 0),
        (Listing.sweep judge l (judge c.state c.key c.value).1).2.2.2) := by
  rcases judged : judge c.state c.key c.value with ⟨state, v | _ | v⟩
  case abort => simp [Call.aborts, Call.verdict, judged] at goes
  all_goals
    simp only [Call.entry, Listing.sweep, Call.left?, Call.drops, Call.verdict, judged]
    rfl

end Steps

/-- Keeping a record changes nothing else, and the record is of the calls that the sweep makes. -/
theorem sweep_recording (l : List (K × V)) (s : σ) (log : List (Call K V σ)) :
    ∃ calls rest, Judges judge s l calls rest (Listing.sweep judge l s).1
        (Listing.sweep judge l s).2.1 (Listing.sweep judge l s).2.2.1
        (Listing.sweep judge l s).2.2.2 ∧
      Listing.sweep (recording judge) l (s, log) = ((Listing.sweep judge l s).1,
        ((Listing.sweep judge l s).2.1, log ++ calls), (Listing.sweep judge l s).2.2) := by
  induction l generalizing s log with
  | nil => exact ⟨[], [], .nil s, by simp [Listing.sweep]⟩
  | cons e l ih =>
    let c : Call K V σ := ⟨s, e.1, e.2⟩
    let withLog : Call K V (σ × List (Call K V σ)) := ⟨(s, log), e.1, e.2⟩
    change ∃ calls rest, Judges judge c.state (c.entry :: l) calls rest _ _ _ _ ∧
      Listing.sweep (recording judge) (withLog.entry :: l) withLog.state = _
    cases verdict : c.aborts judge with
    | true =>
      have same : withLog.aborts (recording judge) = true := verdict
      have plain : Listing.sweep judge (e :: l) s = _ := sweep_of_aborts verdict l
      rw [sweep_of_aborts same, plain]
      exact ⟨[c], l, .stop verdict l, rfl⟩
    | false =>
      have same : withLog.aborts (recording judge) = false := verdict
      have plain : Listing.sweep judge (e :: l) s = _ := sweep_of_goes verdict l
      obtain ⟨calls, rest, judges, recorded⟩ := ih (judge c.state c.key c.value).1 (log ++ [c])
      have later : Listing.sweep (recording judge) l
        (recording judge withLog.state withLog.key withLog.value).1 = _ := recorded
      rw [sweep_of_goes same, plain, later, List.append_assoc]
      exact ⟨c :: calls, rest, .go verdict judges, rfl⟩

section Keys

variable [BEq K] {judge} {calls : List (Call K V σ)} {rest : List (K × V)} {k : K}

theorem unknown_left (h : Listing.Unknown (calls.map Call.entry) k) :
    Listing.Unknown (calls.filterMap (·.left? judge)) k := by
  intro e he
  obtain ⟨c, hc, left⟩ := List.mem_filterMap.1 he
  rw [Call.key_of_left? left]
  exact h c.entry (List.mem_map_of_mem hc)

/-- A key is missing behind a sweep if it was missing before or its own entry was dropped. -/
theorem unknown_left_iff [EquivBEq K] (distinct : Listing.Distinct (calls.map Call.entry ++ rest)) :
    Listing.Unknown (calls.filterMap (·.left? judge) ++ rest) k ↔
      Listing.Unknown (calls.map Call.entry ++ rest) k ∨
        ∃ c ∈ calls, c.drops judge = true ∧ (c.key == k) = true := by
  constructor
  · intro unknown
    obtain ⟨left, behind⟩ := Listing.unknown_append.1 unknown
    by_cases dropped : ∃ c ∈ calls, c.drops judge = true ∧ (c.key == k) = true
    · exact .inr dropped
    · refine .inl (Listing.unknown_append.2 ⟨fun e he => ?_, behind⟩)
      obtain ⟨c, hc, rfl⟩ := List.mem_map.1 he
      cases drops : c.drops judge with
      | true => exact Bool.not_eq_true _ ▸ fun own => dropped ⟨c, hc, drops, own⟩
      | false =>
        obtain ⟨v, stays⟩ := Call.exists_left? drops
        exact left (c.key, v) (List.mem_filterMap.2 ⟨c, hc, stays⟩)
  · rintro (unknown | ⟨c, hc, drops, own⟩)
    · obtain ⟨asked, behind⟩ := Listing.unknown_append.1 unknown
      exact Listing.unknown_append.2 ⟨unknown_left asked, behind⟩
    · obtain ⟨xs, ys, rfl⟩ := List.append_of_mem hc
      rw [List.map_append, List.map_cons, List.append_assoc, List.cons_append] at distinct
      obtain ⟨inFront, around⟩ := distinct.unknown_of_append_cons own
      obtain ⟨behind, last⟩ := Listing.unknown_append.1 around
      rw [List.filterMap_append, List.filterMap_cons_none (Call.left?_eq_none drops)]
      exact Listing.unknown_append.2
        ⟨Listing.unknown_append.2 ⟨unknown_left inFront, unknown_left behind⟩, last⟩

theorem Judges.missing_left_iff [EquivBEq K] {s t : σ} {all left : List (K × V)} {removed : Nat}
    {aborted : Bool} (h : Judges judge s all calls rest left t removed aborted)
    (distinct : Listing.Distinct all) :
    Listing.contains left k = false ↔ Listing.contains all k = false ∨
      ∃ c ∈ calls, c.drops judge = true ∧ (c.key == k) = true := by
  rw [Listing.contains_eq_false_iff, Listing.contains_eq_false_iff, h.left, h.asked]
  rw [h.asked] at distinct
  exact unknown_left_iff distinct

end Keys

section Registries

variable [BEq K] [Hashable K]

def Sweep.withState (o : Sweep K V σ) (state : τ) : Sweep K V τ :=
  ⟨o.registry, state, o.removed, o.aborted⟩

theorem map_sweepFrom_recording (fuel : Nat) (i : Option Nat) (s : Sweep K V σ)
    (log : List (Call K V σ)) :
    (sweepFrom (recording judge) fuel i (s.withState (s.state, log))).map
      (fun o => o.withState o.state.1) = sweepFrom judge fuel i s := by
  induction fuel generalizing i s log with
  | zero => cases i <;> rfl
  | succ fuel ih =>
    cases i with
    | none => rfl
    | some i =>
      rw [sweepFrom, sweepFrom]
      simp only [Sweep.withState, recording, bind, Except.bind]
      cases found : entryIn s.registry.slots i with
      | error fault => rfl
      | ok e =>
        rcases judged : judge s.state e.key e.value with ⟨state, v | _ | v⟩
        case keep =>
          simp only [judged]
          cases s.registry.modifyEntry i fun e => { e with value := v } with
          | error fault => rfl
          | ok registry => exact ih e.after { s with registry, state } _
        case drop =>
          simp only [judged]
          cases s.registry.detach i with
          | error fault => rfl
          | ok detached =>
            exact ih e.after { s with
              registry := { detached.2 with index := detached.2.index.erase e.key }
              state, removed := s.removed + 1 } _
        case abort =>
          simp only [judged]
          cases s.registry.modifyEntry i fun e => { e with value := v } <;> rfl

theorem sweep_of_recording {r : Registry K V} {s : σ} {o : Sweep K V (σ × List (Call K V σ))}
    (done : r.sweep (recording judge) (s, []) = .ok o) :
    r.sweep judge s = .ok (o.withState o.state.1) := by
  have same := map_sweepFrom_recording judge r.slots.size r.first
    { registry := r, state := s } []
  rw [Registry.sweep] at done
  rw [Registry.sweep, ← same]
  exact congrArg (Except.map _) done

variable [EquivBEq K] [LawfulHashable K] {judge}

/-- The sweep of a registry that lists `all`, as told by a judge that keeps a record: it ends, the
registry that it leaves is sound and lists what the calls leave, and of all keys it forgets exactly
those of the entries that were dropped. -/
structure Sweeps (judge : σ → K → V → σ × Verdict V) (s : σ) (r : Registry K V)
    (all : List (K × V)) (o : Sweep K V σ) (calls : List (Call K V σ)) : Prop where
  done : r.sweep judge s = .ok o
  recorded : r.sweep (recording judge) (s, []) = .ok (o.withState (o.state, calls))
  judges : ∃ rest left, Judges judge s all calls rest left o.state o.removed o.aborted ∧
    o.registry.toList = .ok left
  sound : o.registry.Sound
  forgotten : ∀ k, o.registry.contains k = false ↔
    r.contains k = false ∨ ∃ c ∈ calls, c.drops judge = true ∧ (c.key == k) = true

theorem Represents.exists_sweeps {r : Registry K V} {l : List (K × V)} (h : r.Represents l)
    (judge : σ → K → V → σ × Verdict V) (s : σ) : ∃ o calls, Sweeps judge s r l o calls := by
  obtain ⟨r', done, after⟩ := h.sweep (recording judge) (s, [])
  obtain ⟨calls, rest, judges, recorded⟩ := Registry.sweep_recording judge l s []
  rw [recorded] at done after
  refine ⟨_, calls, sweep_of_recording judge done, done, ⟨rest, _, judges, after.toList⟩,
    after.sound, fun k => ?_⟩
  change r'.contains k = false ↔ _
  rw [after.contains, h.contains]
  exact judges.missing_left_iff h.distinct

end Registries

/-- What a sweep over any registry that commands lead to asks of its judge, and what it leaves. -/
theorem sweeps_of_performAll [BEq K] [Hashable K] [EquivBEq K] [LawfulHashable K]
    (cs : List (Command K V σ)) (judge : τ → K → V → τ × Verdict V) (s : τ) :
    ∃ answers r l, Command.performAll ∅ cs = .ok (answers, r) ∧ r.toList = .ok l ∧
      Listing.Distinct l ∧ ∃ o calls, Sweeps judge s r l o calls := by
  obtain ⟨r, done, represents⟩ := Command.performAll_represents Represents.empty cs
  exact ⟨_, r, _, done, represents.toList, represents.distinct, represents.exists_sweeps judge s⟩

/-- A sweep that drops the first entry, changes the next and aborts at the one behind it. -/
theorem sweeps_of_performAll_aborted :
    let judge := fun (seen : List String) (k : String) (v : Nat) =>
      (seen ++ [k], if v = 1 then .drop else if v = 4 then .abort 40 else .keep (v + 10))
    let cs : List (Command String Nat Unit) :=
      [.set "a" 1, .set "b" 2, .set "c" 3, .erase "b", .set "d" 4, .set "e" 5]
    ∃ answers r l, Command.performAll ∅ cs = .ok (answers, r) ∧ r.toList = .ok l ∧
      Listing.Distinct l ∧ ∃ o calls, Sweeps judge [] r l o calls ∧
        o.state = ["a", "c", "d"] ∧ o.removed = 1 ∧ o.aborted = true ∧
        o.registry.toList = .ok [("c", 13), ("d", 40), ("e", 5)] := by
  intro judge cs
  obtain ⟨answers, r, l, done, lists, distinct, o, calls, sweeps⟩ :=
    sweeps_of_performAll cs judge []
  obtain ⟨r', done', represents⟩ := Command.performAll_represents Represents.empty cs
  cases done.symm.trans done'
  obtain ⟨left, ended, after⟩ := represents.sweep judge []
  cases sweeps.done.symm.trans ended
  exact ⟨_, _, l, done, lists, distinct, _, calls, sweeps, rfl, rfl, rfl, after.toList⟩

end BrokerAdmin.Registry
