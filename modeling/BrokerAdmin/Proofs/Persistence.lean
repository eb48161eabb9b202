import BrokerAdmin.Persistence
import BrokerAdmin.Proofs.Listing.History

set_option autoImplicit false

/-!
Building the backend that the settings name. Factories and backends act on a world of any kind, and
each call on them may fail. A build reaches the factory that was registered last under the name and
the backend it creates, each at most once and in this order, and no other. A record of the calls is
kept in a second world beside the first, which shows nothing else of it.
-/

namespace BrokerAdmin

variable {σ α : Type}

/-- What comes of a computation in a world, and what it makes of the world. -/
def outcomeIn (w : σ) (x : ExceptT PersistenceError (StateM σ) α) : Except PersistenceError α × σ :=
  Id.run (x.run.run w)

theorem outcomeIn_bind {β : Type} (w : σ) (x : ExceptT PersistenceError (StateM σ) α)
    (g : α → ExceptT PersistenceError (StateM σ) β) :
    outcomeIn w (x >>= g) = match outcomeIn w x with
      | (.ok a, w) => outcomeIn w (g a)
      | (.error e, w) => (.error e, w) := by
  simp only [outcomeIn, ExceptT.run_bind, StateT.run_bind, Id.run_bind]
  rcases Id.run (x.run.run w) with ⟨_ | _, _⟩ <;> rfl

/-- What comes of work that logs, and what it makes of the world. -/
def loggedIn (w : σ) (x : StateM σ (Except PersistenceError α × List LogEvent)) :
    (Except PersistenceError α × List LogEvent) × σ :=
  Id.run (x.run w)

theorem loggedIn_silent_bind {β : Type} (w : σ) (x : ExceptT PersistenceError (StateM σ) α)
    (g : α → LoggedWork (StateM σ) β) :
    loggedIn w (LoggedWork.outcome (LoggedWork.silent x >>= g)) = match outcomeIn w x with
      | (.ok a, w) => loggedIn w (LoggedWork.outcome (g a))
      | (.error e, w) => ((.error e, []), w) := by
  simp only [loggedIn, outcomeIn, LoggedWork.outcome, LoggedWork.silent, ExceptT.run_bind,
    ExceptT.run_mk, StateT.run_bind, StateT.run_lift, Id.run_bind]
  rcases Id.run (x.run.run w) with ⟨_ | _, _⟩ <;> rfl

/-- A call on a factory or on a backend of it. Factories go by their places in a history. -/
inductive BackendCall where
  | create (place : Nat) (settings : Settings) (hooks : Listener)
  | start (place : Nat)
  | newQueue (place : Nat) (settings : Settings) (connection : Connection)

def noting (call : BackendCall) (x : ExceptT PersistenceError (StateM σ) α) :
    ExceptT PersistenceError (StateM (σ × List BackendCall)) α :=
  .mk do
    let (w, calls) ← get
    let (a, w) := outcomeIn w x
    set (w, calls ++ [call])
    return a

theorem outcomeIn_noting (call : BackendCall) (x : ExceptT PersistenceError (StateM σ) α) (w : σ)
    (calls : List BackendCall) : outcomeIn (w, calls) (noting call x) =
      ((outcomeIn w x).1, ((outcomeIn w x).2, calls ++ [call])) := rfl

namespace Backend

def noting (place : Nat) (b : Backend (StateM σ)) : Backend (StateM (σ × List BackendCall)) where
  start := BrokerAdmin.noting (.start place) b.start
  newQueue settings connection :=
    BrokerAdmin.noting (.newQueue place settings connection) (b.newQueue settings connection)

end Backend

namespace Factory

def noting (place : Nat) (f : Factory (StateM σ)) :
    Factory (StateM (σ × List BackendCall)) where
  create settings hooks := do
    let b ← BrokerAdmin.noting (.create place settings hooks) (f.create settings hooks)
    return b.noting place

end Factory

theorem Factory.outcomeIn_create_noting (f : Factory (StateM σ)) (place : Nat) (settings : Settings)
    (hooks : Listener) (w : σ) (calls : List BackendCall) :
    outcomeIn (w, calls) ((f.noting place).create settings hooks) =
      ((outcomeIn w (f.create settings hooks)).1.map (·.noting place),
        ((outcomeIn w (f.create settings hooks)).2,
          calls ++ [.create place settings hooks])) := by
  simp only [Factory.noting, outcomeIn_bind, outcomeIn_noting]
  rcases outcomeIn w (f.create settings hooks) with ⟨_ | _, _⟩ <;> rfl

namespace FactoryTable

inductive Command (σ : Type) where
  | register (name : String) (f : Factory (StateM σ))
  | build (settings : Settings) (hooks : Listener)

namespace Command

def perform (t : FactoryTable (StateM σ)) (w : σ) : Command σ → FactoryTable (StateM σ) × σ
  | register name f => ((t.register name f).state, w)
  | build settings hooks => (t, (loggedIn w (t.build settings hooks)).2)

def noting (place : Nat) : Command σ → Command (σ × List BackendCall)
  | register name f => .register name (f.noting place)
  | build settings hooks => .build settings hooks

end Command

def performAll (w : σ) (cs : List (Command σ)) : FactoryTable (StateM σ) × σ :=
  cs.foldl (fun s c => c.perform s.1 s.2) ({}, w)

theorem performAll_concat (w : σ) (cs : List (Command σ)) (c : Command σ) :
    performAll w (cs ++ [c]) = c.perform (performAll w cs).1 (performAll w cs).2 := by
  simp [performAll]

def RegisteredAt (cs : List (Command σ)) (name : String) (n : Nat) (f : Factory (StateM σ)) :
    Prop :=
  cs[n]? = some (.register name f)

/-- At place `n` the factory is registered under the name, and behind that place no other is. -/
def LatestAt (cs : List (Command σ)) (name : String) (n : Nat) (f : Factory (StateM σ)) : Prop :=
  RegisteredAt cs name n f ∧ ∀ m g, n < m → ¬ RegisteredAt cs name m g

section Contents

variable {cs : List (Command σ)} {c : Command σ} {name : String} {n : Nat} {f : Factory (StateM σ)}

theorem registeredAt_concat_iff : RegisteredAt (cs ++ [c]) name n f ↔
    RegisteredAt cs name n f ∨ n = cs.length ∧ c = .register name f :=
  Listing.getElem?_concat_eq_some

theorem RegisteredAt.lt_length (h : RegisteredAt cs name n f) : n < cs.length :=
  Listing.lt_length_of_getElem?_eq_some h

theorem latestAt_concat_iff : LatestAt (cs ++ [c]) name n f ↔
    LatestAt cs name n f ∧ (∀ g, c ≠ .register name g) ∨ n = cs.length ∧ c = .register name f := by
  simp only [LatestAt, registeredAt_concat_iff]
  constructor
  · rintro ⟨earlier | last, latest⟩
    · refine .inl ⟨⟨earlier, fun m g later there => latest m g later (.inl there)⟩, fun g new => ?_⟩
      exact latest cs.length g earlier.lt_length (.inr ⟨rfl, new⟩)
    · exact .inr last
  · rintro (⟨⟨earlier, latest⟩, other⟩ | ⟨rfl, new⟩)
    · refine ⟨.inl earlier, fun m g later => ?_⟩
      rintro (there | ⟨-, new⟩)
      · exact latest m g later there
      · exact other g new
    · refine ⟨.inr ⟨rfl, new⟩, fun m g later => ?_⟩
      rintro (there | ⟨rfl, -⟩)
      · exact Nat.lt_asymm later there.lt_length
      · exact Nat.lt_irrefl _ later

theorem exists_latestAt (h : RegisteredAt cs name n f) : ∃ m g, LatestAt cs name m g := by
  induction cs using List.reverseRecOn generalizing n f with
  | nil => cases h
  | append_singleton cs c ih =>
    simp only [latestAt_concat_iff]
    by_cases last : ∃ g, c = .register name g
    · obtain ⟨g, last⟩ := last
      exact ⟨cs.length, g, .inr ⟨rfl, last⟩⟩
    · rcases registeredAt_concat_iff.1 h with earlier | ⟨-, new⟩
      · obtain ⟨m, g, latest⟩ := ih earlier
        exact ⟨m, g, .inl ⟨latest, fun g new => last ⟨g, new⟩⟩⟩
      · exact absurd ⟨f, new⟩ last

theorem LatestAt.unique {m : Nat} {g : Factory (StateM σ)} (h : LatestAt cs name n f)
    (h' : LatestAt cs name m g) : f = g := by
  rcases Nat.lt_trichotomy n m with lt | rfl | gt
  · exact absurd h'.1 (h.2 m g lt)
  · cases Option.some.inj (h.1.symm.trans h'.1)
    rfl
  · exact absurd h.1 (h'.2 n f gt)

theorem factories_performAll (w : σ) (cs : List (Command σ)) (name : String)
    (f : Factory (StateM σ)) :
    (performAll w cs).1.factories[name]? = some f ↔ ∃ n, LatestAt cs name n f := by
  induction cs using List.reverseRecOn with
  | nil => simp [performAll, LatestAt, RegisteredAt]
  | append_singleton cs c ih =>
    rw [performAll_concat]
    simp only [latestAt_concat_iff]
    cases c with
    | build settings hooks => simp [Command.perform, ih]
    | register other g =>
      simp only [Command.perform, FactoryTable.register, Std.HashMap.getElem?_insert]
      by_cases own : other = name
      · simp [own]
      · simp [own, ih]

theorem LatestAt.found (h : LatestAt cs name n f) (w : σ) :
    (performAll w cs).1.factories[name]? = some f :=
  (factories_performAll w cs name f).2 ⟨n, h⟩

theorem factories_performAll_eq_none (w : σ) (never : ∀ n f, ¬ RegisteredAt cs name n f) :
    (performAll w cs).1.factories[name]? = none := by
  apply Option.eq_none_iff_forall_ne_some.2
  intro f found
  obtain ⟨n, latest⟩ := (factories_performAll w cs name f).1 found
  exact never n f latest.1

theorem contains_performAll_iff (w : σ) :
    (performAll w cs).1.contains name = true ↔ ∃ n f, RegisteredAt cs name n f := by
  rw [contains, Std.HashMap.contains_eq_isSome_getElem?, Option.isSome_iff_exists]
  simp only [factories_performAll]
  constructor
  · rintro ⟨f, n, latest⟩
    exact ⟨n, f, latest.1⟩
  · rintro ⟨n, f, there⟩
    obtain ⟨m, g, latest⟩ := exists_latestAt there
    exact ⟨g, m, latest⟩

/-- The same commands in a world with a record, each factory with its place. -/
def notingAll (cs : List (Command σ)) : List (Command (σ × List BackendCall)) :=
  cs.mapIdx fun n c => c.noting n

theorem registeredAt_notingAll_iff {f' : Factory (StateM (σ × List BackendCall))} :
    RegisteredAt (notingAll cs) name n f' ↔ ∃ f, RegisteredAt cs name n f ∧ f.noting n = f' := by
  rw [RegisteredAt, notingAll, List.getElem?_mapIdx, Option.map_eq_some_iff]
  constructor
  · rintro ⟨c, there, noted⟩
    cases c with
    | register other f =>
      cases noted
      exact ⟨f, there, rfl⟩
    | build settings hooks => cases noted
  · rintro ⟨f, there, rfl⟩
    exact ⟨_, there, rfl⟩

theorem LatestAt.noting (h : LatestAt cs name n f) :
    LatestAt (notingAll cs) name n (f.noting n) := by
  refine ⟨registeredAt_notingAll_iff.2 ⟨f, h.1, rfl⟩, fun m g' later there => ?_⟩
  obtain ⟨g, there, -⟩ := registeredAt_notingAll_iff.1 there
  exact h.2 m g later there

end Contents

section Build

variable {t : FactoryTable (StateM σ)} {settings : Settings} {hooks : Listener}
  {f : Factory (StateM σ)} {b : Backend (StateM σ)} {e : PersistenceError} {w w₁ w₂ : σ}

theorem build_of_unknown (missing : t.factories[settings.persistence.backend]? = none)
    (hooks : Listener) (w : σ) :
    loggedIn w (t.build settings hooks) =
      ((.error (.unknownBackend settings.persistence.backend), []), w) := by
  simp only [build, missing]
  rfl

variable (found : t.factories[settings.persistence.backend]? = some f)

include found

theorem build_of_not_created (failed : outcomeIn w (f.create settings hooks) = (.error e, w₁)) :
    loggedIn w (t.build settings hooks) = ((.error e, []), w₁) := by
  simp only [build, found, loggedIn_silent_bind, failed]

variable (created : outcomeIn w (f.create settings hooks) = (.ok b, w₁))

include created

theorem build_of_not_started (failed : outcomeIn w₁ b.start = (.error e, w₂)) :
    loggedIn w (t.build settings hooks) = ((.error e, []), w₂) := by
  simp only [build, found, loggedIn_silent_bind, created, failed]

theorem build_of_started (started : outcomeIn w₁ b.start = (.ok (), w₂)) :
    loggedIn w (t.build settings hooks) =
      ((.ok b, [.backendOpened settings.persistence.backend]), w₂) := by
  simp only [build, found, loggedIn_silent_bind, created, started]
  rfl

end Build

/-- The ways in which a build goes after the commands: what it gives, what it logs, which calls it
makes, and the world it leaves. -/
inductive BuildsTo (cs : List (Command σ)) (settings : Settings) (hooks : Listener) (w : σ) :
    Except PersistenceError (Backend (StateM σ)) → List LogEvent → List BackendCall → σ → Prop where
  | unknown (never : ∀ n f, ¬ RegisteredAt cs settings.persistence.backend n f) :
      BuildsTo cs settings hooks w (.error (.unknownBackend settings.persistence.backend)) [] [] w
  | notCreated {n : Nat} {f : Factory (StateM σ)} {e : PersistenceError} {w₁ : σ}
      (latest : LatestAt cs settings.persistence.backend n f)
      (failed : outcomeIn w (f.create settings hooks) = (.error e, w₁)) :
      BuildsTo cs settings hooks w (.error e) [] [.create n settings hooks] w₁
  | notStarted {n : Nat} {f : Factory (StateM σ)} {b : Backend (StateM σ)} {e : PersistenceError}
      {w₁ w₂ : σ} (latest : LatestAt cs settings.persistence.backend n f)
      (created : outcomeIn w (f.create settings hooks) = (.ok b, w₁))
      (failed : outcomeIn w₁ b.start = (.error e, w₂)) :
      BuildsTo cs settings hooks w (.error e) [] [.create n settings hooks, .start n] w₂
  | started {n : Nat} {f : Factory (StateM σ)} {b : Backend (StateM σ)} {w₁ w₂ : σ}
      (latest : LatestAt cs settings.persistence.backend n f)
      (created : outcomeIn w (f.create settings hooks) = (.ok b, w₁))
      (started : outcomeIn w₁ b.start = (.ok (), w₂)) :
      BuildsTo cs settings hooks w (.ok b) [.backendOpened settings.persistence.backend]
        [.create n settings hooks, .start n] w₂

namespace BuildsTo

variable {cs : List (Command σ)} {settings : Settings} {hooks : Listener} {w w' : σ}
  {log : List LogEvent} {calls : List BackendCall}
  {result : Except PersistenceError (Backend (StateM σ))}

/-- A factory may itself say that the backend is unknown, but then it has been called. -/
theorem unknown_iff (h : BuildsTo cs settings hooks w result log calls w') :
    result = .error (.unknownBackend settings.persistence.backend) ∧ calls = [] ↔
      ∀ n f, ¬ RegisteredAt cs settings.persistence.backend n f := by
  cases h with
  | unknown never => exact ⟨fun _ => never, fun _ => ⟨rfl, rfl⟩⟩
  | notCreated latest failed => simpa using ⟨_, _, latest.1⟩
  | notStarted latest created failed => simpa using ⟨_, _, latest.1⟩
  | started latest created started => simpa using ⟨_, _, latest.1⟩

theorem eq_ok_iff (h : BuildsTo cs settings hooks w result log calls w')
    (b : Backend (StateM σ)) : result = .ok b ↔
      ∃ n f w₁, LatestAt cs settings.persistence.backend n f ∧
        outcomeIn w (f.create settings hooks) = (.ok b, w₁) ∧
        outcomeIn w₁ b.start = (.ok (), w') := by
  constructor
  · rintro rfl
    cases h with
    | started latest created started => exact ⟨_, _, _, latest, created, started⟩
  · rintro ⟨n, f, w₁, latest, created, started⟩
    cases h with
    | unknown never => exact absurd latest.1 (never n f)
    | notCreated latest' failed =>
      rw [← latest.unique latest', created] at failed
      cases failed
    | notStarted latest' created' failed =>
      rw [← latest.unique latest', created] at created'
      cases created'
      rw [started] at failed
      cases failed
    | started latest' created' started' =>
      rw [← latest.unique latest', created] at created'
      cases created'
      rfl

/-- The log tells of an opened backend exactly if one is given, and of nothing else. -/
theorem log_eq (h : BuildsTo cs settings hooks w result log calls w') :
    log = if result.isOk then [.backendOpened settings.persistence.backend] else [] := by
  cases h <;> rfl

end BuildsTo

structure Recorded (w₀ : σ) (cs : List (Command σ)) (settings : Settings) (hooks : Listener) (w : σ)
    (result : Except PersistenceError (Backend (StateM σ))) (log : List LogEvent)
    (calls : List BackendCall) (w' : σ) : Prop where
  way : BuildsTo cs settings hooks w result log calls w'
  done : loggedIn w ((performAll w₀ cs).1.build settings hooks) = ((result, log), w')
  noted : ∀ before, ∃ noted, noted.map (fun _ => ()) = result.map (fun _ => ()) ∧
    loggedIn (w, before) ((performAll (w₀, before) (notingAll cs)).1.build settings hooks) =
      ((noted, log), (w', before ++ calls))

namespace Recorded

variable {w₀ w w₁ w₂ : σ} {cs : List (Command σ)} {settings : Settings} {hooks : Listener}
  {n : Nat} {f : Factory (StateM σ)} {b : Backend (StateM σ)} {e : PersistenceError}

theorem of_unknown (never : ∀ n f, ¬ RegisteredAt cs settings.persistence.backend n f) :
    Recorded w₀ cs settings hooks w (.error (.unknownBackend settings.persistence.backend)) [] []
      w where
  way := .unknown never
  done := build_of_unknown (factories_performAll_eq_none w₀ never) hooks w
  noted before := by
    have neverNoted : ∀ n f, ¬ RegisteredAt (notingAll cs) settings.persistence.backend n f := by
      intro n f' there
      obtain ⟨f, there, -⟩ := registeredAt_notingAll_iff.1 there
      exact never n f there
    refine ⟨.error _, rfl, ?_⟩
    rw [build_of_unknown (factories_performAll_eq_none _ neverNoted), List.append_nil]

section Called

variable (latest : LatestAt cs settings.persistence.backend n f)

include latest

theorem of_notCreated (failed : outcomeIn w (f.create settings hooks) = (.error e, w₁)) :
    Recorded w₀ cs settings hooks w (.error e) [] [.create n settings hooks] w₁ where
  way := .notCreated latest failed
  done := build_of_not_created (latest.found w₀) failed
  noted before := by
    have failedNoted := f.outcomeIn_create_noting n settings hooks w before
    rw [failed] at failedNoted
    exact ⟨.error e, rfl, build_of_not_created (latest.noting.found _) failedNoted⟩

variable (created : outcomeIn w (f.create settings hooks) = (.ok b, w₁))

include created

theorem of_notStarted (failed : outcomeIn w₁ b.start = (.error e, w₂)) :
    Recorded w₀ cs settings hooks w (.error e) [] [.create n settings hooks, .start n] w₂ where
  way := .notStarted latest created failed
  done := build_of_not_started (latest.found w₀) created failed
  noted before := by
    have createdNoted := f.outcomeIn_create_noting n settings hooks w before
    have failedNoted :=
      outcomeIn_noting (.start n) b.start w₁ (before ++ [.create n settings hooks])
    rw [created] at createdNoted
    rw [failed, List.append_assoc] at failedNoted
    exact ⟨.error e, rfl, build_of_not_started (latest.noting.found _) createdNoted failedNoted⟩

theorem of_started (started : outcomeIn w₁ b.start = (.ok (), w₂)) :
    Recorded w₀ cs settings hooks w (.ok b) [.backendOpened settings.persistence.backend]
      [.create n settings hooks, .start n] w₂ where
  way := .started latest created started
  done := build_of_started (latest.found w₀) created started
  noted before := by
    have createdNoted := f.outcomeIn_create_noting n settings hooks w before
    have startedNoted :=
      outcomeIn_noting (.start n) b.start w₁ (before ++ [.create n settings hooks])
    rw [created] at createdNoted
    rw [started, List.append_assoc] at startedNoted
    exact ⟨.ok (b.noting n), rfl,
      build_of_started (latest.noting.found _) createdNoted startedNoted⟩

end Called

end Recorded

theorem exists_recorded (w₀ : σ) (cs : List (Command σ)) (settings : Settings) (hooks : Listener)
    (w : σ) : ∃ result log calls w', Recorded w₀ cs settings hooks w result log calls w' := by
  by_cases known : ∃ n f, RegisteredAt cs settings.persistence.backend n f
  · obtain ⟨n, f, known⟩ := known
    obtain ⟨n, f, latest⟩ := exists_latestAt known
    rcases created : outcomeIn w (f.create settings hooks) with ⟨e | b, w₁⟩
    · exact ⟨_, _, _, _, .of_notCreated latest created⟩
    · rcases started : outcomeIn w₁ b.start with ⟨e | _, w₂⟩
      · exact ⟨_, _, _, _, .of_notStarted latest created started⟩
      · exact ⟨_, _, _, _, .of_started latest created started⟩
  · exact ⟨_, _, _, _, .of_unknown fun n f there => known ⟨n, f, there⟩⟩

/-- What a table serves that the commands lead to: every build goes one of the ways, a registration
warns of the factory it replaces, and a build leaves the table as it is. -/
structure Serves (w₀ : σ) (cs : List (Command σ)) (t : FactoryTable (StateM σ)) : Prop where
  builds : ∀ settings hooks w, ∃ result log calls w',
    loggedIn w (t.build settings hooks) = ((result, log), w') ∧
    Recorded w₀ cs settings hooks w result log calls w' ∧
    (result = .error (.unknownBackend settings.persistence.backend) ∧ calls = [] ↔
      ∀ n f, ¬ RegisteredAt cs settings.persistence.backend n f) ∧
    (∀ b, result = .ok b ↔ ∃ n f w₁, LatestAt cs settings.persistence.backend n f ∧
      outcomeIn w (f.create settings hooks) = (.ok b, w₁) ∧
      outcomeIn w₁ b.start = (.ok (), w')) ∧
    log = if result.isOk then [.backendOpened settings.persistence.backend] else []
  warns : ∀ name f, (∃ e ∈ (t.register name f).log, e.level = .warn) ↔
    ∃ n g, RegisteredAt cs name n g
  warning : ∀ name f, ∀ e ∈ (t.register name f).log, e = .factoryReplaced name
  unchanged : ∀ settings hooks, (performAll w₀ (cs ++ [.build settings hooks])).1 = t

theorem performAll_serves (w₀ : σ) (cs : List (Command σ)) :
    Serves w₀ cs (performAll w₀ cs).1 := by
  constructor
  case builds =>
    intro settings hooks w
    obtain ⟨result, log, calls, w', recorded⟩ := exists_recorded w₀ cs settings hooks w
    exact ⟨result, log, calls, w', recorded.done, recorded, recorded.way.unknown_iff,
      recorded.way.eq_ok_iff, recorded.way.log_eq⟩
  case warns =>
    intro name f
    rw [← contains_performAll_iff w₀]
    simp only [register]
    split
    · rename_i known
      simp [known, LogEvent.level]
    · rename_i unknown
      simp [unknown]
  case warning =>
    intro name f e told
    simp only [register] at told
    split at told
    · exact List.mem_singleton.1 told
    · cases told
  case unchanged =>
    intro settings hooks
    rw [performAll_concat]
    rfl

end FactoryTable

end BrokerAdmin
