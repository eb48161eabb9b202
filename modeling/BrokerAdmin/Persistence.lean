import BrokerAdmin.World.Event
import Std.Data.HashMap

set_option autoImplicit false

/-!
Persistence backends. A factory creates a backend for settings and for a party to be told about
events, and a backend is opened before it is used; both act in a monad `m` of their own. The table
of factories builds the backend that the settings name and never gives one that is not open.
-/

namespace BrokerAdmin

inductive PersistenceError where
  | unknownBackend (name : String)
  | openFailed (reason : String)
  | readFailed (reason : String)
  | writeFailed (reason : String)
  | closed
  deriving DecidableEq, Repr

def PersistenceError.message : PersistenceError → String
  | .unknownBackend name => "unknown persistence backend: " ++ name
  | .openFailed reason => "failed to open persistence backend: " ++ reason
  | .readFailed reason => "read error: " ++ reason
  | .writeFailed reason => "write error: " ++ reason
  | .closed => "persistence backend is closed"

structure Queue where
  length : Nat
  deriving DecidableEq, Repr

def Queue.isEmpty (q : Queue) : Bool := q.length == 0

structure Backend (m : Type → Type) where
  start : ExceptT PersistenceError m Unit
  newQueue : Settings → Connection → ExceptT PersistenceError m Queue

structure Factory (m : Type → Type) where
  create : Settings → Listener → ExceptT PersistenceError m (Backend m)

/-- Work that may fail and that logs on its way. What it has logged by then stays when it fails. -/
abbrev LoggedWork (m : Type → Type) := ExceptT PersistenceError (StateT (List LogEvent) m)

namespace LoggedWork

variable {m : Type → Type} [Monad m] {α : Type}

def silent (x : ExceptT PersistenceError m α) : LoggedWork m α := .mk (StateT.lift x.run)

def log (e : LogEvent) : LoggedWork m Unit := modify (· ++ [e])

/-- What comes of the work, and its log. -/
def outcome (x : LoggedWork m α) : m (Except PersistenceError α × List LogEvent) := x.run.run []

end LoggedWork

/-- Factories by the name of the backend they make. -/
structure FactoryTable (m : Type → Type) where
  factories : Std.HashMap String (Factory m) := ∅

namespace FactoryTable

variable {m : Type → Type}

instance : Inhabited (FactoryTable m) := ⟨{}⟩

def contains (t : FactoryTable m) (name : String) : Bool := t.factories.contains name

def register (t : FactoryTable m) (name : String) (f : Factory m) :
    Outcome (FactoryTable m) Unit where
  answer := ()
  state := ⟨t.factories.insert name f⟩
  log := if t.contains name then [.factoryReplaced name] else []

def build [Monad m] (t : FactoryTable m) (settings : Settings) (hooks : Listener) :
    m (Except PersistenceError (Backend m) × List LogEvent) :=
  let name := settings.persistence.backend
  LoggedWork.outcome do
    match t.factories[name]? with
    | none => throw (.unknownBackend name)
    | some f =>
      let backend ← LoggedWork.silent (f.create settings hooks)
      LoggedWork.silent backend.start
      LoggedWork.log (.backendOpened name)
      return backend

end FactoryTable

end BrokerAdmin
