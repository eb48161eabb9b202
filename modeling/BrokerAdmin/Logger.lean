import BrokerAdmin.Config.Settings

set_option autoImplicit false

/-!
The logger of a process. A process has room for one; once it is taken, every later logger is
refused and the first one stays.
-/

namespace BrokerAdmin

/-- The room for a logger, with the settings of the one that took it. -/
structure LoggerRoom where
  taken : Option LogSettings := none
  deriving DecidableEq, Repr

inductive LoggerError where
  | alreadySet
  deriving DecidableEq, Repr

def LoggerError.message : LoggerError → String
  | .alreadySet => "attempted to set a logger after the logging system was already initialized"

def LoggerRoom.install (r : LoggerRoom) (s : LogSettings) : Except LoggerError LoggerRoom :=
  match r.taken with
  | none => .ok ⟨some s⟩
  | some _ => .error .alreadySet

end BrokerAdmin
