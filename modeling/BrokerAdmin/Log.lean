set_option autoImplicit false

/-!
The log. Every change of a listing, every request that reaches the broker's sessions and every
step in the life of a persistence backend writes one event; what changes nothing writes none.
-/

namespace BrokerAdmin

inductive LogLevel where
  | debug
  | info
  | warn
  deriving DecidableEq, Repr

def LogLevel.name : LogLevel → String
  | .debug => "DEBUG"
  | .info => "INFO"
  | .warn => "WARN"

inductive LogEvent where
  | clientAdded (client : String)
  | clientReplaced (client : String)
  | clientDisconnected (client : String)
  | clientRemoved (client : String)
  | subscriptionAdded (filter client : String)
  | subscriptionUpdated (filter client : String)
  | subscriptionRemoved (filter client : String)
  | subscriptionsRemoved (count : Nat) (client : String)
  | sessionTerminating (client : String)
  | connectionClosed (client : String)
  | noConnection (client : String)
  | factoryReplaced (backend : String)
  | backendOpened (backend : String)
  deriving DecidableEq, Repr

namespace LogEvent

def level : LogEvent → LogLevel
  | sessionTerminating _ | connectionClosed _ | backendOpened _ => .info
  | factoryReplaced _ => .warn
  | _ => .debug

def text : LogEvent → String
  | clientAdded c => "Admin: added client record " ++ c
  | clientReplaced c => "Admin: replaced client record " ++ c
  | clientDisconnected c => "Admin: client " ++ c ++ " disconnected"
  | clientRemoved c => "Admin: removed client record " ++ c
  | subscriptionAdded f c => "Admin: added subscription " ++ f ++ " for " ++ c
  | subscriptionUpdated f c => "Admin: updated subscription " ++ f ++ " for " ++ c
  | subscriptionRemoved f c => "Admin: removed subscription " ++ f ++ " for " ++ c
  | subscriptionsRemoved n c => "Admin: removed " ++ toString n ++ " subscriptions for " ++ c
  | sessionTerminating c => "Admin: terminating session of " ++ c
  | connectionClosed c => "Admin: closed connection of " ++ c
  | noConnection c => "Admin: " ++ c ++ " has no open connection to close"
  | factoryReplaced b => "Persistence factory " ++ b ++ " registered twice, keeping the latest"
  | backendOpened b => "Persistence backend " ++ b ++ " opened"

end LogEvent

/-- What an operation did: its answer, the state it left and what it logged. -/
structure Outcome (σ α : Type) where
  answer : α
  state : σ
  log : List LogEvent := []

end BrokerAdmin
