import BrokerAdmin.World.Basic

set_option autoImplicit false

/-!
Events in the life of sessions and subscriptions, as the broker reports them, and what the
listings make of them.
-/

namespace BrokerAdmin

/-- Why a session has ended: on its own or on request, because another connection took over its
client, or because it expired while disconnected. -/
inductive TerminationReason where
  | normal
  | takenOver
  | expired
  deriving DecidableEq, Repr

inductive Event where
  | created (c : Connection)
  | resumed (c : Connection)
  | closed (id : String)
  | terminated (id : String) (reason : TerminationReason)
  | subscribed (id : String) (sub : Subscription)
  | unsubscribed (id filter : String)
  deriving DecidableEq, Repr

namespace Event

/-- Tracks an event in the listings. A termination by takeover changes nothing, since the record
already belongs to the new connection. -/
def track (now : Timestamp) : Event → Action Unit
  | created c | resumed c => World.onClients (·.add c)
  | closed id => World.onClients (·.setDisconnected id now)
  | terminated id reason =>
    if reason = .takenOver then World.reading fun _ => .ok ()
    else fun w => do
      let o ← World.onClients (·.remove id) w
      return { o with answer := () }
  | subscribed id sub => World.onSubscriptions (·.add id sub)
  | unsubscribed id filter => fun w => do
    let o ← World.onSubscriptions (·.remove id filter) w
    return { o with answer := () }

end Event

/-- A party that is told about events. One that does not say otherwise ignores them. -/
structure Listener where
  on : Timestamp → Event → Action Unit := fun _ _ => World.reading fun _ => .ok ()

namespace Listener

def ignoring : Listener := {}

def tracking : Listener := ⟨Event.track⟩

end Listener

end BrokerAdmin
