import BrokerAdmin.World.Sessions

set_option autoImplicit false

/-!
Everything that can be done to a world, as data, with the replies, so that a history is a list of
operations.
-/

namespace BrokerAdmin

inductive Operation where
  | event (e : Event)
  | addClient (c : Connection)
  | setDisconnected (id : String)
  | removeClient (id : String)
  | findClient (id : String)
  | pageClients (page pageSize : UInt64)
  | addSubscription (id : String) (sub : Subscription)
  | removeSubscription (id filter : String)
  | removeSubscriptions (id : String)
  | pageSubscriptions (page pageSize : UInt64)
  | listClients (page pageSize : UInt32)
  | listSubscriptions (page pageSize : UInt32)
  | getClient (id : String)
  | deleteClient (id : String) (clean : Bool)
  | register (id : String)
  | deregister (id : String)
  | update (h : Handle) (u : Counters.Update)
  deriving DecidableEq, Repr

inductive Reply where
  | done
  | flag (b : Bool)
  | count (n : Nat)
  | client (r : ClientRecord)
  | noClient
  | clients (p : Page ClientRecord)
  | subscriptions (p : Page SubscriptionRecord)
  | refused (e : AdminError)
  | handle (h : Handle)
  deriving DecidableEq, Repr

namespace Operation

def replying {α : Type} (act : Action α) (reply : α → Reply) : Action Reply := fun w => do
  let o ← act w
  return ⟨reply o.answer, o.state, o.log⟩

def perform (control : SessionControl) (now : Timestamp) : Operation → Action Reply
  | event e => replying (e.track now) fun _ => .done
  | addClient c => replying (World.onClients (·.add c)) fun _ => .done
  | setDisconnected id =>
    replying (World.onClients (·.setDisconnected id now)) fun _ => .done
  | removeClient id => replying (World.onClients (·.remove id)) .flag
  | findClient id =>
    replying (World.reading fun w => w.clients.get? w.metrics.clientStats id) fun
      | some r => .client r
      | none => .noClient
  | pageClients page pageSize =>
    replying (World.reading fun w => w.clients.list w.metrics.clientStats page pageSize) .clients
  | addSubscription id sub =>
    replying (World.onSubscriptions (·.add id sub)) fun _ => .done
  | removeSubscription id filter =>
    replying (World.onSubscriptions (·.remove id filter)) .flag
  | removeSubscriptions id => replying (World.onSubscriptions (·.removeClient id)) .count
  | pageSubscriptions page pageSize =>
    replying (World.reading (·.subscriptions.list page pageSize)) .subscriptions
  | listClients page pageSize =>
    replying (World.reading (·.listClients page pageSize)) .clients
  | listSubscriptions page pageSize =>
    replying (World.reading (·.listSubscriptions page pageSize)) .subscriptions
  | getClient id =>
    replying (World.reading (·.getClient id)) fun
      | .ok r => .client r
      | .error e => .refused e
  | deleteClient id clean =>
    replying (World.deleteClient control now id clean) fun
      | .ok () => .done
      | .error e => .refused e
  | register id => replying (World.onMetrics (·.register id)) .handle
  | deregister id => replying (World.onMetrics (·.deregister id)) .flag
  | update h u => replying (World.onMetrics fun t => ((), t.update h u)) fun _ => .done

end Operation

end BrokerAdmin
