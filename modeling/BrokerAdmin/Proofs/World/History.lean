import BrokerAdmin.Proofs.Listing.History
import BrokerAdmin.World.Operation

set_option autoImplicit false

/-!
What operations mean for the two listings, as events that say no more than the listings need: a
client's connection opens or closes, or its session ends; a client subscribes, unsubscribes, or
loses all its subscriptions. Whatever a session control does within a call counts as well.
-/

namespace BrokerAdmin

inductive ClientEvent where
  | opened (c : Connection)
  | closed (id : String) (time : Timestamp)
  | ended (id : String)
  deriving DecidableEq, Repr

inductive SubscriptionEvent where
  | subscribed (id : String) (sub : Subscription)
  | unsubscribed (id filter : String)
  | cleared (id : String)
  deriving DecidableEq, Repr

def ClientEvent.client : ClientEvent → String
  | opened c => c.clientId
  | closed id _ => id
  | ended id => id

def ClientEvent.change : ClientEvent → Listing.Change String ClientRecord
  | opened c => .put c.clientId (.ofConnection c)
  | closed id time => .amend id (·.disconnect time)
  | ended id => .drop (· == id)

def SubscriptionEvent.change :
    SubscriptionEvent → Listing.Change SubscriptionKey SubscriptionRecord
  | subscribed id sub => .put ⟨id, sub.fullFilter⟩ (.ofSubscription id sub)
  | unsubscribed id filter => .drop (· == ⟨id, filter⟩)
  | cleared id => .drop (·.clientId == id)

/-- A takeover ends no session, since the session goes on with the new connection. -/
def Event.clientEvents (now : Timestamp) : Event → List ClientEvent
  | created c | resumed c => [.opened c]
  | closed id => [.closed id now]
  | terminated id reason => if reason = .takenOver then [] else [.ended id]
  | subscribed _ _ | unsubscribed _ _ => []

def Event.subscriptionEvents : Event → List SubscriptionEvent
  | subscribed id sub => [.subscribed id sub]
  | unsubscribed id filter => [.unsubscribed id filter]
  | _ => []

def Cleanup.clientEvents (now : Timestamp) (id : String) : Cleanup → List ClientEvent
  | reportClosed => [.closed id now]
  | reportTerminated => [.ended id]
  | dropSubscriptions | dropCounters => []

def Cleanup.subscriptionEvents (id : String) : Cleanup → List SubscriptionEvent
  | dropSubscriptions => [.cleared id]
  | _ => []

/-- What a session control does when a client is to be deleted. The empty text names no client. -/
def SessionControl.cleanups (control : SessionControl) (id : String) (clean : Bool) :
    List Cleanup :=
  if id.isEmpty then [] else if clean then control.onTerminate else control.onClose

namespace Operation

def clientEvents (control : SessionControl) (now : Timestamp) : Operation → List ClientEvent
  | event e => e.clientEvents now
  | addClient c => [.opened c]
  | setDisconnected id => [.closed id now]
  | removeClient id => [.ended id]
  | deleteClient id clean => (control.cleanups id clean).flatMap (·.clientEvents now id)
  | _ => []

def subscriptionEvents (control : SessionControl) : Operation → List SubscriptionEvent
  | event e => e.subscriptionEvents
  | addSubscription id sub => [.subscribed id sub]
  | removeSubscription id filter => [.unsubscribed id filter]
  | removeSubscriptions id => [.cleared id]
  | deleteClient id clean => (control.cleanups id clean).flatMap (·.subscriptionEvents id)
  | _ => []

end Operation

/-- Operations, each with the time at which it is performed. -/
abbrev History := List (Timestamp × Operation)

namespace History

def perform (control : SessionControl) : History → Action (List Reply)
  | [] => World.reading fun _ => .ok []
  | (now, op) :: h => fun w => do
    let first ← op.perform control now w
    let rest ← perform control h first.state
    return ⟨first.answer :: rest.answer, rest.state, first.log ++ rest.log⟩

def clientEvents (control : SessionControl) (h : History) : List ClientEvent :=
  h.flatMap fun s => s.2.clientEvents control s.1

def subscriptionEvents (control : SessionControl) (h : History) : List SubscriptionEvent :=
  h.flatMap fun s => s.2.subscriptionEvents control

end History

end BrokerAdmin
