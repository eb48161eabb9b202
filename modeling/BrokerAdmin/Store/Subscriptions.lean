import BrokerAdmin.Log
import BrokerAdmin.Page
import BrokerAdmin.Registry.Sweep
import BrokerAdmin.Subscription

set_option autoImplicit false

/-!
Subscriptions of all clients in the order in which they were made. A subscription is known by its
owner and its full filter, kept apart, so no two of them are ever mixed up whatever characters
their names hold.
-/

namespace BrokerAdmin

structure SubscriptionKey where
  clientId : String
  topicFilter : String
  deriving DecidableEq, Hashable, Repr

structure SubscriptionStore where
  records : Registry SubscriptionKey SubscriptionRecord := ∅

namespace SubscriptionStore

instance : Inhabited SubscriptionStore := ⟨{}⟩

def size (s : SubscriptionStore) : Nat := s.records.size

def isEmpty (s : SubscriptionStore) : Bool := s.records.isEmpty

/-- Records a subscription. Subscribing again to the same full filter changes the record in
place. -/
def add (s : SubscriptionStore) (id : String) (sub : Subscription) :
    Except Fault (Outcome SubscriptionStore Unit) := do
  let record := SubscriptionRecord.ofSubscription id sub
  let (old, records) ← s.records.set ⟨id, record.topicFilter⟩ record
  return {
    answer := ()
    state := ⟨records⟩
    log := [if old.isSome then .subscriptionUpdated record.topicFilter id
      else .subscriptionAdded record.topicFilter id]
  }

/-- Removes the client's subscription to a full filter. Gives whether there was one. -/
def remove (s : SubscriptionStore) (id filter : String) :
    Except Fault (Outcome SubscriptionStore Bool) := do
  let (old, records) ← s.records.erase ⟨id, filter⟩
  return {
    answer := old.isSome
    state := ⟨records⟩
    log := if old.isSome then [.subscriptionRemoved filter id] else []
  }

def removeClient (s : SubscriptionStore) (id : String) :
    Except Fault (Outcome SubscriptionStore Nat) := do
  let (removed, records) ← s.records.filter fun k _ => k.clientId != id
  return {
    answer := removed
    state := ⟨records⟩
    log := if removed = 0 then [] else [.subscriptionsRemoved removed id]
  }

def list (s : SubscriptionStore) (page pageSize : UInt64) :
    Except Fault (Page SubscriptionRecord) := do
  let w := Window.ofPage page pageSize
  let entries ← s.records.window w.start.toNat w.size.toNat
  return ⟨entries.map (·.2), s.size⟩

end SubscriptionStore

end BrokerAdmin
