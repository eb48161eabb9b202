import BrokerAdmin.Proofs.Listing.Positions
import BrokerAdmin.Proofs.Registry.Sweeps
import BrokerAdmin.Proofs.Registry.Windows
import BrokerAdmin.Store.Subscriptions

set_option autoImplicit false

/-!
The subscription store over a registry that represents a listing. Owner and full filter together
are the key of a subscription, so removing by either path names the same record as subscribing.
-/

namespace BrokerAdmin.SubscriptionStore

variable {s : SubscriptionStore} {l : List (SubscriptionKey × SubscriptionRecord)}

theorem add_eq_ok (h : s.records.Represents l) (id : String) (sub : Subscription) :
    ∃ records, s.add id sub = .ok ⟨(), ⟨records⟩,
        [if Listing.contains l ⟨id, sub.fullFilter⟩ then .subscriptionUpdated sub.fullFilter id
          else .subscriptionAdded sub.fullFilter id]⟩ ∧
      records.Represents (Listing.set l ⟨id, sub.fullFilter⟩ (.ofSubscription id sub)) := by
  obtain ⟨records, done, after⟩ := h.set ⟨id, sub.fullFilter⟩ (.ofSubscription id sub)
  refine ⟨records, ?_, after⟩
  simp only [add, SubscriptionRecord.ofSubscription] at done ⊢
  rw [done]
  rfl

theorem remove_eq_ok (h : s.records.Represents l) (id filter : String) :
    ∃ records, s.remove id filter = .ok ⟨Listing.contains l ⟨id, filter⟩, ⟨records⟩,
        if Listing.contains l ⟨id, filter⟩ then [.subscriptionRemoved filter id] else []⟩ ∧
      records.Represents (Listing.erase l ⟨id, filter⟩) := by
  obtain ⟨records, done, after⟩ := h.erase ⟨id, filter⟩
  refine ⟨records, ?_, after⟩
  simp only [remove, done]
  rfl

theorem removeClient_eq_ok (h : s.records.Represents l) (id : String) :
    ∃ records, s.removeClient id = .ok ⟨l.countP fun e => e.1.clientId == id, ⟨records⟩,
        if l.countP (fun e => e.1.clientId == id) = 0 then []
        else [.subscriptionsRemoved (l.countP fun e => e.1.clientId == id) id]⟩ ∧
      records.Represents (l.filter fun e => !(e.1.clientId == id)) := by
  obtain ⟨records, done, after⟩ := h.filter fun k _ => k.clientId != id
  refine ⟨records, ?_, after⟩
  simp only [bne, Bool.not_not] at done
  simp only [removeClient, bne, done]
  rfl

theorem list_eq_ok (h : s.records.Represents l) (page pageSize : UInt64) :
    s.list page pageSize = .ok ⟨(Listing.window l (Window.ofPage page pageSize).start.toNat
      (Window.ofPage page pageSize).size.toNat).map (·.2), l.length⟩ := by
  simp only [list, h.window, size, h.size]
  rfl

/-- What readers of the store see: these records in this order, all on one page that is large
enough, and on any other page those at its positions. -/
structure Lists (s : SubscriptionStore) (l : List SubscriptionRecord) : Prop where
  toList : s.records.toList = .ok (l.map fun r => (⟨r.clientId, r.topicFilter⟩, r))
  list : ∀ page pageSize, s.list page pageSize =
    .ok ⟨(l.drop (Window.ofPage page pageSize).start.toNat).take
      (Window.ofPage page pageSize).size.toNat, l.length⟩
  whole : ∀ size : UInt64, l.length ≤ size.toNat → s.list 1 size = .ok ⟨l, l.length⟩
  positioned : l.length < UInt64.size → ShowsPositions s.list l

theorem lists_of_represents {l : List SubscriptionRecord}
    (h : s.records.Represents (l.map fun r => (⟨r.clientId, r.topicFilter⟩, r))) : s.Lists l := by
  have windows (page pageSize : UInt64) : s.list page pageSize =
      .ok ⟨(l.drop (Window.ofPage page pageSize).start.toNat).take
        (Window.ofPage page pageSize).size.toNat, l.length⟩ := by
    rw [list_eq_ok h]
    simp [Listing.window, List.map_drop, List.map_take, Function.comp_def]
  refine ⟨h.toList, windows, ?_, fun counted => showsPositions_of_windows counted windows⟩
  intro size enough
  rw [windows, Listing.window_ofPage_one enough]

end BrokerAdmin.SubscriptionStore
