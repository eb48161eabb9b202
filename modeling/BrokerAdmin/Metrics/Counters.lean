set_option autoImplicit false

/-!
Counters of one client. Totals count modulo 2⁶⁴. The number of current subscriptions is a gauge
that stays at zero when more subscriptions end than began.
-/

namespace BrokerAdmin

structure Counters where
  subscriptionsCurrent : UInt64 := 0
  subscriptionsTotal : UInt64 := 0
  bytesReceived : UInt64 := 0
  packetsReceived : UInt64 := 0
  bytesSent : UInt64 := 0
  packetsSent : UInt64 := 0
  messagesDropped : UInt64 := 0
  inflightCurrent : UInt64 := 0
  queuedCurrent : UInt64 := 0
  deriving DecidableEq, Repr, Inhabited

inductive Counters.Update where
  | packetReceived (bytes : UInt64)
  | packetSent (bytes : UInt64)
  | messagesDropped (count : UInt64)
  | subscribed
  | unsubscribed
  | inflight (count : UInt64)
  | queued (count : UInt64)
  deriving DecidableEq, Repr

def Counters.apply (c : Counters) : Counters.Update → Counters
  | .packetReceived bytes =>
    { c with
      packetsReceived := c.packetsReceived + 1
      bytesReceived := c.bytesReceived + bytes }
  | .packetSent bytes =>
    { c with packetsSent := c.packetsSent + 1, bytesSent := c.bytesSent + bytes }
  | .messagesDropped count => { c with messagesDropped := c.messagesDropped + count }
  | .subscribed =>
    { c with
      subscriptionsCurrent := c.subscriptionsCurrent + 1
      subscriptionsTotal := c.subscriptionsTotal + 1 }
  | .unsubscribed =>
    if c.subscriptionsCurrent = 0 then c
    else { c with subscriptionsCurrent := c.subscriptionsCurrent - 1 }
  | .inflight count => { c with inflightCurrent := count }
  | .queued count => { c with queuedCurrent := count }

def Counters.ofUpdates (us : List Counters.Update) : Counters := us.foldl Counters.apply {}

@[simp] theorem Counters.ofUpdates_concat (us : List Counters.Update) (u : Counters.Update) :
    Counters.ofUpdates (us ++ [u]) = (Counters.ofUpdates us).apply u := by
  simp [Counters.ofUpdates]

end BrokerAdmin
