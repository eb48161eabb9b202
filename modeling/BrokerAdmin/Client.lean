import BrokerAdmin.Protocol
import BrokerAdmin.Metrics.Counters

set_option autoImplicit false

/-!
Clients. The broker hands over a connection; the listing keeps a record of it, which outlives the
connection as long as the session does.
-/

namespace BrokerAdmin

/-- An instant, in nanoseconds since the epoch, negative before it. -/
structure Timestamp where
  nanos : Int
  deriving DecidableEq, Repr, Inhabited

inductive EncodeError where
  | beforeEpoch
  deriving DecidableEq, Repr

def EncodeError.message : EncodeError → String
  | .beforeEpoch => "SystemTime must be later than UNIX_EPOCH"

namespace Timestamp

def ofParts (secs : Int) (nanos : Nat) : Timestamp := ⟨secs * 1000000000 + nanos⟩

/-- Whole seconds and remaining nanoseconds since the epoch. An earlier instant cannot be
written. -/
def sinceEpoch (t : Timestamp) : Except EncodeError (Nat × Nat) :=
  if t.nanos < 0 then .error .beforeEpoch
  else .ok (t.nanos.toNat / 1000000000, t.nanos.toNat % 1000000000)

end Timestamp

/-- A connection as the broker describes it: what was agreed on when it opened, its two ends and
its time of opening. Keep alive and session expiry are in seconds. -/
structure Connection where
  clientId : String
  username : Option String := none
  version : ProtocolVersion := .v5
  keepAlive : UInt16 := 0
  sessionExpiry : UInt32 := 0
  maxInflight : UInt16 := 0
  maxQueue : UInt32 := 0
  receiveMaximum : UInt16 := 0
  localAddress : String
  remoteAddress : String
  connectedAt : Timestamp
  deriving DecidableEq, Repr

/-- Listing record of a client session. `disconnectedAt` is absent while the transport is open. -/
structure ClientRecord where
  connection : Connection
  disconnectedAt : Option Timestamp := none
  stats : Counters := {}
  deriving DecidableEq, Repr

namespace ClientRecord

def ofConnection (c : Connection) : ClientRecord := ⟨c, none, {}⟩

def clientId (r : ClientRecord) : String := r.connection.clientId

def isConnected (r : ClientRecord) : Bool := r.disconnectedAt.isNone

def disconnect (r : ClientRecord) (now : Timestamp) : ClientRecord :=
  { r with disconnectedAt := some now }

/-- The record with the counters that `source` holds for its client. Without any the record keeps
its own. -/
def enrich (r : ClientRecord) (source : String → Option Counters) : ClientRecord :=
  match source r.clientId with
  | some stats => { r with stats }
  | none => r

@[simp] theorem clientId_enrich (r : ClientRecord) (source : String → Option Counters) :
    (r.enrich source).clientId = r.clientId := by
  unfold enrich
  split <;> rfl

end ClientRecord

end BrokerAdmin
