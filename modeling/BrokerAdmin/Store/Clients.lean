import BrokerAdmin.Client
import BrokerAdmin.Log
import BrokerAdmin.Page
import BrokerAdmin.Registry.Basic

set_option autoImplicit false

/-!
Client sessions, connected or not, in the order in which they were first seen. A record's counters
are not kept here: whoever reads a record says where the counters come from.
-/

namespace BrokerAdmin

structure ClientStore where
  records : Registry String ClientRecord := ∅

namespace ClientStore

instance : Inhabited ClientStore := ⟨{}⟩

def size (s : ClientStore) : Nat := s.records.size

def isEmpty (s : ClientStore) : Bool := s.records.isEmpty

/-- Records a connection that has opened. A session taken over or resumed keeps its position. -/
def add (s : ClientStore) (c : Connection) : Except Fault (Outcome ClientStore Unit) := do
  let (old, records) ← s.records.set c.clientId (.ofConnection c)
  return {
    answer := ()
    state := ⟨records⟩
    log := [if old.isSome then .clientReplaced c.clientId else .clientAdded c.clientId]
  }

def setDisconnected (s : ClientStore) (id : String) (now : Timestamp) :
    Except Fault (Outcome ClientStore Unit) := do
  let (changed, records) ← s.records.modify id (·.disconnect now)
  return {
    answer := ()
    state := ⟨records⟩
    log := if changed.isSome then [.clientDisconnected id] else []
  }

/-- Drops the record of a session that has ended. Gives whether there was one. -/
def remove (s : ClientStore) (id : String) : Except Fault (Outcome ClientStore Bool) := do
  let (old, records) ← s.records.erase id
  return {
    answer := old.isSome
    state := ⟨records⟩
    log := if old.isSome then [.clientRemoved id] else []
  }

def get? (s : ClientStore) (source : String → Option Counters) (id : String) :
    Except Fault (Option ClientRecord) := do
  return (← s.records.get? id).map (·.enrich source)

def list (s : ClientStore) (source : String → Option Counters) (page pageSize : UInt64) :
    Except Fault (Page ClientRecord) := do
  let w := Window.ofPage page pageSize
  let entries ← s.records.window w.start.toNat w.size.toNat
  return ⟨entries.map fun kv => kv.2.enrich source, s.size⟩

end ClientStore

end BrokerAdmin
