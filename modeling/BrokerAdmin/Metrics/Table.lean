import BrokerAdmin.Metrics.Counters
import Std.Data.HashMap

set_option autoImplicit false

/-!
Counters of all clients. Registering a client begins a life of its counters and gives a handle to
them; registering it again gives the same handle until the client is deregistered. A handle stays
usable after that, but what is reported through it no longer shows in the table.
-/

namespace BrokerAdmin

/-- Names one life of a client's counters. -/
structure Handle where
  life : Nat
  deriving DecidableEq, Repr

/-- The counters of every life begun so far, and which life is the current one of each client. -/
structure MetricsTable where
  current : Std.HashMap String Handle := ∅
  lives : Array Counters := #[]

namespace MetricsTable

instance : Inhabited MetricsTable := ⟨{}⟩

def size (t : MetricsTable) : Nat := t.current.size

def isEmpty (t : MetricsTable) : Bool := t.size == 0

def handle? (t : MetricsTable) (id : String) : Option Handle := t.current[id]?

/-- The handle of the client, beginning a life at zero if it has none. -/
def register (t : MetricsTable) (id : String) : Handle × MetricsTable :=
  match t.handle? id with
  | some h => (h, t)
  | none =>
    let h : Handle := ⟨t.lives.size⟩
    (h, { current := t.current.insert id h, lives := t.lives.push {} })

/-- Ends the current life of the client's counters. Gives whether there was one. -/
def deregister (t : MetricsTable) (id : String) : Bool × MetricsTable :=
  (t.current.contains id, { t with current := t.current.erase id })

def counters? (t : MetricsTable) (h : Handle) : Option Counters := t.lives[h.life]?

def clientStats (t : MetricsTable) (id : String) : Option Counters :=
  (t.handle? id).bind t.counters?

def update (t : MetricsTable) (h : Handle) (u : Counters.Update) : MetricsTable :=
  { t with lives := t.lives.modify h.life (·.apply u) }

end MetricsTable

end BrokerAdmin
