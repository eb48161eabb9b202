import BrokerAdmin.Config.Settings
import BrokerAdmin.Metrics.Table
import BrokerAdmin.Store.Clients
import BrokerAdmin.Store.Subscriptions
import BrokerAdmin.Text.Quoted

set_option autoImplicit false

/-!
The world of the administration: its page sizes, both listings, the counters of all clients and
the calls made so far to the broker's sessions.
-/

namespace BrokerAdmin

inductive AdminError where
  | invalidArgument (field value : String)
  | notFound (clientId : String)
  deriving DecidableEq, Repr

def AdminError.message : AdminError → String
  | .invalidArgument field value => "Invalid argument: " ++ field ++ " = " ++ Text.quote value
  | .notFound id => "Client not found: " ++ id

/-- A call to the broker's sessions. Terminating destroys a session with all it owns; closing ends
the connection only. -/
inductive SessionCall where
  | terminate (clientId : String)
  | close (clientId : String)
  deriving DecidableEq, Repr

structure World where
  settings : AdminSettings := {}
  clients : ClientStore := {}
  subscriptions : SubscriptionStore := {}
  metrics : MetricsTable := {}
  calls : Array SessionCall := #[]

/-- What an action on the world does, unless it meets a fault. -/
abbrev Action (α : Type) := World → Except Fault (Outcome World α)

namespace World

instance : Inhabited World := ⟨{}⟩

def onClients {α : Type} (act : ClientStore → Except Fault (Outcome ClientStore α)) : Action α :=
  fun w => do
    let o ← act w.clients
    return ⟨o.answer, { w with clients := o.state }, o.log⟩

def onSubscriptions {α : Type}
    (act : SubscriptionStore → Except Fault (Outcome SubscriptionStore α)) : Action α :=
  fun w => do
    let o ← act w.subscriptions
    return ⟨o.answer, { w with subscriptions := o.state }, o.log⟩

def onMetrics {α : Type} (act : MetricsTable → α × MetricsTable) : Action α :=
  fun w =>
    let (a, metrics) := act w.metrics
    .ok ⟨a, { w with metrics }, []⟩

def reading {α : Type} (read : World → Except Fault α) : Action α :=
  fun w => return ⟨← read w, w, []⟩

def request (w : World) (page pageSize : UInt32) : PageRequest :=
  .normalize page pageSize w.settings.defaultPageSize w.settings.maxPageSize

def listClients (w : World) (page pageSize : UInt32) : Except Fault (Page ClientRecord) :=
  let r := w.request page pageSize
  w.clients.list w.metrics.clientStats r.page r.pageSize

def listSubscriptions (w : World) (page pageSize : UInt32) :
    Except Fault (Page SubscriptionRecord) :=
  let r := w.request page pageSize
  w.subscriptions.list r.page r.pageSize

/-- The record of one client. The empty text names none. -/
def getClient (w : World) (id : String) : Except Fault (Except AdminError ClientRecord) := do
  if id.isEmpty then
    return .error (.invalidArgument "client_id" id)
  else
    match ← w.clients.get? w.metrics.clientStats id with
    | some record => return .ok record
    | none => return .error (.notFound id)

end World

end BrokerAdmin
