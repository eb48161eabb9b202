import BrokerAdmin.Proofs.Metrics.History
import BrokerAdmin.Proofs.World.Lookup

set_option autoImplicit false

/-!
The counters that readers find in client records. A stored record counts nothing; whoever reads it
gets the counters that its client has at that moment. The table of counters in turn is what the
operations so far have made of it, so that these are the counters of the client's current life.
-/

namespace BrokerAdmin

def Cleanup.metricsCommands (id : String) : Cleanup → List MetricsTable.Command
  | dropCounters => [.deregister id]
  | _ => []

def Operation.metricsCommands (control : SessionControl) :
    Operation → List MetricsTable.Command
  | register id => [.register id]
  | deregister id => [.deregister id]
  | update h u => [.update h u]
  | deleteClient id clean => (control.cleanups id clean).flatMap (·.metricsCommands id)
  | _ => []

def History.metricsCommands (control : SessionControl) (h : History) :
    List MetricsTable.Command :=
  h.flatMap fun s => s.2.metricsCommands control

/-- What everything done to the counters in the history comes to, as events of the table. -/
def History.metricsEvents (control : SessionControl) (h : History) : List MetricsTable.Event :=
  (MetricsTable.performAll {} (h.metricsCommands control)).1

/-- Without a fault the action does to the table of counters what the commands do. -/
def Action.Meters {α : Type} (act : Action α) (cs : List MetricsTable.Command) : Prop :=
  ∀ w o, act w = .ok o → o.state.metrics = (MetricsTable.performAll w.metrics cs).2

namespace Action.Meters

variable {α β : Type} {cs ds : List MetricsTable.Command}

theorem reading (read : World → Except Fault α) : Meters (World.reading read) [] := by
  intro w o done
  obtain ⟨a, -, eq⟩ := exists_of_bind_eq_ok done
  cases eq
  rfl

theorem onClients (act : ClientStore → Except Fault (Outcome ClientStore α)) :
    Meters (World.onClients act) [] := by
  intro w o done
  obtain ⟨a, -, eq⟩ := exists_of_bind_eq_ok done
  cases eq
  rfl

theorem onSubscriptions (act : SubscriptionStore → Except Fault (Outcome SubscriptionStore α)) :
    Meters (World.onSubscriptions act) [] := by
  intro w o done
  obtain ⟨a, -, eq⟩ := exists_of_bind_eq_ok done
  cases eq
  rfl

theorem onMetrics (act : MetricsTable → α × MetricsTable) (c : MetricsTable.Command)
    (same : ∀ t, (act t).2 = (c.perform t).2) : Meters (World.onMetrics act) [c] := by
  intro w o done
  cases done
  exact same w.metrics

theorem mapOutcome {act : Action α} (h : Meters act cs) (answer : α → β)
    (log : List LogEvent → List LogEvent) :
    Meters (fun w => do
      let o ← act w
      return ⟨answer o.answer, o.state, log o.log⟩) cs := by
  intro w o done
  obtain ⟨first, ran, eq⟩ := exists_of_bind_eq_ok done
  cases eq
  exact h w first ran

theorem sequence {first : Action α} {second : Action β} (h : Meters first cs)
    (h' : Meters second ds) {γ : Type} (answer : α → β → γ) :
    Meters (fun w => do
      let o ← first w
      let o' ← second o.state
      return ⟨answer o.answer o'.answer, o'.state, o.log ++ o'.log⟩) (cs ++ ds) := by
  intro w o done
  obtain ⟨o₁, ran, rest⟩ := exists_of_bind_eq_ok done
  obtain ⟨o₂, ran', eq⟩ := exists_of_bind_eq_ok rest
  cases eq
  rw [h' _ _ ran', h _ _ ran, MetricsTable.performAll_append]

theorem replying {act : Action α} (h : Meters act cs) (reply : α → Reply) :
    Meters (Operation.replying act reply) cs := h.mapOutcome reply fun log => log

end Action.Meters

open BrokerAdmin.Action (Meters)

theorem Event.track_meters (now : Timestamp) (e : Event) : Meters (e.track now) [] := by
  cases e with
  | created c => exact Meters.onClients (·.add c)
  | resumed c => exact Meters.onClients (·.add c)
  | closed id => exact Meters.onClients (·.setDisconnected id now)
  | terminated id reason =>
    by_cases h : reason = .takenOver
    · simp only [track, h, if_true]
      exact .reading _
    · simp only [track, h, if_false]
      exact (Meters.onClients (·.remove id)).mapOutcome (fun _ => ()) fun log => log
  | subscribed id sub => exact Meters.onSubscriptions (·.add id sub)
  | unsubscribed id filter =>
    exact (Meters.onSubscriptions (·.remove id filter)).mapOutcome (fun _ => ()) fun log => log

namespace Cleanup

theorem perform_meters (now : Timestamp) (id : String) (c : Cleanup) :
    Meters (c.perform now id) (c.metricsCommands id) := by
  cases c with
  | reportClosed => exact Event.track_meters now (.closed id)
  | dropSubscriptions =>
    exact (Meters.onSubscriptions (·.removeClient id)).mapOutcome (fun _ => ()) fun log => log
  | dropCounters =>
    exact Meters.onMetrics (fun t => ((), (t.deregister id).2)) (.deregister id) fun _ => rfl
  | reportTerminated => exact Event.track_meters now (.terminated id .normal)

theorem performAll_meters (now : Timestamp) (id : String) (cs : List Cleanup) :
    Meters (performAll now id cs) (cs.flatMap (·.metricsCommands id)) := by
  induction cs with
  | nil => exact .reading _
  | cons c cs ih =>
    rw [List.flatMap_cons]
    exact (c.perform_meters now id).sequence ih fun _ a => a

end Cleanup

theorem World.deleteClient_meters (control : SessionControl) (now : Timestamp) (id : String)
    (clean : Bool) : Meters (World.deleteClient control now id clean)
      ((control.cleanups id clean).flatMap (·.metricsCommands id)) := by
  intro w o done
  cases named : id.isEmpty with
  | true =>
    unfold World.deleteClient at done
    rw [named] at done
    cases done
    rw [SessionControl.cleanups, named]
    rfl
  | false =>
    rw [World.deleteClient_of_named named] at done
    obtain ⟨o', ran, eq⟩ := exists_of_bind_eq_ok done
    cases eq
    exact Cleanup.performAll_meters now id (control.cleanups id clean) (w.noteCall _) _ ran

theorem Operation.perform_meters (control : SessionControl) (now : Timestamp) (op : Operation) :
    Meters (op.perform control now) (op.metricsCommands control) := by
  unfold perform
  cases op with
  | event e => exact (e.track_meters now).replying _
  | addClient c => exact (Meters.onClients _).replying _
  | setDisconnected id => exact (Meters.onClients _).replying _
  | removeClient id => exact (Meters.onClients _).replying _
  | addSubscription id sub => exact (Meters.onSubscriptions _).replying _
  | removeSubscription id filter => exact (Meters.onSubscriptions _).replying _
  | removeSubscriptions id => exact (Meters.onSubscriptions _).replying _
  | deleteClient id clean => exact (World.deleteClient_meters control now id clean).replying _
  | register id => exact (Meters.onMetrics (·.register id) (.register id) fun _ => rfl).replying _
  | deregister id =>
    exact (Meters.onMetrics (·.deregister id) (.deregister id) fun _ => rfl).replying _
  | update h u =>
    exact (Meters.onMetrics (fun t => ((), t.update h u)) (.update h u) fun _ => rfl).replying _
  | _ => exact (Meters.reading _).replying _

theorem History.perform_meters (control : SessionControl) (h : History) :
    Meters (h.perform control) (h.metricsCommands control) := by
  induction h with
  | nil => exact .reading _
  | cons s h ih =>
    exact (s.2.perform_meters control s.1).sequence ih fun reply replies => reply :: replies

def Reply.records : Reply → List ClientRecord
  | client r => [r]
  | clients p => p.items
  | _ => []

namespace Operation

variable {α : Type} {w : World} {l : List ClientRecord} {r : ClientRecord}

theorem answer_of_replying {act : Action α} {reply : α → Reply} {o : Outcome World Reply}
    (done : replying act reply w = .ok o) : ∃ o', act w = .ok o' ∧ o.answer = reply o'.answer := by
  obtain ⟨o', ran, eq⟩ := exists_of_bind_eq_ok done
  cases eq
  exact ⟨o', ran, rfl⟩

theorem answer_of_replying_reading {read : World → Except Fault α} {reply : α → Reply}
    {o : Outcome World Reply} (done : replying (World.reading read) reply w = .ok o) :
    ∃ a, read w = .ok a ∧ o.answer = reply a := by
  obtain ⟨o', ran, answer⟩ := answer_of_replying done
  obtain ⟨a, done, eq⟩ := exists_of_bind_eq_ok ran
  cases eq
  exact ⟨a, done, answer⟩

/-- Every record that a reader gets is a stored one with counters fetched at that moment. -/
theorem mem_of_mem_records (lists : w.clients.Lists l) {control : SessionControl}
    {now : Timestamp} {op : Operation} {o : Outcome World Reply}
    (done : op.perform control now w = .ok o) (hr : r ∈ o.answer.records) :
    r ∈ l.map (·.enrich w.metrics.clientStats) := by
  have of_page : ∀ {page pageSize p}, w.clients.list w.metrics.clientStats page pageSize = .ok p →
      ∀ r ∈ p.items, r ∈ l.map (·.enrich w.metrics.clientStats) := by
    intro page pageSize p read
    obtain ⟨p', read', -, within⟩ := lists.exists_page w.metrics.clientStats page pageSize
    cases read.symm.trans read'
    exact within.subset
  unfold perform at done
  cases op with
  | findClient id =>
    obtain ⟨known, read, answer⟩ := answer_of_replying_reading done
    rw [answer] at hr
    rw [lists.get?_enriched, Except.ok.injEq] at read
    cases known with
    | none => cases hr
    | some a =>
      cases List.mem_singleton.1 hr
      exact List.mem_of_find?_eq_some read
  | pageClients page pageSize =>
    obtain ⟨p, read, answer⟩ := answer_of_replying_reading done
    rw [answer] at hr
    exact of_page read r hr
  | listClients page pageSize =>
    obtain ⟨p, read, answer⟩ := answer_of_replying_reading done
    rw [answer] at hr
    exact of_page read r hr
  | getClient id =>
    obtain ⟨found, read, answer⟩ := answer_of_replying_reading done
    rw [answer] at hr
    cases found with
    | error e => cases hr
    | ok a =>
      cases List.mem_singleton.1 hr
      have known := (World.getClient_found_iff (lists.get?_enriched _ id) r).1 read
      exact List.mem_of_find?_eq_some known.2
  | deleteClient id clean =>
    obtain ⟨⟨a, _, _⟩, -, answer⟩ := answer_of_replying done
    rw [answer] at hr
    cases a <;> cases hr
  | _ =>
    obtain ⟨o', -, answer⟩ := answer_of_replying done
    rw [answer] at hr
    cases hr

end Operation

/-- The record counts what was reported through the handle that its client got when its current
life began. A client without one has nothing counted. -/
structure ClientRecord.Counted (r : ClientRecord) (es : List MetricsTable.Event) : Prop where
  registered : ∀ (n : Nat) (h : Handle),
    IsLeast {n | MetricsTable.RegisteredSince es r.clientId n} n →
    es[n]? = some (.registered r.clientId h) →
    r.stats = .ofUpdates ((es.drop (n + 1)).filterMap (·.through? h))
  unregistered : (¬∃ n, MetricsTable.RegisteredSince es r.clientId n) → r.stats = {}

namespace ClientRecord

variable {r : ClientRecord} {source : String → Option Counters}

theorem stats_enrich (zero : r.stats = {}) :
    (r.enrich source).stats = (source r.clientId).getD {} := by
  unfold enrich
  cases source r.clientId with
  | none => exact zero
  | some stats => rfl

theorem counted_of_recorded {t : MetricsTable} {es : List MetricsTable.Event}
    (recorded : MetricsTable.Recorded es t) (live : r.stats = (t.clientStats r.clientId).getD {}) :
    r.Counted es := by
  constructor
  · intro n h least here
    rw [live, (recorded.counted _ n h least here).1, Option.getD_some]
  · intro never
    rw [← recorded.present, Option.not_isSome_iff_eq_none] at never
    rw [live, never, Option.getD_none]

end ClientRecord

theorem ClientEvent.stats_of_holds {es : List ClientEvent} {id : String} {r : ClientRecord}
    (h : Listing.Holds (es.map change) id r) : r.stats = {} := by
  obtain ⟨n, u, -, put, rfl⟩ := h
  rw [List.getElem?_map, Option.map_eq_some_iff] at put
  obtain ⟨e, -, change_eq⟩ := put
  obtain ⟨c, rfl, -, rfl⟩ := change_eq_put_iff.1 change_eq
  rw [← List.map_drop, field_foldl ClientRecord.stats fun _ _ => rfl]
  rfl

/-- Whatever has been done before, a reader gets every record with the counters that its client has
at that moment, and these are the ones of the client's current life. -/
theorem History.counters_live (control : SessionControl) (settings : AdminSettings) (h : History)
    (now : Timestamp) (op : Operation) :
    ∃ o o', h.perform control { settings } = .ok o ∧ op.perform control now o.state = .ok o' ∧
      ∀ r ∈ o'.answer.records, r.stats = (o.state.metrics.clientStats r.clientId).getD {} ∧
        r.Counted (h.metricsEvents control) := by
  obtain ⟨o, done, shows⟩ := h.perform_eq_ok control settings
  obtain ⟨o', done', -⟩ := op.perform_adds control now _ _ _ shows
  obtain ⟨l, lists, values⟩ := shows.exists_clients
  refine ⟨o, o', done, done', fun r hr => ?_⟩
  obtain ⟨u, hu, rfl⟩ := List.mem_map.1 (Operation.mem_of_mem_records lists done' hr)
  have live : (u.enrich o.state.metrics.clientStats).stats =
      (o.state.metrics.clientStats (u.enrich o.state.metrics.clientStats).clientId).getD {} := by
    rw [ClientRecord.clientId_enrich]
    exact ClientRecord.stats_enrich (ClientEvent.stats_of_holds ((values.mem_iff u).1 hu))
  have recorded := (MetricsTable.performAll_leads {} (h.metricsCommands control)).recorded
  rw [← h.perform_meters control _ _ done] at recorded
  exact ⟨live, ClientRecord.counted_of_recorded recorded live⟩

end BrokerAdmin
