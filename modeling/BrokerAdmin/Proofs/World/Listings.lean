import BrokerAdmin.Proofs.Store.Clients
import BrokerAdmin.Proofs.Store.Subscriptions
import BrokerAdmin.Proofs.World.History

set_option autoImplicit false

/-!
Every operation adds its events to what the two listings of a world show. An action is followed
through its parts: actions on one store, actions that leave both alone, and actions in sequence.
-/

namespace BrokerAdmin

namespace World

/-- Both listings are what the events make of empty ones. -/
structure Shows (w : World) (cs : List ClientEvent) (ss : List SubscriptionEvent) : Prop where
  clients : w.clients.records.Represents (Listing.after (cs.map ClientEvent.change))
  subscriptions :
    w.subscriptions.records.Represents (Listing.after (ss.map SubscriptionEvent.change))

theorem Shows.empty (settings : AdminSettings) : Shows { settings } [] [] :=
  ⟨Registry.Represents.empty, Registry.Represents.empty⟩

end World

/-- In every world the action meets no fault and adds these events to what the listings show. -/
def Action.Adds {α : Type} (act : Action α) (cs : List ClientEvent)
    (ss : List SubscriptionEvent) : Prop :=
  ∀ w cs₀ ss₀, World.Shows w cs₀ ss₀ → ∃ o, act w = .ok o ∧ o.state.Shows (cs₀ ++ cs) (ss₀ ++ ss)

namespace Action.Adds

open World

variable {α β : Type} {cs cs' : List ClientEvent} {ss ss' : List SubscriptionEvent}

theorem reading {read : World → Except Fault α}
    (reads : ∀ w cs ss, Shows w cs ss → ∃ a, read w = .ok a) :
    Adds (World.reading read) [] [] := by
  intro w cs ss h
  obtain ⟨a, ha⟩ := reads w cs ss h
  refine ⟨⟨a, w, []⟩, ?_, by simpa using h⟩
  simp only [World.reading, ha]
  rfl

theorem onMetrics (act : MetricsTable → α × MetricsTable) : Adds (World.onMetrics act) [] [] := by
  intro w cs ss h
  exact ⟨_, rfl, by simpa using h.clients, by simpa using h.subscriptions⟩

theorem onClients {act : ClientStore → Except Fault (Outcome ClientStore α)} {e : ClientEvent}
    (acts : ∀ s l, s.records.Represents l → ∃ o, act s = .ok o ∧
      o.state.records.Represents (e.change.apply l)) : Adds (World.onClients act) [e] [] := by
  intro w cs ss h
  obtain ⟨o, done, after⟩ := acts _ _ h.clients
  refine ⟨⟨o.answer, { w with clients := o.state }, o.log⟩, ?_, ?_, by simpa using h.subscriptions⟩
  · simp only [World.onClients, done]
    rfl
  · rw [List.map_append, List.map_singleton, Listing.after_concat]
    exact after

theorem onSubscriptions {act : SubscriptionStore → Except Fault (Outcome SubscriptionStore α)}
    {e : SubscriptionEvent}
    (acts : ∀ s l, s.records.Represents l → ∃ o, act s = .ok o ∧
      o.state.records.Represents (e.change.apply l)) :
    Adds (World.onSubscriptions act) [] [e] := by
  intro w cs ss h
  obtain ⟨o, done, after⟩ := acts _ _ h.subscriptions
  refine ⟨⟨o.answer, { w with subscriptions := o.state }, o.log⟩, ?_, by simpa using h.clients, ?_⟩
  · simp only [World.onSubscriptions, done]
    rfl
  · rw [List.map_append, List.map_singleton, Listing.after_concat]
    exact after

/-- The answer may be changed afterwards, and lines may be added to the log. -/
theorem mapOutcome {act : Action α} (h : Adds act cs ss) (answer : α → β)
    (log : List LogEvent → List LogEvent) :
    Adds (fun w => do
      let o ← act w
      return ⟨answer o.answer, o.state, log o.log⟩) cs ss := by
  intro w cs₀ ss₀ shows
  obtain ⟨o, done, after⟩ := h w cs₀ ss₀ shows
  refine ⟨⟨answer o.answer, o.state, log o.log⟩, ?_, after⟩
  simp only [done]
  rfl

theorem sequence {first : Action α} {second : Action β} (h : Adds first cs ss)
    (h' : Adds second cs' ss') {γ : Type} (answer : α → β → γ) :
    Adds (fun w => do
      let o ← first w
      let o' ← second o.state
      return ⟨answer o.answer o'.answer, o'.state, o.log ++ o'.log⟩) (cs ++ cs') (ss ++ ss') := by
  intro w cs₀ ss₀ shows
  obtain ⟨o, done, after⟩ := h w cs₀ ss₀ shows
  obtain ⟨o', done', after'⟩ := h' o.state _ _ after
  refine ⟨⟨answer o.answer o'.answer, o'.state, o.log ++ o'.log⟩, ?_, ?_⟩
  · simp only [done, bind, Except.bind, done']
    rfl
  · rwa [← List.append_assoc, ← List.append_assoc]

theorem replying {act : Action α} (h : Adds act cs ss) (reply : α → Reply) :
    Adds (Operation.replying act reply) cs ss := h.mapOutcome reply fun log => log

theorem addClient (c : Connection) : Adds (World.onClients (·.add c)) [.opened c] [] := by
  apply onClients
  intro s l h
  obtain ⟨records, done, after⟩ := ClientStore.add_eq_ok h c
  exact ⟨_, done, after⟩

theorem setDisconnected (id : String) (now : Timestamp) :
    Adds (World.onClients (·.setDisconnected id now)) [.closed id now] [] := by
  apply onClients
  intro s l h
  obtain ⟨records, done, after⟩ := ClientStore.setDisconnected_eq_ok h id now
  exact ⟨_, done, after⟩

theorem removeClient (id : String) : Adds (World.onClients (·.remove id)) [.ended id] [] := by
  apply onClients
  intro s l h
  obtain ⟨records, done, after⟩ := ClientStore.remove_eq_ok h id
  exact ⟨_, done, after⟩

theorem addSubscription (id : String) (sub : Subscription) :
    Adds (World.onSubscriptions (·.add id sub)) [] [.subscribed id sub] := by
  apply onSubscriptions
  intro s l h
  obtain ⟨records, done, after⟩ := SubscriptionStore.add_eq_ok h id sub
  exact ⟨_, done, after⟩

theorem removeSubscription (id filter : String) :
    Adds (World.onSubscriptions (·.remove id filter)) [] [.unsubscribed id filter] := by
  apply onSubscriptions
  intro s l h
  obtain ⟨records, done, after⟩ := SubscriptionStore.remove_eq_ok h id filter
  exact ⟨_, done, after⟩

theorem removeSubscriptions (id : String) :
    Adds (World.onSubscriptions (·.removeClient id)) [] [.cleared id] := by
  apply onSubscriptions
  intro s l h
  obtain ⟨records, done, after⟩ := SubscriptionStore.removeClient_eq_ok h id
  exact ⟨_, done, after⟩

end Action.Adds

open BrokerAdmin.Action (Adds)

theorem Event.track_adds (now : Timestamp) (e : Event) :
    Adds (e.track now) (e.clientEvents now) e.subscriptionEvents := by
  cases e with
  | created c => exact .addClient c
  | resumed c => exact .addClient c
  | closed id => exact .setDisconnected id now
  | terminated id reason =>
    by_cases h : reason = .takenOver
    · simp only [track, h, if_true, clientEvents]
      exact .reading fun _ _ _ _ => ⟨(), rfl⟩
    · simp only [track, h, if_false, clientEvents]
      exact (Adds.removeClient id).mapOutcome (fun _ => ()) fun log => log
  | subscribed id sub => exact .addSubscription id sub
  | unsubscribed id filter =>
    exact (Adds.removeSubscription id filter).mapOutcome (fun _ => ()) fun log => log

namespace Cleanup

theorem perform_adds (now : Timestamp) (id : String) (c : Cleanup) :
    Adds (c.perform now id) (c.clientEvents now id) (c.subscriptionEvents id) := by
  cases c with
  | reportClosed => exact Event.track_adds now (.closed id)
  | dropSubscriptions =>
    exact (Adds.removeSubscriptions id).mapOutcome (fun _ => ()) fun log => log
  | dropCounters => exact Adds.onMetrics fun t => ((), (t.deregister id).2)
  | reportTerminated => exact Event.track_adds now (.terminated id .normal)

theorem performAll_adds (now : Timestamp) (id : String) (cs : List Cleanup) :
    Adds (performAll now id cs) (cs.flatMap (·.clientEvents now id))
      (cs.flatMap (·.subscriptionEvents id)) := by
  induction cs with
  | nil => exact .reading fun _ _ _ _ => ⟨(), rfl⟩
  | cons c cs ih =>
    rw [List.flatMap_cons, List.flatMap_cons]
    exact (c.perform_adds now id).sequence ih fun _ a => a

end Cleanup

theorem World.Shows.noteCall {w : World} {cs : List ClientEvent} {ss : List SubscriptionEvent}
    (h : w.Shows cs ss) (c : SessionCall) : (w.noteCall c).Shows cs ss :=
  ⟨h.clients, h.subscriptions⟩

/-- A request that names a client notes one call, has the broker clean up and adds one line to what
that writes. -/
theorem World.deleteClient_of_named {id : String} (named : id.isEmpty = false)
    (control : SessionControl) (now : Timestamp) (clean : Bool) (w : World) :
    World.deleteClient control now id clean w = (do
      let o ← Cleanup.performAll now id (control.cleanups id clean)
        (w.noteCall (if clean then .terminate id else .close id))
      return ⟨.ok (), o.state, if clean then .sessionTerminating id :: o.log else
        o.log ++ [if control.hadConnection then .connectionClosed id else .noConnection id]⟩) := by
  unfold World.deleteClient SessionControl.cleanups
  rw [named]
  cases clean <;> rfl

theorem World.deleteClient_adds (control : SessionControl) (now : Timestamp) (id : String)
    (clean : Bool) :
    Adds (World.deleteClient control now id clean)
      ((control.cleanups id clean).flatMap (·.clientEvents now id))
      ((control.cleanups id clean).flatMap (·.subscriptionEvents id)) := by
  intro w cs ss h
  cases named : id.isEmpty with
  | true =>
    unfold World.deleteClient SessionControl.cleanups
    rw [named]
    exact ⟨_, rfl, by simpa using h⟩
  | false =>
    obtain ⟨o, done, after⟩ := Cleanup.performAll_adds now id (control.cleanups id clean) _ _ _
      (h.noteCall (if clean then .terminate id else .close id))
    rw [World.deleteClient_of_named named, done]
    exact ⟨_, rfl, after⟩

namespace World.Shows

variable {w : World} {cs : List ClientEvent} {ss : List SubscriptionEvent}

theorem get?_eq_ok (h : w.Shows cs ss) (id : String) :
    w.clients.get? w.metrics.clientStats id =
      .ok ((Listing.get? (Listing.after (cs.map ClientEvent.change)) id).map
        (·.enrich w.metrics.clientStats)) :=
  ClientStore.get?_eq_ok h.clients _ id

theorem listClients_eq_ok (h : w.Shows cs ss) (page pageSize : UInt32) :
    ∃ p, w.listClients page pageSize = .ok p := ⟨_, ClientStore.list_eq_ok h.clients _ _ _⟩

theorem listSubscriptions_eq_ok (h : w.Shows cs ss) (page pageSize : UInt32) :
    ∃ p, w.listSubscriptions page pageSize = .ok p :=
  ⟨_, SubscriptionStore.list_eq_ok h.subscriptions _ _⟩

theorem getClient_eq_ok (h : w.Shows cs ss) (id : String) : ∃ a, w.getClient id = .ok a := by
  unfold World.getClient
  cases id.isEmpty with
  | true => exact ⟨_, rfl⟩
  | false =>
    simp only [Bool.false_eq_true, if_false, h.get?_eq_ok, bind, Except.bind]
    cases Option.map (·.enrich w.metrics.clientStats)
      (Listing.get? (Listing.after (cs.map ClientEvent.change)) id) with
    | none => exact ⟨_, rfl⟩
    | some r => exact ⟨_, rfl⟩

end World.Shows

theorem Operation.perform_adds (control : SessionControl) (now : Timestamp) (op : Operation) :
    Adds (op.perform control now) (op.clientEvents control now)
      (op.subscriptionEvents control) := by
  unfold perform
  cases op with
  | event e => exact (e.track_adds now).replying _
  | addClient c => exact (Adds.addClient c).replying _
  | setDisconnected id => exact (Adds.setDisconnected id now).replying _
  | removeClient id => exact (Adds.removeClient id).replying _
  | findClient id =>
    refine Adds.replying (.reading ?_) _
    intro w cs ss h
    exact ⟨_, h.get?_eq_ok id⟩
  | pageClients page pageSize =>
    refine Adds.replying (.reading ?_) _
    intro w cs ss h
    exact ⟨_, ClientStore.list_eq_ok h.clients _ _ _⟩
  | addSubscription id sub => exact (Adds.addSubscription id sub).replying _
  | removeSubscription id filter =>
    exact (Adds.removeSubscription id filter).replying _
  | removeSubscriptions id => exact (Adds.removeSubscriptions id).replying _
  | pageSubscriptions page pageSize =>
    refine Adds.replying (.reading ?_) _
    intro w cs ss h
    exact ⟨_, SubscriptionStore.list_eq_ok h.subscriptions _ _⟩
  | listClients page pageSize =>
    refine Adds.replying (.reading ?_) _
    intro w cs ss h
    exact h.listClients_eq_ok page pageSize
  | listSubscriptions page pageSize =>
    refine Adds.replying (.reading ?_) _
    intro w cs ss h
    exact h.listSubscriptions_eq_ok page pageSize
  | getClient id =>
    refine Adds.replying (.reading ?_) _
    intro w cs ss h
    exact h.getClient_eq_ok id
  | deleteClient id clean =>
    exact (World.deleteClient_adds control now id clean).replying _
  | register id => exact (Adds.onMetrics (·.register id)).replying _
  | deregister id => exact (Adds.onMetrics (·.deregister id)).replying _
  | update h u =>
    exact (Adds.onMetrics fun t => ((), t.update h u)).replying _

namespace History

theorem perform_adds (control : SessionControl) (h : History) :
    Adds (h.perform control) (h.clientEvents control) (h.subscriptionEvents control) := by
  induction h with
  | nil => exact .reading fun _ _ _ _ => ⟨[], rfl⟩
  | cons s h ih =>
    exact (s.2.perform_adds control s.1).sequence ih fun reply replies => reply :: replies

/-- From an empty world on, no history meets a fault, and its events are what the listings show. -/
theorem perform_eq_ok (control : SessionControl) (settings : AdminSettings) (h : History) :
    ∃ o, h.perform control { settings } = .ok o ∧
      o.state.Shows (h.clientEvents control) (h.subscriptionEvents control) := by
  simpa only [List.nil_append] using h.perform_adds control _ _ _ (World.Shows.empty settings)

end History

end BrokerAdmin
