import BrokerAdmin.Proofs.World.LiveCounters

set_option autoImplicit false

/-!
What operations do besides changing listings and counters. The lines about a listing follow from
its events and from what is listed when they come; every call to the broker's sessions writes one
line of its own; the settings stay as they are.
-/

namespace BrokerAdmin

inductive LogEvent.Subject where
  | clients
  | subscriptions
  | sessions
  | backends
  deriving DecidableEq, Repr

namespace LogEvent

def subject : LogEvent → Subject
  | clientAdded _ | clientReplaced _ | clientDisconnected _ | clientRemoved _ => .clients
  | subscriptionAdded _ _ | subscriptionUpdated _ _ | subscriptionRemoved _ _
  | subscriptionsRemoved _ _ => .subscriptions
  | sessionTerminating _ | connectionClosed _ | noConnection _ => .sessions
  | factoryReplaced _ | backendOpened _ => .backends

def about (s : Subject) (log : List LogEvent) : List LogEvent := log.filter (·.subject = s)

variable {s s' : Subject} {log log' : List LogEvent}

theorem about_append : about s (log ++ log') = about s log ++ about s log' :=
  List.filter_append log log'

theorem about_eq_self (own : ∀ e ∈ log, e.subject = s) : about s log = log :=
  List.filter_eq_self.2 fun e he => decide_eq_true (own e he)

theorem about_eq_nil (own : ∀ e ∈ log, e.subject = s') (other : s' ≠ s) : about s log = [] := by
  apply List.filter_eq_nil_iff.2
  intro e he
  simpa [own e he] using other

end LogEvent

/-- The line that a call writes, which tells whether a connection was there to close. -/
def SessionCall.line (hadConnection : Bool) : SessionCall → LogEvent
  | terminate id => .sessionTerminating id
  | close id => if hadConnection then .connectionClosed id else .noConnection id

/-- What the event writes when it finds the clients `l`. -/
def ClientEvent.line (l : List (String × ClientRecord)) : ClientEvent → List LogEvent
  | opened c =>
    [if Listing.contains l c.clientId then .clientReplaced c.clientId else .clientAdded c.clientId]
  | closed id _ => if Listing.contains l id then [.clientDisconnected id] else []
  | ended id => if Listing.contains l id then [.clientRemoved id] else []

/-- What the event writes when it finds the subscriptions `l`. -/
def SubscriptionEvent.line (l : List (SubscriptionKey × SubscriptionRecord)) :
    SubscriptionEvent → List LogEvent
  | subscribed id sub =>
    [if Listing.contains l ⟨id, sub.fullFilter⟩ then .subscriptionUpdated sub.fullFilter id
      else .subscriptionAdded sub.fullFilter id]
  | unsubscribed id filter =>
    if Listing.contains l ⟨id, filter⟩ then [.subscriptionRemoved filter id] else []
  | cleared id =>
    if l.countP (fun e => e.1.clientId == id) = 0 then []
    else [.subscriptionsRemoved (l.countP fun e => e.1.clientId == id) id]

theorem ClientEvent.subject_of_mem_line {l : List (String × ClientRecord)} {e : ClientEvent}
    {line : LogEvent} (h : line ∈ e.line l) : line.subject = .clients := by
  cases e <;> simp only [ClientEvent.line] at h <;> split at h <;> simp_all [LogEvent.subject]

theorem SubscriptionEvent.subject_of_mem_line
    {l : List (SubscriptionKey × SubscriptionRecord)} {e : SubscriptionEvent} {line : LogEvent}
    (h : line ∈ e.line l) : line.subject = .subscriptions := by
  cases e <;> simp only [SubscriptionEvent.line] at h <;> split at h <;>
    simp_all [LogEvent.subject]

theorem SessionCall.subject_line (had : Bool) (c : SessionCall) :
    (c.line had).subject = .sessions := by
  cases c with
  | terminate id => rfl
  | close id => cases had <;> rfl

/-- What events write one after the other, each about the listing that it finds. -/
def Listing.lines {K V E : Type} [BEq K] (change : E → Listing.Change K V)
    (line : List (K × V) → E → List LogEvent) : List (K × V) → List E → List LogEvent
  | _, [] => []
  | l, e :: es => line l e ++ lines change line ((change e).apply l) es

def ClientEvent.lines : List (String × ClientRecord) → List ClientEvent → List LogEvent :=
  Listing.lines ClientEvent.change ClientEvent.line

def SubscriptionEvent.lines :
    List (SubscriptionKey × SubscriptionRecord) → List SubscriptionEvent → List LogEvent :=
  Listing.lines SubscriptionEvent.change SubscriptionEvent.line

section Lines

variable {K V E : Type} [BEq K] {change : E → Listing.Change K V}
  {line : List (K × V) → E → List LogEvent}

theorem Listing.lines_append (l : List (K × V)) (es es' : List E) :
    Listing.lines change line l (es ++ es') = Listing.lines change line l es ++
      Listing.lines change line ((es.map change).foldl Listing.Change.apply l) es' := by
  induction es generalizing l with
  | nil => rfl
  | cons e es ih =>
    rw [List.cons_append, lines, ih, lines, List.append_assoc, List.map_cons, List.foldl_cons]

theorem Listing.lines_after_append (es₀ es es' : List E) :
    Listing.lines change line (after (es₀.map change)) (es ++ es') =
      Listing.lines change line (after (es₀.map change)) es ++
        Listing.lines change line (after ((es₀ ++ es).map change)) es' := by
  rw [Listing.lines_append, after, after, List.map_append, List.foldl_append]

theorem Listing.lines_singleton (l : List (K × V)) (e : E) :
    Listing.lines change line l [e] = line l e := List.append_nil _

end Lines

def Operation.sessionCalls : Operation → List SessionCall
  | deleteClient id clean =>
    if id.isEmpty then [] else [if clean then .terminate id else .close id]
  | _ => []

def History.sessionCalls (h : History) : List SessionCall := h.flatMap fun s => s.2.sessionCalls

/-- An action in a world that shows `cs₀` and `ss₀` has called the broker's sessions in this way
and written what the events `cs` and `ss` and the calls write, and nothing else. -/
structure World.Logged {α : Type} (w : World) (cs₀ : List ClientEvent)
    (ss₀ : List SubscriptionEvent) (had : Bool) (cs : List ClientEvent)
    (ss : List SubscriptionEvent) (made : List SessionCall) (o : Outcome World α) : Prop where
  settings : o.state.settings = w.settings
  calls : o.state.calls.toList = w.calls.toList ++ made
  clients : LogEvent.about .clients o.log =
    ClientEvent.lines (Listing.after (cs₀.map ClientEvent.change)) cs
  subscriptions : LogEvent.about .subscriptions o.log =
    SubscriptionEvent.lines (Listing.after (ss₀.map SubscriptionEvent.change)) ss
  sessions : LogEvent.about .sessions o.log = made.map (·.line had)
  backends : LogEvent.about .backends o.log = []

theorem World.Logged.of_silent {α : Type} {w : World} {cs₀ : List ClientEvent}
    {ss₀ : List SubscriptionEvent} {had : Bool} {o : Outcome World α}
    (settings : o.state.settings = w.settings) (calls : o.state.calls = w.calls)
    (silent : o.log = []) : w.Logged cs₀ ss₀ had [] [] [] o := by
  constructor
  · exact settings
  · rw [calls, List.append_nil]
  all_goals
    rw [silent]
    rfl

/-- In every world the action adds these events to what the listings show, calls the broker's
sessions in this way, and logs just that. -/
structure Action.Logs {α : Type} (act : Action α) (had : Bool) (cs : List ClientEvent)
    (ss : List SubscriptionEvent) (calls : List SessionCall) : Prop where
  adds : Adds act cs ss
  logged : ∀ w cs₀ ss₀ o, World.Shows w cs₀ ss₀ → act w = .ok o → w.Logged cs₀ ss₀ had cs ss calls o

namespace Action.Logs

open World

variable {α β : Type} {had : Bool} {cs cs' : List ClientEvent} {ss ss' : List SubscriptionEvent}
  {calls calls' : List SessionCall}

theorem reading {read : World → Except Fault α} (adds : Adds (World.reading read) [] []) :
    Logs (World.reading read) had [] [] [] := by
  refine ⟨adds, fun w cs₀ ss₀ o _ done => ?_⟩
  obtain ⟨a, -, eq⟩ := exists_of_bind_eq_ok done
  cases eq
  exact .of_silent rfl rfl rfl

theorem replyingReading {read : World → Except Fault α} {reply : α → Reply}
    (adds : Adds (Operation.replying (World.reading read) reply) [] []) :
    Logs (Operation.replying (World.reading read) reply) had [] [] [] := by
  refine ⟨adds, fun w cs₀ ss₀ o _ done => ?_⟩
  obtain ⟨o', ran, eq⟩ := exists_of_bind_eq_ok done
  obtain ⟨a, -, eq'⟩ := exists_of_bind_eq_ok ran
  cases eq'
  cases eq
  exact .of_silent rfl rfl rfl

theorem onMetrics (act : MetricsTable → α × MetricsTable) :
    Logs (World.onMetrics act) had [] [] [] := by
  refine ⟨Adds.onMetrics act, fun w cs₀ ss₀ o _ done => ?_⟩
  cases done
  exact .of_silent rfl rfl rfl

theorem onClients {act : ClientStore → Except Fault (Outcome ClientStore α)} {e : ClientEvent}
    (adds : Adds (World.onClients act) [e] [])
    (writes : ∀ s l o, s.records.Represents l → act s = .ok o → o.log = e.line l) :
    Logs (World.onClients act) had [e] [] [] := by
  refine ⟨adds, fun w cs₀ ss₀ o h done => ?_⟩
  obtain ⟨o', ran, eq⟩ := exists_of_bind_eq_ok done
  cases eq
  have own : ∀ line ∈ o'.log, line.subject = .clients := by
    intro line hline
    rw [writes _ _ _ h.clients ran] at hline
    exact ClientEvent.subject_of_mem_line hline
  have others : ∀ s, .clients ≠ s → LogEvent.about s o'.log = [] :=
    fun _ other => LogEvent.about_eq_nil own other
  refine ⟨rfl, (List.append_nil _).symm, ?_, others _ (by decide), others _ (by decide),
    others _ (by decide)⟩
  rw [LogEvent.about_eq_self own, ClientEvent.lines, Listing.lines_singleton]
  exact writes _ _ _ h.clients ran

theorem onSubscriptions {act : SubscriptionStore → Except Fault (Outcome SubscriptionStore α)}
    {e : SubscriptionEvent} (adds : Adds (World.onSubscriptions act) [] [e])
    (writes : ∀ s l o, s.records.Represents l → act s = .ok o → o.log = e.line l) :
    Logs (World.onSubscriptions act) had [] [e] [] := by
  refine ⟨adds, fun w cs₀ ss₀ o h done => ?_⟩
  obtain ⟨o', ran, eq⟩ := exists_of_bind_eq_ok done
  cases eq
  have own : ∀ line ∈ o'.log, line.subject = .subscriptions := by
    intro line hline
    rw [writes _ _ _ h.subscriptions ran] at hline
    exact SubscriptionEvent.subject_of_mem_line hline
  have others : ∀ s, .subscriptions ≠ s → LogEvent.about s o'.log = [] :=
    fun _ other => LogEvent.about_eq_nil own other
  refine ⟨rfl, (List.append_nil _).symm, others _ (by decide), ?_, others _ (by decide),
    others _ (by decide)⟩
  rw [LogEvent.about_eq_self own, SubscriptionEvent.lines, Listing.lines_singleton]
  exact writes _ _ _ h.subscriptions ran

theorem mapAnswer {act : Action α} (h : Logs act had cs ss calls) (answer : α → β) :
    Logs (fun w => do
      let o ← act w
      return ⟨answer o.answer, o.state, o.log⟩) had cs ss calls := by
  refine ⟨h.adds.mapOutcome answer fun log => log, fun w cs₀ ss₀ o shows done => ?_⟩
  obtain ⟨first, ran, eq⟩ := exists_of_bind_eq_ok done
  cases eq
  exact { h.logged w cs₀ ss₀ first shows ran with }

theorem sequence {first : Action α} {second : Action β} (h : Logs first had cs ss calls)
    (h' : Logs second had cs' ss' calls') {γ : Type} (answer : α → β → γ) :
    Logs (fun w => do
      let o ← first w
      let o' ← second o.state
      return ⟨answer o.answer o'.answer, o'.state, o.log ++ o'.log⟩) had (cs ++ cs') (ss ++ ss')
      (calls ++ calls') := by
  refine ⟨h.adds.sequence h'.adds answer, fun w cs₀ ss₀ o shows done => ?_⟩
  obtain ⟨o₁, ran, rest⟩ := exists_of_bind_eq_ok done
  obtain ⟨o₂, ran', eq⟩ := exists_of_bind_eq_ok rest
  cases eq
  obtain ⟨o₁', again, shows'⟩ := h.adds w cs₀ ss₀ shows
  cases ran.symm.trans again
  have earlier := h.logged w cs₀ ss₀ o₁ shows ran
  have later := h'.logged o₁.state _ _ o₂ shows' ran'
  constructor
  · rw [later.settings, earlier.settings]
  · rw [later.calls, earlier.calls, List.append_assoc]
  · rw [LogEvent.about_append, earlier.clients, later.clients, ClientEvent.lines,
      Listing.lines_after_append]
  · rw [LogEvent.about_append, earlier.subscriptions, later.subscriptions,
      SubscriptionEvent.lines, Listing.lines_after_append]
  · rw [LogEvent.about_append, earlier.sessions, later.sessions, List.map_append]
  · rw [LogEvent.about_append, earlier.backends, later.backends, List.append_nil]

theorem replying {act : Action α} (h : Logs act had cs ss calls) (reply : α → Reply) :
    Logs (Operation.replying act reply) had cs ss calls := h.mapAnswer reply

theorem addClient (c : Connection) : Logs (World.onClients (·.add c)) had [.opened c] [] [] := by
  apply onClients (.addClient c)
  intro s l o h done
  obtain ⟨records, ran, -⟩ := ClientStore.add_eq_ok h c
  cases ran.symm.trans done
  rfl

theorem setDisconnected (id : String) (now : Timestamp) :
    Logs (World.onClients (·.setDisconnected id now)) had [.closed id now] [] [] := by
  apply onClients (.setDisconnected id now)
  intro s l o h done
  obtain ⟨records, ran, -⟩ := ClientStore.setDisconnected_eq_ok h id now
  cases ran.symm.trans done
  rfl

theorem removeClient (id : String) :
    Logs (World.onClients (·.remove id)) had [.ended id] [] [] := by
  apply onClients (.removeClient id)
  intro s l o h done
  obtain ⟨records, ran, -⟩ := ClientStore.remove_eq_ok h id
  cases ran.symm.trans done
  rfl

theorem addSubscription (id : String) (sub : Subscription) :
    Logs (World.onSubscriptions (·.add id sub)) had [] [.subscribed id sub] [] := by
  apply onSubscriptions (.addSubscription id sub)
  intro s l o h done
  obtain ⟨records, ran, -⟩ := SubscriptionStore.add_eq_ok h id sub
  cases ran.symm.trans done
  rfl

theorem removeSubscription (id filter : String) :
    Logs (World.onSubscriptions (·.remove id filter)) had [] [.unsubscribed id filter] [] := by
  apply onSubscriptions (.removeSubscription id filter)
  intro s l o h done
  obtain ⟨records, ran, -⟩ := SubscriptionStore.remove_eq_ok h id filter
  cases ran.symm.trans done
  rfl

theorem removeSubscriptions (id : String) :
    Logs (World.onSubscriptions (·.removeClient id)) had [] [.cleared id] [] := by
  apply onSubscriptions (.removeSubscriptions id)
  intro s l o h done
  obtain ⟨records, ran, -⟩ := SubscriptionStore.removeClient_eq_ok h id
  cases ran.symm.trans done
  rfl

end Action.Logs

open BrokerAdmin.Action (Adds Logs)

variable {had : Bool}

theorem Event.track_logs (now : Timestamp) (e : Event) :
    Logs (e.track now) had (e.clientEvents now) e.subscriptionEvents [] := by
  cases e with
  | created c => exact Logs.addClient c
  | resumed c => exact Logs.addClient c
  | closed id => exact Logs.setDisconnected id now
  | terminated id reason =>
    by_cases h : reason = .takenOver
    · simp only [track, h, if_true, clientEvents]
      exact .reading (.reading fun _ _ _ _ => ⟨(), rfl⟩)
    · simp only [track, h, if_false, clientEvents]
      exact (Logs.removeClient id).mapAnswer fun _ => ()
  | subscribed id sub => exact Logs.addSubscription id sub
  | unsubscribed id filter => exact (Logs.removeSubscription id filter).mapAnswer fun _ => ()

namespace Cleanup

theorem perform_logs (now : Timestamp) (id : String) (c : Cleanup) :
    Logs (c.perform now id) had (c.clientEvents now id) (c.subscriptionEvents id) [] := by
  cases c with
  | reportClosed => exact Event.track_logs now (.closed id)
  | dropSubscriptions => exact (Logs.removeSubscriptions id).mapAnswer fun _ => ()
  | dropCounters => exact Logs.onMetrics fun t => ((), (t.deregister id).2)
  | reportTerminated => exact Event.track_logs now (.terminated id .normal)

theorem performAll_logs (now : Timestamp) (id : String) (cs : List Cleanup) :
    Logs (performAll now id cs) had (cs.flatMap (·.clientEvents now id))
      (cs.flatMap (·.subscriptionEvents id)) [] := by
  induction cs with
  | nil => exact .reading (.reading fun _ _ _ _ => ⟨(), rfl⟩)
  | cons c cs ih =>
    rw [List.flatMap_cons, List.flatMap_cons]
    exact (c.perform_logs now id).sequence ih fun _ a => a

end Cleanup

/-- A call of which the broker's own actions know nothing adds its line to theirs, in front or
behind. -/
theorem World.Logged.ofCall {α β : Type} {w : World} {cs₀ cs : List ClientEvent}
    {ss₀ ss : List SubscriptionEvent} {c : SessionCall} {o : Outcome World α}
    (within : (w.noteCall c).Logged cs₀ ss₀ had cs ss [] o) (answer : β) {log : List LogEvent}
    (written : log = c.line had :: o.log ∨ log = o.log ++ [c.line had]) :
    w.Logged cs₀ ss₀ had cs ss [c] ⟨answer, o.state, log⟩ := by
  have own : ∀ line ∈ [c.line had], line.subject = .sessions := by
    simp [SessionCall.subject_line]
  have others : ∀ s, .sessions ≠ s → LogEvent.about s log = LogEvent.about s o.log := by
    intro s other
    rcases written with rfl | rfl
    · rw [← List.singleton_append, LogEvent.about_append, LogEvent.about_eq_nil own other,
        List.nil_append]
    · rw [LogEvent.about_append, LogEvent.about_eq_nil own other, List.append_nil]
  have sessions : LogEvent.about .sessions log = [c.line had] := by
    rcases written with rfl | rfl
    · rw [← List.singleton_append, LogEvent.about_append, within.sessions,
        LogEvent.about_eq_self own, List.map_nil, List.append_nil]
    · rw [LogEvent.about_append, within.sessions, LogEvent.about_eq_self own, List.map_nil,
        List.nil_append]
  constructor
  · exact within.settings
  · rw [within.calls, List.append_nil, World.noteCall, Array.toList_push]
  · rw [others _ (by decide), within.clients]
  · rw [others _ (by decide), within.subscriptions]
  · exact sessions
  · rw [others _ (by decide), within.backends]

theorem World.deleteClient_logs (control : SessionControl) (now : Timestamp) (id : String)
    (clean : Bool) :
    Logs (World.deleteClient control now id clean) control.hadConnection
      ((control.cleanups id clean).flatMap (·.clientEvents now id))
      ((control.cleanups id clean).flatMap (·.subscriptionEvents id))
      (Operation.deleteClient id clean).sessionCalls := by
  refine ⟨World.deleteClient_adds control now id clean, fun w cs₀ ss₀ o shows done => ?_⟩
  cases named : id.isEmpty with
  | true =>
    unfold World.deleteClient at done
    rw [named] at done
    cases done
    have none : (Operation.deleteClient id clean).sessionCalls = [] := if_pos named
    rw [none, SessionControl.cleanups, named]
    exact .of_silent rfl rfl rfl
  | false =>
    rw [World.deleteClient_of_named named] at done
    obtain ⟨o', ran, eq⟩ := exists_of_bind_eq_ok done
    cases eq
    have one : (Operation.deleteClient id clean).sessionCalls =
        [if clean then .terminate id else .close id] := if_neg (by simp [named])
    rw [one]
    refine World.Logged.ofCall (o := o') ?_ _ ?_
    · apply (Cleanup.performAll_logs now id (control.cleanups id clean)).logged
      · exact shows.noteCall _
      · exact ran
    · cases clean with
      | true => exact .inl rfl
      | false => exact .inr rfl

theorem Operation.perform_logs (control : SessionControl) (now : Timestamp) (op : Operation) :
    Logs (op.perform control now) control.hadConnection (op.clientEvents control now)
      (op.subscriptionEvents control) op.sessionCalls := by
  have adds := op.perform_adds control now
  unfold perform at adds ⊢
  cases op with
  | event e => exact (e.track_logs now).replying _
  | addClient c => exact (Logs.addClient c).replying _
  | setDisconnected id => exact (Logs.setDisconnected id now).replying _
  | removeClient id => exact (Logs.removeClient id).replying _
  | addSubscription id sub => exact (Logs.addSubscription id sub).replying _
  | removeSubscription id filter => exact (Logs.removeSubscription id filter).replying _
  | removeSubscriptions id => exact (Logs.removeSubscriptions id).replying _
  | deleteClient id clean => exact (World.deleteClient_logs control now id clean).replying _
  | register id => exact (Logs.onMetrics (·.register id)).replying _
  | deregister id => exact (Logs.onMetrics (·.deregister id)).replying _
  | update h u => exact (Logs.onMetrics fun t => ((), t.update h u)).replying _
  | _ =>
    apply Logs.replyingReading
    exact adds

theorem History.perform_logs (control : SessionControl) (h : History) :
    Logs (h.perform control) control.hadConnection (h.clientEvents control)
      (h.subscriptionEvents control) h.sessionCalls := by
  induction h with
  | nil => exact .reading (.reading fun _ _ _ _ => ⟨[], rfl⟩)
  | cons s h ih =>
    exact (s.2.perform_logs control s.1).sequence ih fun reply replies => reply :: replies

end BrokerAdmin
