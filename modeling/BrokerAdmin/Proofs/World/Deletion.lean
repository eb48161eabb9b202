import BrokerAdmin.Proofs.World.Logging
import BrokerAdmin.Proofs.World.SubscriptionHistory

set_option autoImplicit false

/-!
Forcing a client off. A broker that cleans up within the call leaves nothing of the client and
everything of all others, in whichever order it does so; one that leaves the listings to later
events changes nothing by the call itself.
-/

namespace BrokerAdmin

def leaves {σ α : Type} (act : σ → Except Fault (Outcome σ α)) (s : σ) : Except Fault σ := do
  return (← act s).state

section Leaves

variable {σ α : Type} {act : σ → Except Fault (Outcome σ α)} {s t : σ}

theorem leaves_eq_ok {a : α} {log : List LogEvent} (done : act s = .ok ⟨a, t, log⟩) :
    leaves act s = .ok t := by
  rw [leaves, done]
  rfl

theorem state_of_leaves {o : Outcome σ α} (left : leaves act s = .ok t) (done : act s = .ok o) :
    o.state = t := by
  rw [leaves, done] at left
  exact Except.ok.inj left

end Leaves

namespace ClientStore

variable {s : ClientStore} {l : List (String × ClientRecord)}

theorem leaves_remove (s : ClientStore) (id : String) :
    leaves (·.remove id) s = ((s.records.erase id).map (·.2)).map ClientStore.mk := by
  simp only [leaves, remove]
  cases s.records.erase id <;> rfl

theorem leaves_remove_of_setDisconnected (h : s.records.Represents l) (id : String)
    (now : Timestamp) :
    (leaves (·.setDisconnected id now) s >>= leaves (·.remove id)) = leaves (·.remove id) s := by
  obtain ⟨marked, modified, -⟩ := h.modify id (·.disconnect now)
  have first : leaves (·.setDisconnected id now) s = .ok ⟨marked⟩ := by
    simp only [leaves, setDisconnected, modified]
    rfl
  rw [first, leaves_remove, ← Registry.map_erase_of_modify modified, ← leaves_remove ⟨marked⟩]
  rfl

theorem leaves_setDisconnected_of_remove (h : s.records.Represents l) (id : String)
    (now : Timestamp) :
    (leaves (·.remove id) s >>= leaves (·.setDisconnected id now)) = leaves (·.remove id) s := by
  obtain ⟨rest, erased, after⟩ := h.erase id
  have unknown := after.modify_of_unknown (Listing.contains_erase_self l id) (·.disconnect now)
  have first : leaves (·.remove id) s = .ok ⟨rest⟩ := by
    rw [leaves_remove, erased]
    rfl
  rw [first]
  simp only [bind, Except.bind, leaves, setDisconnected, unknown]
  rfl

end ClientStore

namespace World

variable {α : Type} (w : World)

theorem leaves_onClients (act : ClientStore → Except Fault (Outcome ClientStore α)) :
    leaves (onClients act) w = (leaves act w.clients).map fun clients => { w with clients } := by
  simp only [leaves, onClients]
  cases act w.clients <;> rfl

theorem leaves_onSubscriptions
    (act : SubscriptionStore → Except Fault (Outcome SubscriptionStore α)) :
    leaves (onSubscriptions act) w =
      (leaves act w.subscriptions).map fun subscriptions => { w with subscriptions } := by
  simp only [leaves, onSubscriptions]
  cases act w.subscriptions <;> rfl

end World

namespace Cleanup

variable (now : Timestamp) (id : String) (w : World)

theorem leaves_reportClosed : leaves (reportClosed.perform now id) w =
    (leaves (·.setDisconnected id now) w.clients).map fun clients => { w with clients } :=
  World.leaves_onClients w (·.setDisconnected id now)

theorem leaves_reportTerminated : leaves (reportTerminated.perform now id) w =
    (leaves (·.remove id) w.clients).map fun clients => { w with clients } := by
  rw [← World.leaves_onClients]
  simp only [leaves, perform, Event.track, reduceCtorEq, if_false]
  cases World.onClients (·.remove id) w <;> rfl

theorem leaves_dropSubscriptions : leaves (dropSubscriptions.perform now id) w =
    (leaves (·.removeClient id) w.subscriptions).map fun subscriptions =>
      { w with subscriptions } := by
  rw [← World.leaves_onSubscriptions]
  simp only [leaves, perform]
  cases World.onSubscriptions (·.removeClient id) w <;> rfl

theorem leaves_dropCounters : leaves (dropCounters.perform now id) w =
    .ok { w with metrics := (w.metrics.deregister id).2 } := rfl

theorem leaves_performAll_cons (c : Cleanup) (cs : List Cleanup) :
    leaves (performAll now id (c :: cs)) w =
      leaves (c.perform now id) w >>= leaves (performAll now id cs) := by
  simp only [leaves, performAll, bind, Except.bind]
  cases c.perform now id w with
  | error fault => rfl
  | ok o =>
    dsimp only [pure, Except.pure]
    cases performAll now id cs o.state <;> rfl

variable {w} {cs : List ClientEvent} {ss : List SubscriptionEvent}

/-- Either of two cleanups may come first. Only the two about the record concern the same store. -/
theorem leaves_comm (h : w.Shows cs ss) (c c' : Cleanup) :
    (leaves (c.perform now id) w >>= leaves (c'.perform now id)) =
      (leaves (c'.perform now id) w >>= leaves (c.perform now id)) := by
  have markedFirst := ClientStore.leaves_remove_of_setDisconnected h.clients id now
  have markedLast := ClientStore.leaves_setDisconnected_of_remove h.clients id now
  obtain ⟨closed, marked, -⟩ := ClientStore.setDisconnected_eq_ok h.clients id now
  obtain ⟨ended, removed, -⟩ := ClientStore.remove_eq_ok h.clients id
  obtain ⟨cleared, dropped, -⟩ := SubscriptionStore.removeClient_eq_ok h.subscriptions id
  replace marked : leaves (·.setDisconnected id now) w.clients = .ok ⟨closed⟩ := leaves_eq_ok marked
  replace removed : leaves (·.remove id) w.clients = .ok ⟨ended⟩ := leaves_eq_ok removed
  replace dropped : leaves (·.removeClient id) w.subscriptions = .ok ⟨cleared⟩ :=
    leaves_eq_ok dropped
  rw [marked, removed] at markedFirst
  rw [removed] at markedLast
  simp only [bind, Except.bind] at markedFirst markedLast
  cases c <;> cases c' <;>
    simp only [leaves_reportClosed, leaves_reportTerminated, leaves_dropSubscriptions,
      leaves_dropCounters, marked, removed, dropped, markedFirst, markedLast, bind, Except.bind,
      Except.map]

theorem leaves_performAll_perm {l l' : List Cleanup} (perm : l.Perm l') (h : w.Shows cs ss) :
    leaves (performAll now id l) w = leaves (performAll now id l') w := by
  induction perm generalizing w cs ss with
  | nil => rfl
  | cons c _ ih =>
    obtain ⟨o, done, after⟩ := c.perform_adds now id w cs ss h
    have left : leaves (c.perform now id) w = .ok o.state := leaves_eq_ok done
    rw [leaves_performAll_cons, leaves_performAll_cons, left]
    exact ih after
  | swap c c' l =>
    have step : ∀ first second : Cleanup, leaves (performAll now id (first :: second :: l)) w =
        leaves (first.perform now id) w >>= leaves (second.perform now id) >>=
          leaves (performAll now id l) := by
      intro first second
      have rest : leaves (performAll now id (second :: l)) = fun w =>
          leaves (second.perform now id) w >>= leaves (performAll now id l) :=
        funext fun w => leaves_performAll_cons now id w second l
      rw [leaves_performAll_cons, rest, bind_assoc]
    rw [step, step, leaves_comm now id h]
  | trans _ _ ih ih' => exact (ih h).trans (ih' h)

end Cleanup

/-- A session that ends takes its record along, whatever was noted of its connection before. -/
theorem ClientEvent.after_terminated (cs : List ClientEvent) (id : String) (now : Timestamp) :
    Listing.after ((cs ++ [closed id now, ended id]).map change) =
      Listing.erase (Listing.after (cs.map change)) id := by
  rw [← Listing.erase_modify _ id (·.disconnect now), List.map_append, Listing.after,
    List.foldl_append]
  rfl

theorem SubscriptionEvent.after_cleared (ss : List SubscriptionEvent) (id : String) :
    Listing.after ((ss ++ [cleared id]).map change) =
      (Listing.after (ss.map change)).filter fun e => e.1.clientId != id := by
  rw [List.map_append, List.map_singleton, Listing.after_concat]
  rfl

/-- What readers find in a world, however it is kept. -/
structure Contents where
  settings : AdminSettings
  clients : List ClientRecord
  subscriptions : List SubscriptionRecord
  handles : String → Option Handle
  lives : Array Counters

namespace Contents

def without (v : Contents) (id : String) : Contents :=
  { v with
    clients := v.clients.filter (·.clientId != id)
    subscriptions := v.subscriptions.filter (·.clientId != id)
    handles := fun a => if a = id then none else v.handles a }

/-- With the time of disconnection noted in the client's record, and all else of it kept. -/
def disconnecting (v : Contents) (id : String) (now : Timestamp) : Contents :=
  { v with
    clients := v.clients.map fun r =>
      if r.clientId = id then { r with disconnectedAt := some now } else r }

theorem without_without (v : Contents) (id : String) :
    (v.without id).without id = v.without id := by
  simp only [without, List.filter_filter, Bool.and_self]
  congr
  funext a
  by_cases own : a = id
  · rw [if_pos own, if_pos own]
  · rw [if_neg own]

end Contents

namespace World

structure Has (w : World) (v : Contents) : Prop where
  settings : w.settings = v.settings
  clients : w.clients.Lists v.clients
  subscriptions : w.subscriptions.Lists v.subscriptions
  handles : ∀ id, w.metrics.handle? id = v.handles id
  lives : w.metrics.lives = v.lives

theorem Shows.exists_contents {w : World} {cs : List ClientEvent} {ss : List SubscriptionEvent}
    (h : w.Shows cs ss) : ∃ v, w.Has v := by
  obtain ⟨l, lists, -⟩ := h.exists_clients
  obtain ⟨m, lists', -⟩ := h.exists_subscriptions
  exact ⟨⟨w.settings, l, m, w.metrics.handle?, w.metrics.lives⟩,
    rfl, lists, lists', fun _ => rfl, rfl⟩

section Deleting

variable {w : World} {v : Contents} {cs : List ClientEvent} {ss : List SubscriptionEvent}
  {id : String}

theorem Has.after_clients (has : w.Has v) (shows : w.Shows cs ss) :
    Listing.after (cs.map ClientEvent.change) = v.clients.map fun r => (r.clientId, r) :=
  Except.ok.inj (shows.clients.toList.symm.trans has.clients.toList)

theorem Has.after_subscriptions (has : w.Has v) (shows : w.Shows cs ss) :
    Listing.after (ss.map SubscriptionEvent.change) =
      v.subscriptions.map fun r => (⟨r.clientId, r.topicFilter⟩, r) :=
  Except.ok.inj (shows.subscriptions.toList.symm.trans has.subscriptions.toList)

theorem deleteClient_empty (control : SessionControl) (now : Timestamp) (clean : Bool) (w : World) :
    deleteClient control now "" clean w =
      .ok ⟨.error (.invalidArgument "client_id" ""), w, []⟩ := rfl

theorem leaves_deleteClient (named : id.isEmpty = false) (control : SessionControl)
    (now : Timestamp) (clean : Bool) (w : World) : leaves (deleteClient control now id clean) w =
      leaves (Cleanup.performAll now id (control.cleanups id clean))
        (w.noteCall (if clean then .terminate id else .close id)) := by
  rw [leaves, deleteClient_of_named named, leaves]
  cases Cleanup.performAll now id (control.cleanups id clean) _ <;> rfl

theorem cleanups_of_named (named : id.isEmpty = false) (control : SessionControl) (clean : Bool) :
    control.cleanups id clean = if clean then control.onTerminate else control.onClose := by
  rw [SessionControl.cleanups, named]
  rfl

theorem answer_of_deleteClient (named : id.isEmpty = false) {control : SessionControl}
    {now : Timestamp} {clean : Bool} {o : Outcome World (Except AdminError Unit)}
    (done : deleteClient control now id clean w = .ok o) : o.answer = .ok () := by
  rw [deleteClient_of_named named] at done
  obtain ⟨o', -, eq⟩ := exists_of_bind_eq_ok done
  cases eq
  rfl

theorem Shows.calls_of_deleteClient (shows : w.Shows cs ss) (named : id.isEmpty = false)
    {control : SessionControl} {now : Timestamp} {clean : Bool}
    {o : Outcome World (Except AdminError Unit)}
    (done : deleteClient control now id clean w = .ok o) :
    o.state.calls = w.calls.push (if clean then .terminate id else .close id) := by
  have logged := (deleteClient_logs control now id clean).logged w cs ss o shows done
  have nonempty : ¬id.isEmpty = true := by simp [named]
  apply Array.toList_inj.1
  rw [logged.calls, Operation.sessionCalls, if_neg nonempty, Array.toList_push]

/-- Nothing of the client is left, and nothing else has changed. -/
theorem Has.of_terminated (has : w.Has v) (shows : w.Shows cs ss) (named : id.isEmpty = false)
    {had : Bool} {now : Timestamp} {o : Outcome World (Except AdminError Unit)}
    (done : deleteClient (.acting had) now id true w = .ok o) : o.state.Has (v.without id) := by
  obtain ⟨o', again, after⟩ := deleteClient_adds (.acting had) now id true w cs ss shows
  cases done.symm.trans again
  have logged := (deleteClient_logs (.acting had) now id true).logged w cs ss o shows done
  have metrics := deleteClient_meters (.acting had) now id true w o done
  rw [cleanups_of_named named] at after metrics
  constructor
  · rw [logged.settings]
    exact has.settings
  · apply ClientStore.lists_of_represents
    have clients := ClientEvent.after_terminated cs id now
    rw [has.after_clients shows, Listing.erase_map] at clients
    exact clients ▸ after.clients
  · apply SubscriptionStore.lists_of_represents
    have subscriptions := SubscriptionEvent.after_cleared ss id
    rw [has.after_subscriptions shows, List.filter_map] at subscriptions
    exact subscriptions ▸ after.subscriptions
  · intro a
    have handle : o.state.metrics.handle? a = if a = id then none else w.metrics.handle? a := by
      rw [metrics]
      exact MetricsTable.handle?_deregister w.metrics id a
    rw [handle, has.handles]
    rfl
  · rw [metrics]
    exact has.lives

theorem Shows.state_of_perm (shows : w.Shows cs ss) (named : id.isEmpty = false) {had : Bool}
    {now : Timestamp} {order : List Cleanup} (perm : order.Perm Cleanup.endSession)
    {o o' : Outcome World (Except AdminError Unit)}
    (done : deleteClient (.acting had) now id true w = .ok o)
    (done' : deleteClient { SessionControl.acting had with onTerminate := order } now id true w =
      .ok o') : o'.state = o.state := by
  have left : ∀ control : SessionControl, leaves (deleteClient control now id true) w =
      leaves (Cleanup.performAll now id control.onTerminate) (w.noteCall (.terminate id)) := by
    intro control
    rw [leaves_deleteClient named, cleanups_of_named named]
    rfl
  apply Except.ok.inj (ε := Fault)
  calc
    .ok o'.state
      = leaves (Cleanup.performAll now id order) (w.noteCall (.terminate id)) :=
        (leaves_eq_ok done').symm.trans (left _)
    _ = leaves (Cleanup.performAll now id Cleanup.endSession) (w.noteCall (.terminate id)) :=
        Cleanup.leaves_performAll_perm now id perm (shows.noteCall (.terminate id))
    _ = .ok o.state := (left (.acting had)).symm.trans (leaves_eq_ok done)

/-- The client's record is marked, if it is listed, and nothing else has changed. -/
theorem Has.of_closed (has : w.Has v) (shows : w.Shows cs ss) (named : id.isEmpty = false)
    {had : Bool} {now : Timestamp} {o : Outcome World (Except AdminError Unit)}
    (done : deleteClient (.acting had) now id false w = .ok o) :
    o.state.Has (v.disconnecting id now) ∧
      o.state = { w with clients := o.state.clients, calls := w.calls.push (.close id) } := by
  obtain ⟨records, marked, after⟩ := ClientStore.setDisconnected_eq_ok shows.clients id now
  have left : leaves (deleteClient (.acting had) now id false) w =
      .ok { w.noteCall (.close id) with clients := ⟨records⟩ } := by
    have marked' : leaves (·.setDisconnected id now) (w.noteCall (.close id)).clients =
        .ok ⟨records⟩ := leaves_eq_ok marked
    rw [leaves_deleteClient named, cleanups_of_named named]
    simp only [Bool.false_eq_true, if_false, SessionControl.acting,
      Cleanup.leaves_performAll_cons, Cleanup.leaves_reportClosed, marked']
    rfl
  rw [state_of_leaves left done]
  refine ⟨⟨has.settings, ?_, has.subscriptions, has.handles, has.lives⟩, rfl⟩
  have kept : ∀ r : ClientRecord, (r.disconnect now).clientId = r.clientId := fun _ => rfl
  have noted : (v.disconnecting id now).clients =
      v.clients.map fun r => if r.clientId == id then r.disconnect now else r := by
    simp only [Contents.disconnecting, ClientRecord.disconnect, beq_iff_eq]
  apply ClientStore.lists_of_represents
  rw [has.after_clients shows, Listing.modify_map kept] at after
  rw [noted]
  exact after

/-- A broker that leaves the listings to later events only takes note of the call. -/
theorem state_of_passive (named : id.isEmpty = false) {had : Bool} {now : Timestamp} {clean : Bool}
    {o : Outcome World (Except AdminError Unit)}
    (done : deleteClient (.passive had) now id clean w = .ok o) :
    o.state = w.noteCall (if clean then .terminate id else .close id) := by
  refine state_of_leaves ?_ done
  rw [leaves_deleteClient named, cleanups_of_named named]
  cases clean <;> rfl

/-- What holds of every request to force a client off a world with these contents. -/
structure Deletes (w : World) (v : Contents) : Prop where
  refused : ∀ control now clean, deleteClient control now "" clean w =
    .ok ⟨.error (.invalidArgument "client_id" ""), w, []⟩
  called : ∀ control now id clean, id ≠ "" → ∃ o, deleteClient control now id clean w = .ok o ∧
    o.answer = .ok () ∧ o.state.calls = w.calls.push (if clean then .terminate id else .close id)
  alone : ∀ had now id clean, id ≠ "" → ∃ o,
    deleteClient (.passive had) now id clean w = .ok o ∧
      o.state = w.noteCall (if clean then .terminate id else .close id)
  terminated : ∀ had now id, id ≠ "" → ∃ o, deleteClient (.acting had) now id true w = .ok o ∧
    o.state.Has (v.without id) ∧
    (∀ order, order.Perm Cleanup.endSession → ∃ o',
      deleteClient { SessionControl.acting had with onTerminate := order } now id true w = .ok o' ∧
        o'.state = o.state) ∧
    ∀ had' now', ∃ o', deleteClient (.acting had') now' id true o.state = .ok o' ∧
      o'.state.Has (v.without id)
  closed : ∀ had now id, id ≠ "" → ∃ o, deleteClient (.acting had) now id false w = .ok o ∧
    o.state.Has (v.disconnecting id now) ∧
    o.state = { w with clients := o.state.clients, calls := w.calls.push (.close id) }

theorem Shows.deletes (shows : w.Shows cs ss) (has : w.Has v) : w.Deletes v := by
  have exists_outcome : ∀ control now id clean, ∃ o,
      deleteClient control now id clean w = .ok o := by
    intro control now id clean
    obtain ⟨o, done, -⟩ := deleteClient_adds control now id clean w cs ss shows
    exact ⟨o, done⟩
  have named : ∀ id : String, id ≠ "" → id.isEmpty = false := fun _ nonempty => by
    simpa using nonempty
  constructor
  · exact fun control now clean => deleteClient_empty control now clean w
  · intro control now id clean nonempty
    obtain ⟨o, done⟩ := exists_outcome control now id clean
    exact ⟨o, done, answer_of_deleteClient (named id nonempty) done,
      shows.calls_of_deleteClient (named id nonempty) done⟩
  · intro had now id clean nonempty
    obtain ⟨o, done⟩ := exists_outcome (.passive had) now id clean
    exact ⟨o, done, state_of_passive (named id nonempty) done⟩
  · intro had now id nonempty
    obtain ⟨o, done, after⟩ := deleteClient_adds (.acting had) now id true w cs ss shows
    have gone := has.of_terminated shows (named id nonempty) done
    refine ⟨o, done, gone, fun order perm => ?_, fun had' now' => ?_⟩
    · obtain ⟨o', done'⟩ := exists_outcome { SessionControl.acting had with onTerminate := order }
        now id true
      exact ⟨o', done', shows.state_of_perm (named id nonempty) perm done done'⟩
    · obtain ⟨o', done', -⟩ := deleteClient_adds (.acting had') now' id true o.state _ _ after
      have still := gone.of_terminated after (named id nonempty) done'
      rw [Contents.without_without] at still
      exact ⟨o', done', still⟩
  · intro had now id nonempty
    obtain ⟨o, done⟩ := exists_outcome (.acting had) now id false
    exact ⟨o, done, has.of_closed shows (named id nonempty) done⟩

end Deleting

end World

/-- Whatever has been done before, forcing a client off removes what belongs to the client or marks
its record, if the broker cleans up within the call, and leaves all others alone. -/
theorem History.delete_framed (control : SessionControl) (settings : AdminSettings) (h : History) :
    ∃ o v, h.perform control { settings } = .ok o ∧ o.state.Has v ∧ o.state.Deletes v := by
  obtain ⟨o, done, shows⟩ := h.perform_eq_ok control settings
  obtain ⟨v, has⟩ := shows.exists_contents
  exact ⟨o, v, done, has, shows.deletes has⟩

/-- One of two clients goes, its record first and its connection last, or is only disconnected. -/
theorem History.delete_framed_reversed :
    let opened (id : String) : Operation :=
      .addClient ⟨id, none, .v5, 0, 0, 0, 0, 0, "local", "remote", ⟨1⟩⟩
    let h : History := [(⟨1⟩, opened "a"), (⟨2⟩, .addSubscription "a" (.plain "t" {})),
      (⟨3⟩, opened "b"), (⟨4⟩, .addSubscription "b" (.plain "t" {})), (⟨5⟩, .register "a")]
    let control := { SessionControl.acting true with onTerminate := Cleanup.endSession.reverse }
    let shown (v : Contents) := v.clients.map fun r => (r.clientId, r.disconnectedAt)
    ∃ o v o₁ o₂, h.perform (.passive true) {} = .ok o ∧ o.state.Has v ∧
      World.deleteClient control ⟨6⟩ "a" true o.state = .ok o₁ ∧ o₁.state.Has (v.without "a") ∧
      World.deleteClient control ⟨7⟩ "a" false o.state = .ok o₂ ∧
      o₂.state.Has (v.disconnecting "a" ⟨7⟩) ∧
      shown v = [("a", none), ("b", none)] ∧ shown (v.without "a") = [("b", none)] ∧
      shown (v.disconnecting "a" ⟨7⟩) = [("a", some ⟨7⟩), ("b", none)] := by
  intro opened h control shown
  obtain ⟨o, v, done, has, deletes⟩ := History.delete_framed (.passive true) {} h
  obtain ⟨o', -, gone, orders, -⟩ := deletes.terminated true ⟨6⟩ "a" (by decide)
  obtain ⟨o₁, done₁, same⟩ := orders Cleanup.endSession.reverse (List.reverse_perm _)
  obtain ⟨o₂, done₂, closed, -⟩ := deletes.closed true ⟨7⟩ "a" (by decide)
  obtain ⟨o'', done'', shows⟩ := h.perform_eq_ok (.passive true) {}
  cases done.symm.trans done''
  have clients : v.clients = (Listing.after
      ((h.clientEvents (.passive true)).map ClientEvent.change)).map (·.2) := by
    rw [has.after_clients shows, List.map_map, Function.comp_def, List.map_id']
  refine ⟨o, v, o₁, o₂, done, has, done₁, same ▸ gone, done₂, closed, ?_, ?_, ?_⟩
  · simp only [shown, clients]
    decide
  · simp only [shown, Contents.without, clients]
    decide
  · simp only [shown, Contents.disconnecting, clients]
    decide

end BrokerAdmin
