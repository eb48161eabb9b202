import BrokerAdmin.Proofs.Listing.Walk
import BrokerAdmin.Proofs.World.Logging

set_option autoImplicit false

/-!
The log as an account of the listings: what the lines so far say has been added, less what they
say has been removed, is what is listed. Which line an operation writes is decided by what is
listed when it comes, and an operation that finds nothing to change writes none.
-/

namespace BrokerAdmin

namespace LogEvent

def addedClients : LogEvent → Nat
  | clientAdded _ => 1
  | _ => 0

def removedClients : LogEvent → Nat
  | clientRemoved _ => 1
  | _ => 0

def addedSubscriptions : LogEvent → Nat
  | subscriptionAdded _ _ => 1
  | _ => 0

/-- A line about a single subscription counts one, a line about many counts what it says. -/
def removedSubscriptions : LogEvent → Nat
  | subscriptionRemoved _ _ => 1
  | subscriptionsRemoved count _ => count
  | _ => 0

def total (said : LogEvent → Nat) (log : List LogEvent) : Nat := (log.map said).sum

theorem total_append (said : LogEvent → Nat) (log log' : List LogEvent) :
    total said (log ++ log') = total said log + total said log' := by
  rw [total, List.map_append, List.sum_append, total, total]

theorem total_about {said : LogEvent → Nat} {s : Subject} (silent : ∀ e, e.subject ≠ s → said e = 0)
    (log : List LogEvent) : total said (about s log) = total said log := by
  induction log with
  | nil => rfl
  | cons e log ih =>
    rw [about, total, total] at ih ⊢
    by_cases own : e.subject = s
    · rw [List.filter_cons_of_pos (by simpa using own), List.map_cons, List.map_cons,
        List.sum_cons, List.sum_cons, ih]
    · rw [List.filter_cons_of_neg (by simpa using own), List.map_cons, List.sum_cons,
        silent e own, Nat.zero_add, ih]

theorem silent_of_ne_clients {e : LogEvent} (other : e.subject ≠ .clients) :
    addedClients e = 0 ∧ removedClients e = 0 := by
  cases e <;> simp_all [subject, addedClients, removedClients]

theorem silent_of_ne_subscriptions {e : LogEvent} (other : e.subject ≠ .subscriptions) :
    addedSubscriptions e = 0 ∧ removedSubscriptions e = 0 := by
  cases e <;> simp_all [subject, addedSubscriptions, removedSubscriptions]

/-- A log that tells of nothing but one of the listings is what it tells of that listing. -/
theorem eq_about_append {log : List LogEvent} (sessions : about .sessions log = [])
    (backends : about .backends log = [])
    (one : about .clients log = [] ∨ about .subscriptions log = []) :
    log = about .clients log ++ about .subscriptions log := by
  have told : ∀ e ∈ log, about e.subject log ≠ [] := by
    intro e he
    exact List.ne_nil_of_mem (List.mem_filter.2 ⟨he, decide_eq_true rfl⟩)
  cases one with
  | inl clients =>
    have own : ∀ e ∈ log, e.subject = .subscriptions := by
      intro e he
      have some := told e he
      cases subject : e.subject <;> simp_all
    rw [clients, List.nil_append, about_eq_self own]
  | inr subscriptions =>
    have own : ∀ e ∈ log, e.subject = .clients := by
      intro e he
      have some := told e he
      cases subject : e.subject <;> simp_all
    rw [subscriptions, List.append_nil, about_eq_self own]

end LogEvent

namespace Listing

variable {K V : Type} [BEq K]

theorem length_drop_add (l : List (K × V)) (p : K → Bool) :
    (Change.apply l (.drop p)).length + l.countP (fun e => p e.1) = l.length := by
  have both := List.length_eq_countP_add_countP (fun e : K × V => p e.1) (l := l)
  rw [Change.apply, ← List.countP_eq_length_filter, Nat.add_comm]
  simpa using both.symm

variable [LawfulBEq K]

theorem countP_key {l : List (K × V)} (nodup : (keys l).Nodup) (k : K) :
    l.countP (fun e => e.1 == k) = if contains l k then 1 else 0 := by
  have count : l.countP (fun e => e.1 == k) = (keys l).count k := by
    rw [List.count, keys, List.countP_map]
    rfl
  rw [count]
  by_cases known : k ∈ keys l
  · rw [if_pos ((contains_iff_mem_keys l k).2 known)]
    exact List.count_eq_one_of_mem nodup known
  · rw [if_neg (mt (contains_iff_mem_keys l k).1 known)]
    exact List.count_eq_zero_of_not_mem known

theorem length_erase_add {l : List (K × V)} (nodup : (keys l).Nodup) (k : K) :
    (erase l k).length + (if contains l k then 1 else 0) = l.length := by
  rw [← countP_key nodup]
  exact length_drop_add l (· == k)

end Listing

open LogEvent

/-- If every line is right about the listing that its event finds, then all lines together are
right about the listing in the end. -/
theorem Listing.length_after_add {K V E : Type} [DecidableEq K] {change : E → Change K V}
    {line : List (K × V) → E → List LogEvent} {added removed : LogEvent → Nat}
    (right : ∀ l e, (keys l).Nodup → ((change e).apply l).length + total removed (line l e) =
      l.length + total added (line l e)) (es : List E) :
    (after (es.map change)).length + total removed (lines change line [] es) =
      total added (lines change line [] es) := by
  induction es using List.reverseRecOn with
  | nil => rfl
  | append_singleton es e ih =>
    have last := right (after (es.map change)) e (nodup_keys_after _)
    have split : lines change line [] (es ++ [e]) =
        lines change line [] es ++ line (after (es.map change)) e := by
      rw [lines_append, lines_singleton]
      rfl
    rw [List.map_append, List.map_singleton, after_concat, split, LogEvent.total_append,
      LogEvent.total_append]
    omega

theorem ClientEvent.length_apply_add (l : List (String × ClientRecord)) (e : ClientEvent)
    (nodup : (Listing.keys l).Nodup) :
    (e.change.apply l).length + total removedClients (e.line l) =
      l.length + total addedClients (e.line l) := by
  cases e with
  | opened c =>
    rw [change, Listing.Change.apply, Listing.length_set, line]
    split <;> rfl
  | closed id time =>
    rw [change, Listing.Change.apply, Listing.length_modify, line]
    split <;> rfl
  | ended id =>
    have gone := Listing.length_erase_add nodup id
    rw [line]
    generalize Listing.contains l id = known at gone ⊢
    cases known <;> exact gone

theorem SubscriptionEvent.length_apply_add (l : List (SubscriptionKey × SubscriptionRecord))
    (e : SubscriptionEvent) (nodup : (Listing.keys l).Nodup) :
    (e.change.apply l).length + total removedSubscriptions (e.line l) =
      l.length + total addedSubscriptions (e.line l) := by
  cases e with
  | subscribed id sub =>
    rw [change, Listing.Change.apply, Listing.length_set, line]
    split <;> rfl
  | unsubscribed id filter =>
    have gone := Listing.length_erase_add nodup ⟨id, filter⟩
    rw [line]
    generalize Listing.contains l ⟨id, filter⟩ = known at gone ⊢
    cases known <;> exact gone
  | cleared id =>
    have gone := Listing.length_drop_add l (·.clientId == id)
    by_cases none : l.countP (fun e => e.1.clientId == id) = 0
    · rw [none] at gone
      rw [line, if_pos none]
      exact gone
    · rw [line, if_neg none]
      exact gone

namespace Operation

/-- Whatever makes no call to the broker's sessions is about one of the listings at most. -/
theorem clientEvents_eq_nil_or {op : Operation} (alone : op.sessionCalls = [])
    (control : SessionControl) (now : Timestamp) :
    op.clientEvents control now = [] ∨ op.subscriptionEvents control = [] := by
  cases op with
  | event e => cases e <;> simp [clientEvents, subscriptionEvents, Event.clientEvents,
      Event.subscriptionEvents]
  | deleteClient id clean =>
    have unnamed : id.isEmpty = true := by
      by_contra named
      rw [sessionCalls, if_neg named] at alone
      cases alone
    apply Or.inl
    rw [clientEvents, SessionControl.cleanups, if_pos unnamed, List.flatMap_nil]
  | addSubscription id sub => exact .inl rfl
  | removeSubscription id filter => exact .inl rfl
  | removeSubscriptions id => exact .inl rfl
  | _ => exact .inr rfl

/-- What an operation writes that finds the clients `l` and the subscriptions `m`. One that makes
no call to the broker's sessions writes nothing else. -/
structure Writes (op : Operation) (control : SessionControl) (now : Timestamp)
    (l : List (String × ClientRecord)) (m : List (SubscriptionKey × SubscriptionRecord))
    (log : List LogEvent) : Prop where
  clients : about .clients log = ClientEvent.lines l (op.clientEvents control now)
  subscriptions : about .subscriptions log =
    SubscriptionEvent.lines m (op.subscriptionEvents control)
  sessions : about .sessions log = op.sessionCalls.map (·.line control.hadConnection)
  backends : about .backends log = []
  alone : op.sessionCalls = [] → log = ClientEvent.lines l (op.clientEvents control now) ++
    SubscriptionEvent.lines m (op.subscriptionEvents control)

theorem writes_of_logged {control : SessionControl} {now : Timestamp} {op : Operation} {w : World}
    {cs : List ClientEvent} {ss : List SubscriptionEvent} {o : Outcome World Reply}
    (h : w.Logged cs ss control.hadConnection (op.clientEvents control now)
      (op.subscriptionEvents control) op.sessionCalls o) :
    op.Writes control now (Listing.after (cs.map ClientEvent.change))
      (Listing.after (ss.map SubscriptionEvent.change)) o.log := by
  refine ⟨h.clients, h.subscriptions, h.sessions, h.backends, fun alone => ?_⟩
  have sessions : about .sessions o.log = [] := by rw [h.sessions, alone, List.map_nil]
  rw [← h.clients, ← h.subscriptions]
  apply eq_about_append sessions h.backends
  apply (clientEvents_eq_nil_or alone control now).imp
  · intro none
    rw [h.clients, none]
    rfl
  · intro none
    rw [h.subscriptions, none]
    rfl

end Operation

theorem ClientEvent.length_after_add (es : List ClientEvent) :
    (Listing.after (es.map change)).length + total removedClients (lines [] es) =
      total addedClients (lines [] es) :=
  Listing.length_after_add length_apply_add es

theorem SubscriptionEvent.length_after_add (es : List SubscriptionEvent) :
    (Listing.after (es.map change)).length + total removedSubscriptions (lines [] es) =
      total addedSubscriptions (lines [] es) :=
  Listing.length_after_add length_apply_add es

/-- After every history the log accounts for all that is listed, and what the next operation writes
follows from it. -/
theorem History.log_accounts (control : SessionControl) (settings : AdminSettings) (h : History) :
    ∃ o l m, h.perform control { settings } = .ok o ∧
      o.state.clients.records.toList = .ok l ∧ o.state.subscriptions.records.toList = .ok m ∧
      l.length + total removedClients o.log = total addedClients o.log ∧
      m.length + total removedSubscriptions o.log = total addedSubscriptions o.log ∧
      ∀ (now : Timestamp) (op : Operation), ∃ o', op.perform control now o.state = .ok o' ∧
        op.Writes control now l m o'.log := by
  obtain ⟨o, done, shows⟩ := h.perform_eq_ok control settings
  have logged := (h.perform_logs control).logged _ [] [] o (.empty settings) done
  refine ⟨o, _, _, done, shows.clients.toList, shows.subscriptions.toList, ?_, ?_, ?_⟩
  · have clients : about .clients o.log = ClientEvent.lines [] (h.clientEvents control) :=
      logged.clients
    have account := ClientEvent.length_after_add (h.clientEvents control)
    rwa [← clients, total_about fun _ other => (silent_of_ne_clients other).1,
      total_about fun _ other => (silent_of_ne_clients other).2] at account
  · have subscriptions : about .subscriptions o.log =
        SubscriptionEvent.lines [] (h.subscriptionEvents control) := logged.subscriptions
    have account := SubscriptionEvent.length_after_add (h.subscriptionEvents control)
    rwa [← subscriptions, total_about fun _ other => (silent_of_ne_subscriptions other).1,
      total_about fun _ other => (silent_of_ne_subscriptions other).2] at account
  · intro now op
    obtain ⟨o', done', -⟩ := op.perform_adds control now o.state _ _ shows
    have logged' := (op.perform_logs control now).logged _ _ _ o' shows done'
    exact ⟨o', done', Operation.writes_of_logged logged'⟩

end BrokerAdmin
