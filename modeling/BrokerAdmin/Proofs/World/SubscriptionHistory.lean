import BrokerAdmin.Proofs.World.Listings

set_option autoImplicit false

/-!
The subscription listing as a function of the events so far. Subscribing names a full filter by
its parts, unsubscribing names it as a text, and clearing names only the owner; the last of these
that concerns a client's full filter decides whether the subscription is listed.
-/

namespace BrokerAdmin

namespace SubscriptionEvent

def Concerns (id filter : String) : SubscriptionEvent → Prop
  | subscribed a sub => a = id ∧ sub.fullFilter = filter
  | unsubscribed a f => a = id ∧ f = filter
  | cleared a => a = id

/-- The event at place `n` is the last one that concerns the client's full filter. -/
def LastAt (es : List SubscriptionEvent) (id filter : String) (n : Nat) (e : SubscriptionEvent) :
    Prop :=
  es[n]? = some e ∧ e.Concerns id filter ∧
    ∀ m e', n < m → es[m]? = some e' → ¬e'.Concerns id filter

/-- At place `n` the client subscribes to the full filter, and nothing behind that place ends the
subscription. -/
def SubscribedSince (es : List SubscriptionEvent) (id filter : String) (n : Nat) : Prop :=
  (∃ sub, es[n]? = some (.subscribed id sub) ∧ sub.fullFilter = filter) ∧
    ∀ m, n < m → es[m]? ≠ some (.unsubscribed id filter) ∧ es[m]? ≠ some (.cleared id)

/-- The records that a history of events calls for. -/
structure Recorded (es : List SubscriptionEvent) (l : List SubscriptionRecord) : Prop where
  listed : ∀ id filter, (∃ r ∈ l, r.clientId = id ∧ r.topicFilter = filter) ↔
    ∃ n sub, LastAt es id filter n (.subscribed id sub)
  latest : ∀ id filter n sub, LastAt es id filter n (.subscribed id sub) →
    l.filter (fun r => r.clientId = id ∧ r.topicFilter = filter) =
      [⟨filter, sub.id, sub.options, id⟩]
  distinct : l.Pairwise fun r r' => r.clientId ≠ r'.clientId ∨ r.topicFilter ≠ r'.topicFilter
  ordered : l.Pairwise fun r r' => ∃ m n,
    IsLeast {n | SubscribedSince es r.clientId r.topicFilter n} m ∧
    IsLeast {n | SubscribedSince es r'.clientId r'.topicFilter n} n ∧ m < n

variable {es : List SubscriptionEvent} {e : SubscriptionEvent} {id filter : String}
  {r : SubscriptionRecord} {n : Nat}

theorem change_eq_put_iff : e.change = .put ⟨id, filter⟩ r ↔
    ∃ sub, e = .subscribed id sub ∧ sub.fullFilter = filter ∧ .ofSubscription id sub = r := by
  cases e with
  | subscribed a sub =>
    simp only [change, Listing.Change.put.injEq, SubscriptionKey.mk.injEq]
    constructor
    · rintro ⟨⟨rfl, rfl⟩, rfl⟩
      exact ⟨sub, rfl, rfl, rfl⟩
    · rintro ⟨_, ⟨⟩, rfl, rfl⟩
      exact ⟨⟨rfl, rfl⟩, rfl⟩
  | unsubscribed a f => simp [change]
  | cleared a => simp [change]

theorem drops_iff : (∃ p, e.change = .drop p ∧ p ⟨id, filter⟩ = true) ↔
    e = .unsubscribed id filter ∨ e = .cleared id := by
  cases e with
  | subscribed a sub => simp [change]
  | unsubscribed a f => simp [change, eq_comm (a := id), eq_comm (a := filter)]
  | cleared a => simp [change, eq_comm (a := id)]

theorem putSince_iff :
    Listing.PutSince (es.map change) ⟨id, filter⟩ n ↔ SubscribedSince es id filter n := by
  simp only [Listing.PutSince, List.getElem?_map, Option.map_eq_some_iff]
  constructor
  · rintro ⟨⟨r, e, he, put⟩, kept⟩
    obtain ⟨sub, rfl, full, -⟩ := change_eq_put_iff.1 put
    refine ⟨⟨sub, he, full⟩, fun m hm => ⟨?_, ?_⟩⟩
    · intro gone
      simpa using kept m _ hm ⟨_, gone, rfl⟩
    · intro gone
      simpa using kept m _ hm ⟨_, gone, rfl⟩
  · rintro ⟨⟨sub, he, rfl⟩, kept⟩
    refine ⟨⟨_, _, he, rfl⟩, ?_⟩
    rintro m p hm ⟨e, he, drop⟩
    by_contra dropped
    rcases drops_iff.1 ⟨p, drop, Bool.eq_true_of_not_eq_false dropped⟩ with rfl | rfl
    · exact (kept m hm).1 he
    · exact (kept m hm).2 he

/-- The last event that concerns the pair subscribes exactly at the latest place from which on the
pair is subscribed. -/
theorem lastAt_iff : (∃ sub, LastAt es id filter n (.subscribed id sub)) ↔
    IsGreatest {n | SubscribedSince es id filter n} n := by
  constructor
  · rintro ⟨sub, he, ⟨-, full⟩, silent⟩
    refine ⟨⟨⟨sub, he, full⟩, fun m hm => ⟨?_, ?_⟩⟩, ?_⟩
    · intro gone
      exact silent m _ hm gone ⟨rfl, rfl⟩
    · intro gone
      exact silent m _ hm gone rfl
    · rintro m ⟨⟨sub', he', full'⟩, -⟩
      by_contra! behind
      exact silent m _ behind he' ⟨rfl, full'⟩
  · rintro ⟨⟨⟨sub, he, full⟩, kept⟩, greatest⟩
    refine ⟨sub, he, ⟨rfl, full⟩, ?_⟩
    intro m e' hm he' concerns
    cases e' with
    | subscribed a sub' =>
      obtain ⟨rfl, full'⟩ := concerns
      have since : SubscribedSince es a filter m :=
        ⟨⟨sub', he', full'⟩, fun k hk => kept k (Nat.lt_trans hm hk)⟩
      exact absurd (greatest since) (Nat.not_le.2 hm)
    | unsubscribed a f =>
      obtain ⟨rfl, rfl⟩ := concerns
      exact (kept m hm).1 he'
    | cleared a =>
      cases concerns
      exact (kept m hm).2 he'

theorem foldl_amended (es : List SubscriptionEvent) (k : SubscriptionKey)
    (r : SubscriptionRecord) : (es.map change).foldl (Listing.Change.amended k) r = r := by
  induction es with
  | nil => rfl
  | cons e es ih =>
    rw [List.map_cons, List.foldl_cons]
    cases e <;> exact ih

theorem holds_iff : Listing.Holds (es.map change) ⟨id, filter⟩ r ↔
    ∃ n sub, LastAt es id filter n (.subscribed id sub) ∧ r = .ofSubscription id sub := by
  simp only [Listing.Holds, putSince_iff, ← List.map_drop, foldl_amended]
  constructor
  · rintro ⟨n, u, greatest, put, rfl⟩
    rw [List.getElem?_map, Option.map_eq_some_iff] at put
    obtain ⟨e, he, change_eq⟩ := put
    obtain ⟨sub, rfl, -, rfl⟩ := change_eq_put_iff.1 change_eq
    obtain ⟨sub', last⟩ := lastAt_iff.2 greatest
    cases he.symm.trans last.1
    exact ⟨n, sub, last, rfl⟩
  · rintro ⟨n, sub, last, rfl⟩
    refine ⟨n, _, lastAt_iff.1 ⟨sub, last⟩, ?_, rfl⟩
    rw [List.getElem?_map, last.1, Option.map_some, change, last.2.1.2]

theorem recorded_of_values {l : List SubscriptionRecord}
    (h : Listing.Values (es.map change) (fun r => ⟨r.clientId, r.topicFilter⟩) l) :
    Recorded es l := by
  have distinct : l.Pairwise fun r r' =>
      r.clientId ≠ r'.clientId ∨ r.topicFilter ≠ r'.topicFilter :=
    (List.pairwise_map.1 h.nodup).imp fun {r r'} differ => by
      rwa [ne_eq, SubscriptionKey.mk.injEq, not_and_or] at differ
  have mem : ∀ {r : SubscriptionRecord}, r ∈ l ↔ ∃ n sub,
      LastAt es r.clientId r.topicFilter n (.subscribed r.clientId sub) ∧
      r = .ofSubscription r.clientId sub := (h.mem_iff _).trans holds_iff
  have listed : ∀ {id filter n sub}, LastAt es id filter n (.subscribed id sub) →
      ⟨filter, sub.id, sub.options, id⟩ ∈ l := by
    intro id filter n sub last
    refine mem.2 ⟨n, sub, last, ?_⟩
    rw [SubscriptionRecord.ofSubscription, last.2.1.2]
  refine ⟨fun id filter => ⟨?_, ?_⟩, ?_, distinct, ?_⟩
  · rintro ⟨r, hr, rfl, rfl⟩
    obtain ⟨n, sub, last, -⟩ := mem.1 hr
    exact ⟨n, sub, last⟩
  · rintro ⟨n, sub, last⟩
    exact ⟨_, listed last, rfl, rfl⟩
  · intro id filter n sub last
    apply h.filter_eq_singleton (listed last)
    intro r
    rw [decide_eq_true_iff, SubscriptionKey.mk.injEq]
  · have ordered := h.ordered
    simp only [putSince_iff] at ordered
    exact ordered

end SubscriptionEvent

theorem World.Shows.exists_subscriptions {w : World} {cs : List ClientEvent}
    {ss : List SubscriptionEvent} (h : w.Shows cs ss) :
    ∃ l, w.subscriptions.Lists l ∧ SubscriptionEvent.Recorded ss l := by
  have owns : ∀ k r, Listing.Holds (ss.map SubscriptionEvent.change) k r →
      SubscriptionKey.mk r.clientId r.topicFilter = k := by
    intro k r holds
    obtain ⟨n, sub, last, rfl⟩ := SubscriptionEvent.holds_iff.1 holds
    exact congrArg (SubscriptionKey.mk _) last.2.1.2
  obtain ⟨l, values⟩ := Listing.exists_values owns
  have subscriptions := h.subscriptions
  rw [values.after_eq] at subscriptions
  exact ⟨l, SubscriptionStore.lists_of_represents subscriptions,
    SubscriptionEvent.recorded_of_values values⟩

/-- The subscription listing is what the history's events call for. -/
theorem History.subscriptions_recorded (control : SessionControl) (settings : AdminSettings)
    (h : History) :
    ∃ o l, h.perform control { settings } = .ok o ∧ o.state.subscriptions.Lists l ∧
      SubscriptionEvent.Recorded (h.subscriptionEvents control) l := by
  obtain ⟨o, done, shows⟩ := h.perform_eq_ok control settings
  obtain ⟨l, lists, recorded⟩ := shows.exists_subscriptions
  exact ⟨o, l, done, lists, recorded⟩

end BrokerAdmin
