import BrokerAdmin.Proofs.World.Listings

set_option autoImplicit false

/-!
The client listing as a function of the events so far. A client is listed as long as a connection
of it has opened since its session last ended; its record is that of the latest connection, and its
place is that of the first one since.
-/

namespace BrokerAdmin

namespace ClientEvent

def OpenedAt (es : List ClientEvent) (id : String) (n : Nat) : Prop :=
  ∃ c, es[n]? = some (.opened c) ∧ c.clientId = id

/-- Behind that place the session does not end. -/
def OpenedSince (es : List ClientEvent) (id : String) (n : Nat) : Prop :=
  OpenedAt es id n ∧ ∀ m, n < m → es[m]? ≠ some (.ended id)

/-- The records that a history of events calls for. -/
structure Recorded (es : List ClientEvent) (l : List ClientRecord) : Prop where
  listed : ∀ id, (∃ r ∈ l, r.clientId = id) ↔ ∃ n, OpenedSince es id n
  once : (l.map (·.clientId)).Nodup
  latest : ∀ r ∈ l, ∃ n, IsGreatest {n | OpenedAt es r.clientId n} n ∧
    es[n]? = some (.opened r.connection) ∧
    (r.disconnectedAt.isSome ↔ ∃ m t, n < m ∧ es[m]? = some (.closed r.clientId t))
  ordered : l.Pairwise fun r r' => ∃ m n, IsLeast {n | OpenedSince es r.clientId n} m ∧
    IsLeast {n | OpenedSince es r'.clientId n} n ∧ m < n

variable {es : List ClientEvent} {e : ClientEvent} {id : String} {r : ClientRecord} {n : Nat}

theorem change_eq_put_iff :
    e.change = .put id r ↔ ∃ c, e = .opened c ∧ c.clientId = id ∧ .ofConnection c = r := by
  cases e <;> simp [change]

theorem putSince_iff : Listing.PutSince (es.map change) id n ↔ OpenedSince es id n := by
  simp only [Listing.PutSince, List.getElem?_map, Option.map_eq_some_iff]
  constructor
  · rintro ⟨⟨r, e, he, put⟩, kept⟩
    obtain ⟨c, rfl, rfl, -⟩ := change_eq_put_iff.1 put
    refine ⟨⟨c, he, rfl⟩, ?_⟩
    intro m hm ended
    simpa using kept m _ hm ⟨_, ended, rfl⟩
  · rintro ⟨⟨c, hc, rfl⟩, kept⟩
    refine ⟨⟨_, _, hc, rfl⟩, ?_⟩
    rintro m p hm ⟨e, he, drop⟩
    cases e with
    | opened c => cases drop
    | closed a t => cases drop
    | ended a =>
      cases drop
      refine beq_false_of_ne ?_
      rintro rfl
      exact kept m hm he

theorem isGreatest_openedAt (h : IsGreatest {n | OpenedSince es id n} n) :
    IsGreatest {n | OpenedAt es id n} n := by
  refine ⟨h.1.1, ?_⟩
  intro m hm
  by_contra! behind
  exact absurd (h.2 ⟨hm, fun k hk => h.1.2 k (Nat.lt_trans behind hk)⟩) (Nat.not_le.2 behind)

theorem field_amended {α : Type} (field : ClientRecord → α)
    (kept : ∀ r now, field (r.disconnect now) = field r) (e : ClientEvent) (id : String)
    (r : ClientRecord) : field (e.change.amended id r) = field r := by
  cases e with
  | opened c => rfl
  | closed a t =>
    simp only [change, Listing.Change.amended]
    split
    · exact kept r t
    · rfl
  | ended a => rfl

theorem isSome_disconnectedAt_amended (e : ClientEvent) (id : String) (r : ClientRecord) :
    (e.change.amended id r).disconnectedAt.isSome ↔
      r.disconnectedAt.isSome ∨ ∃ t, e = .closed id t := by
  cases e with
  | opened c => simp [change, Listing.Change.amended]
  | closed a t =>
    by_cases h : a = id
    · simp [change, Listing.Change.amended, ClientRecord.disconnect, h]
    · simp [change, Listing.Change.amended, h]
  | ended a => simp [change, Listing.Change.amended]

theorem field_foldl {α : Type} (field : ClientRecord → α)
    (kept : ∀ r now, field (r.disconnect now) = field r) (es : List ClientEvent) (id : String)
    (r : ClientRecord) :
    field ((es.map change).foldl (Listing.Change.amended id) r) = field r := by
  induction es generalizing r with
  | nil => rfl
  | cons e es ih => rw [List.map_cons, List.foldl_cons, ih, field_amended field kept]

theorem isSome_disconnectedAt_foldl (es : List ClientEvent) (id : String) (r : ClientRecord) :
    ((es.map change).foldl (Listing.Change.amended id) r).disconnectedAt.isSome ↔
      r.disconnectedAt.isSome ∨ ∃ t, .closed id t ∈ es := by
  induction es generalizing r with
  | nil => simp
  | cons e es ih =>
    rw [List.map_cons, List.foldl_cons, ih, isSome_disconnectedAt_amended, or_assoc, ← exists_or]
    simp only [List.mem_cons, eq_comm]

theorem latest_of_holds (h : Listing.Holds (es.map change) id r) :
    r.clientId = id ∧ ∃ n, IsGreatest {n | OpenedAt es id n} n ∧
      es[n]? = some (.opened r.connection) ∧
      (r.disconnectedAt.isSome ↔ ∃ m t, n < m ∧ es[m]? = some (.closed id t)) := by
  obtain ⟨n, u, greatest, put, rfl⟩ := h
  simp only [putSince_iff] at greatest
  rw [List.getElem?_map, Option.map_eq_some_iff] at put
  obtain ⟨e, he, change_eq⟩ := put
  obtain ⟨c, rfl, rfl, rfl⟩ := change_eq_put_iff.1 change_eq
  rw [← List.map_drop, ClientRecord.clientId,
    field_foldl ClientRecord.connection fun _ _ => rfl, isSome_disconnectedAt_foldl]
  refine ⟨rfl, n, isGreatest_openedAt greatest, he, ?_⟩
  simp only [Listing.mem_drop_succ_iff, ClientRecord.ofConnection, Option.isSome_none,
    Bool.false_eq_true, false_or]
  exact exists_comm

theorem recorded_of_values {l : List ClientRecord}
    (h : Listing.Values (es.map change) ClientRecord.clientId l) : Recorded es l := by
  have listed := h.listed_iff
  have ordered := h.ordered
  simp only [putSince_iff] at listed ordered
  exact ⟨listed, h.nodup, fun r hr => (latest_of_holds ((h.mem_iff r).1 hr)).2, ordered⟩

end ClientEvent

theorem World.Shows.exists_clients {w : World} {cs : List ClientEvent} {ss : List SubscriptionEvent}
    (h : w.Shows cs ss) : ∃ l, w.clients.Lists l ∧
      Listing.Values (cs.map ClientEvent.change) ClientRecord.clientId l := by
  have owns : ∀ id r, Listing.Holds (cs.map ClientEvent.change) id r → r.clientId = id :=
    fun _ _ holds => (ClientEvent.latest_of_holds holds).1
  obtain ⟨l, values⟩ := Listing.exists_values owns
  have clients := h.clients
  rw [values.after_eq] at clients
  exact ⟨l, ClientStore.lists_of_represents clients, values⟩

theorem World.Shows.clientIds_eq {w : World} {cs : List ClientEvent} {ss : List SubscriptionEvent}
    (h : w.Shows cs ss) {l : List ClientRecord} (lists : w.clients.Lists l) :
    l.map (·.clientId) = Listing.keys (Listing.after (cs.map ClientEvent.change)) := by
  rw [Except.ok.inj (h.clients.toList.symm.trans lists.toList), Listing.keys, List.map_map]
  rfl

namespace History

open ClientEvent

end History

end BrokerAdmin
