import BrokerAdmin.Proofs.World.ClientHistory

set_option autoImplicit false

/-!
Connections of one client that take over from each other. Events name their client only, so what an
earlier connection still reports cannot be told from what the latest one reports: as long as no
earlier connection reports its end late, a record is marked exactly when the latest connection has
closed; a late report marks the record of the connection that has taken over.
-/

namespace BrokerAdmin

def Event.opens (id : String) : Event → Bool
  | created c | resumed c => c.clientId == id
  | _ => false

/-- An event as it is delivered, with the number of the connection that it comes from. Listeners do
not get to see that number. -/
structure Delivery where
  time : Timestamp
  event : Event
  connection : Nat

namespace Delivery

def history (t : List Delivery) : History := t.map fun d => (d.time, .event d.event)

/-- Every connection of the client opens once and closes once at most, and not before it opens. -/
structure Interleaved (t : List Delivery) (id : String) : Prop where
  opened : ∀ d ∈ t, d.event = .closed id →
    ∃ d' ∈ t, d'.event.opens id ∧ d'.connection = d.connection
  once : t.Pairwise fun d d' =>
    d.event.opens id → d'.event.opens id → d.connection ≠ d'.connection
  closedOnce : t.Pairwise fun d d' =>
    d.event = .closed id → d'.event = .closed id → d.connection ≠ d'.connection
  ordered : t.Pairwise fun d d' =>
    d.event = .closed id → d'.event.opens id → d.connection ≠ d'.connection

/-- Connection `k` is the one that the client opened last, and `behind` is what came after. -/
def LatestOpened (t : List Delivery) (id : String) (k : Nat) (behind : List Delivery) : Prop :=
  ∃ before d, t = before ++ d :: behind ∧ d.event.opens id ∧ d.connection = k ∧
    ∀ d' ∈ behind, ¬d'.event.opens id

/-- The transport of the connection that the client opened last is still open. -/
def StillOpen (t : List Delivery) (id : String) : Prop :=
  ∃ k behind, LatestOpened t id k behind ∧ ∀ d ∈ behind, d.event = .closed id → d.connection ≠ k

/-- An earlier connection has reported its end after the latest one opened. -/
def ClosedLate (t : List Delivery) (id : String) : Prop :=
  ∃ k behind, LatestOpened t id k behind ∧ ∃ d ∈ behind, d.event = .closed id ∧ d.connection ≠ k

theorem exists_latestOpened {t : List Delivery} {id : String} (h : ∃ d ∈ t, d.event.opens id) :
    ∃ k behind, LatestOpened t id k behind := by
  induction t with
  | nil => simp at h
  | cons d t ih =>
    by_cases later : ∃ d' ∈ t, d'.event.opens id
    · obtain ⟨k, behind, before, d', split, latest⟩ := ih later
      exact ⟨k, behind, d :: before, d', by rw [split, List.cons_append], latest⟩
    · have here : d.event.opens id := by simpa [later] using h
      refine ⟨d.connection, t, [], d, rfl, here, rfl, fun d' hd' opens => ?_⟩
      exact later ⟨d', hd', opens⟩

end Delivery

theorem Event.opens_of_opened_mem {e : Event} {now : Timestamp} {c : Connection}
    (h : .opened c ∈ e.clientEvents now) : e.opens c.clientId := by
  cases e with
  | terminated id reason =>
    simp only [clientEvents] at h
    split at h <;> simp at h
  | _ => simp_all [clientEvents, opens]

theorem Event.clientEvents_of_opens {e : Event} {id : String} (h : e.opens id) (now : Timestamp) :
    ∃ c, e.clientEvents now = [.opened c] ∧ c.clientId = id := by
  cases e <;> simp_all [clientEvents, opens]

theorem Event.closed_mem_clientEvents_iff {e : Event} {now time : Timestamp} {id : String} :
    .closed id time ∈ e.clientEvents now ↔ e = .closed id ∧ time = now := by
  cases e with
  | terminated a reason =>
    simp only [clientEvents]
    split <;> simp
  | _ => simp [clientEvents, eq_comm]

namespace ClientEvent

variable {es es₁ es₂ : List ClientEvent} {l : List ClientRecord} {r : ClientRecord} {c : Connection}

/-- Behind the latest opening a record is marked by whatever closing there is. -/
theorem Recorded.isSome_disconnectedAt_iff (h : Recorded es l) (hr : r ∈ l)
    (split : es = es₁ ++ .opened c :: es₂) (own : c.clientId = r.clientId)
    (last : ∀ c', .opened c' ∈ es₂ → c'.clientId ≠ r.clientId) :
    r.disconnectedAt.isSome ↔ ∃ time, .closed r.clientId time ∈ es₂ := by
  have behind : es.drop (es₁.length + 1) = es₂ := by
    rw [split, List.drop_append]
    simp
  have here : IsGreatest {n | OpenedAt es r.clientId n} es₁.length := by
    refine ⟨⟨c, by simp [split], own⟩, ?_⟩
    rintro m ⟨c', there, own'⟩
    by_contra! later
    apply last c' _ own'
    rw [← behind]
    exact Listing.mem_drop_succ_iff.2 ⟨m, later, there⟩
  obtain ⟨n, greatest, -, marked⟩ := h.latest r hr
  cases greatest.unique here
  rw [marked, exists_comm]
  simp only [← behind, Listing.mem_drop_succ_iff]

end ClientEvent

namespace Delivery

variable {t behind : List Delivery} {id : String} {k : Nat}

theorem clientEvents_history (control : SessionControl) (t : List Delivery) :
    (history t).clientEvents control = t.flatMap fun d => d.event.clientEvents d.time := by
  rw [history, History.clientEvents, List.flatMap_map]
  rfl

theorem LatestOpened.isSome_disconnectedAt_iff (latest : LatestOpened t id k behind)
    {control : SessionControl} {l : List ClientRecord} {r : ClientRecord}
    (recorded : ClientEvent.Recorded ((history t).clientEvents control) l) (hr : r ∈ l)
    (own : r.clientId = id) : r.disconnectedAt.isSome ↔ ∃ d ∈ behind, d.event = .closed id := by
  obtain ⟨before, d, rfl, opens, -, last⟩ := latest
  obtain ⟨c, here, rfl⟩ := Event.clientEvents_of_opens opens d.time
  have split : (history (before ++ d :: behind)).clientEvents control =
      before.flatMap (fun d => d.event.clientEvents d.time) ++
        .opened c :: behind.flatMap fun d => d.event.clientEvents d.time := by
    rw [clientEvents_history, List.flatMap_append, List.flatMap_cons, here]
    rfl
  rw [recorded.isSome_disconnectedAt_iff hr split own.symm, own]
  · simp only [List.mem_flatMap, Event.closed_mem_clientEvents_iff]
    constructor
    · rintro ⟨time, d', hd', closed, -⟩
      exact ⟨d', hd', closed⟩
    · rintro ⟨d', hd', closed⟩
      exact ⟨d'.time, d', hd', closed, rfl⟩
  · intro c' later same
    obtain ⟨d', hd', opened⟩ := List.mem_flatMap.1 later
    apply last d' hd'
    rw [← own, ← same]
    exact Event.opens_of_opened_mem opened

end Delivery

open Delivery

/-- As long as no earlier connection reports its end late, a listed client counts as connected if
and only if the connection that it opened last is still open. After a late report it does not count
as connected, whether that connection is open or not. -/
theorem History.connected_unless_late (control : SessionControl) (settings : AdminSettings)
    (t : List Delivery) :
    ∃ o l, (history t).perform control { settings } = .ok o ∧ o.state.clients.Lists l ∧
      ∀ r ∈ l, (¬ClosedLate t r.clientId → (r.disconnectedAt = none ↔ StillOpen t r.clientId)) ∧
        (ClosedLate t r.clientId → r.disconnectedAt ≠ none) := by
  obtain ⟨o, done, shows⟩ := (history t).perform_eq_ok control settings
  obtain ⟨l, lists, values⟩ := shows.exists_clients
  have recorded := ClientEvent.recorded_of_values values
  refine ⟨o, l, done, lists, fun r hr => ⟨fun timely => ⟨fun unmarked => ?_, ?_⟩, ?_⟩⟩
  · have opened : ∃ d ∈ t, d.event.opens r.clientId := by
      obtain ⟨n, ⟨c, there, own⟩, -⟩ := (recorded.listed r.clientId).1 ⟨r, hr, rfl⟩
      have mem := List.mem_of_getElem? there
      rw [clientEvents_history, List.mem_flatMap] at mem
      obtain ⟨d, hd, opened⟩ := mem
      exact ⟨d, hd, own ▸ Event.opens_of_opened_mem opened⟩
    obtain ⟨k, behind, latest⟩ := exists_latestOpened opened
    refine ⟨k, behind, latest, fun d hd closed => ?_⟩
    have marked := (latest.isSome_disconnectedAt_iff recorded hr rfl).2 ⟨d, hd, closed⟩
    rw [unmarked] at marked
    cases marked
  · rintro ⟨k, behind, latest, others⟩
    by_contra marked
    rw [← ne_eq, ← Option.isSome_iff_ne_none] at marked
    obtain ⟨d, hd, closed⟩ := (latest.isSome_disconnectedAt_iff recorded hr rfl).1 marked
    exact timely ⟨k, behind, latest, d, hd, closed, others d hd closed⟩
  · rintro ⟨k, behind, latest, d, hd, closed, -⟩
    apply Option.isSome_iff_ne_none.1
    exact (latest.isSome_disconnectedAt_iff recorded hr rfl).2 ⟨d, hd, closed⟩

/-- The first connection reports its end after the second has taken over: the second is open and
its record is marked. -/
theorem History.late_close_marks_latest :
    let c : Connection := ⟨"c1", none, .v5, 0, 0, 0, 0, 0, "127.0.0.1:1883", "127.0.0.1:50000", ⟨0⟩⟩
    let t : List Delivery := [⟨⟨1⟩, .created c, 0⟩, ⟨⟨2⟩, .created { c with keepAlive := 5 }, 1⟩,
      ⟨⟨3⟩, .closed "c1", 0⟩, ⟨⟨4⟩, .terminated "c1" .takenOver, 0⟩]
    Interleaved t "c1" ∧ StillOpen t "c1" ∧ ∃ o l, (history t).perform (.passive true) {} = .ok o ∧
      o.state.clients.Lists l ∧ ∃ r ∈ l, r.clientId = "c1" ∧ r.disconnectedAt ≠ none := by
  intro c t
  have interleaved : Interleaved t "c1" := ⟨by decide, by decide, by decide, by decide⟩
  have latest : LatestOpened t "c1" 1
      [⟨⟨3⟩, .closed "c1", 0⟩, ⟨⟨4⟩, .terminated "c1" .takenOver, 0⟩] :=
    ⟨[⟨⟨1⟩, .created c, 0⟩], ⟨⟨2⟩, .created { c with keepAlive := 5 }, 1⟩, rfl, by decide, rfl,
      by decide⟩
  have still : StillOpen t "c1" := ⟨1, _, latest, by decide⟩
  obtain ⟨o, done, shows⟩ := (history t).perform_eq_ok (.passive true) {}
  obtain ⟨l, lists, values⟩ := shows.exists_clients
  have recorded := ClientEvent.recorded_of_values values
  have listed : "c1" ∈ l.map (·.clientId) := by
    rw [shows.clientIds_eq lists]
    decide
  obtain ⟨r, hr, own⟩ := List.mem_map.1 listed
  have marked := (latest.isSome_disconnectedAt_iff recorded hr own).2 ⟨_, .head _, rfl⟩
  exact ⟨interleaved, still, o, l, done, lists, r, hr, own, Option.isSome_iff_ne_none.1 marked⟩

end BrokerAdmin
