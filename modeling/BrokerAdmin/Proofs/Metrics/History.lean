import BrokerAdmin.Proofs.Listing.History
import BrokerAdmin.Proofs.Metrics.Counting
import BrokerAdmin.Proofs.Metrics.Table

set_option autoImplicit false

/-!
The table of counters as the outcome of everything done to it. A client has counters as long as it
has been registered since it was last deregistered. They count what was reported through the handle
that it was given then, and nothing else: a handle belongs to one life of one client.
-/

namespace BrokerAdmin.MetricsTable

/-- What may be done to a table. An update names a handle, which may be an old one. -/
inductive Command where
  | register (id : String)
  | deregister (id : String)
  | update (h : Handle) (u : Counters.Update)
  deriving DecidableEq, Repr

/-- What was done to a table, a registration with the handle it gave. -/
inductive Event where
  | registered (id : String) (h : Handle)
  | deregistered (id : String)
  | updated (h : Handle) (u : Counters.Update)
  deriving DecidableEq, Repr

def Command.perform (t : MetricsTable) : Command → Event × MetricsTable
  | register id => (.registered id (t.register id).1, (t.register id).2)
  | deregister id => (.deregistered id, (t.deregister id).2)
  | update h u => (.updated h u, t.update h u)

def performAll (t : MetricsTable) : List Command → List Event × MetricsTable
  | [] => ([], t)
  | c :: cs =>
    let (e, t) := c.perform t
    let (es, t) := performAll t cs
    (e :: es, t)

theorem performAll_append (t : MetricsTable) (cs ds : List Command) :
    performAll t (cs ++ ds) = ((performAll t cs).1 ++ (performAll (performAll t cs).2 ds).1,
      (performAll (performAll t cs).2 ds).2) := by
  induction cs generalizing t with
  | nil => rfl
  | cons c cs ih => simp only [List.cons_append, performAll, ih]

/-- What an event reports through the handle. -/
def Event.through? (h : Handle) : Event → Option Counters.Update
  | updated g u => if g = h then some u else none
  | _ => none

/-- At place `n` the client is registered, and nothing behind that place deregisters it. -/
def RegisteredSince (es : List Event) (id : String) (n : Nat) : Prop :=
  (∃ h, es[n]? = some (.registered id h)) ∧ ∀ m, n < m → es[m]? ≠ some (.deregistered id)

/-- The table that a history of events calls for. The earliest registration since the last
deregistration is where a client's counters begin. -/
structure Recorded (es : List Event) (t : MetricsTable) : Prop where
  present : ∀ id, (t.clientStats id).isSome ↔ ∃ n, RegisteredSince es id n
  counted : ∀ (id : String) (n : Nat) (h : Handle), IsLeast {n | RegisteredSince es id n} n →
    es[n]? = some (.registered id h) →
    t.clientStats id = some (.ofUpdates ((es.drop (n + 1)).filterMap (·.through? h))) ∧
      ∀ c, t.clientStats id = some c ↔ c.Counts ((es.drop (n + 1)).filterMap (·.through? h))
  shared : ∀ (m n : Nat) (id a : String) (h g : Handle), m < n →
    es[m]? = some (.registered id h) → es[n]? = some (.registered a g) →
    (h = g ↔ id = a ∧ ∀ k, m < k → k < n → es[k]? ≠ some (.deregistered id))
  retired : ∀ (m n : Nat) (id : String) (h : Handle) (u : Counters.Update), m < n →
    es[m]? = some (.registered id h) → es[n]? = some (.deregistered id) →
    (t.update h u).clientStats = t.clientStats
  renewed : ∀ id, (¬∃ n, RegisteredSince es id n) → (t.register id).2.clientStats id = some {}
  size : ∃ ids : List String, ids.Nodup ∧ ids.length = t.size ∧
    ∀ id, id ∈ ids ↔ (t.clientStats id).isSome

def Event.Leads (t : MetricsTable) (t' : MetricsTable) : Event → Prop
  | registered id h => t.register id = (h, t')
  | deregistered id => (t.deregister id).2 = t'
  | updated h u => t.update h u = t'

def Leads : MetricsTable → List Event → MetricsTable → Prop
  | t, [], t' => t = t'
  | t, e :: es, t' => ∃ s, e.Leads t s ∧ Leads s es t'

theorem leads_append {t t' : MetricsTable} {es fs : List Event} :
    Leads t (es ++ fs) t' ↔ ∃ s, Leads t es s ∧ Leads s fs t' := by
  induction es generalizing t with
  | nil => simp [Leads]
  | cons e es ih =>
    simp only [List.cons_append, Leads, ih]
    constructor
    · rintro ⟨s, step, r, earlier, later⟩
      exact ⟨r, ⟨s, step, earlier⟩, later⟩
    · rintro ⟨r, ⟨s, step, earlier⟩, later⟩
      exact ⟨s, step, r, earlier, later⟩

theorem performAll_leads (t : MetricsTable) (cs : List Command) :
    Leads t (performAll t cs).1 (performAll t cs).2 := by
  induction cs generalizing t with
  | nil => rfl
  | cons c cs ih =>
    refine ⟨(c.perform t).2, ?_, ih _⟩
    cases c <;> rfl

theorem Leads.split {t t' : MetricsTable} {es : List Event} (h : Leads t es t') {n : Nat}
    {e : Event} (he : es[n]? = some e) :
    ∃ s s', Leads t (es.take n) s ∧ e.Leads s s' ∧ Leads s' (es.drop (n + 1)) t' := by
  obtain ⟨bound, rfl⟩ := List.getElem?_eq_some_iff.1 he
  rw [← List.take_append_drop n es, List.drop_eq_getElem_cons bound, leads_append] at h
  obtain ⟨s, earlier, s', step, later⟩ := h
  exact ⟨s, s', earlier, step, later⟩

section Steps

variable {t t' : MetricsTable} {e : Event} {es : List Event}

theorem Leads.keeps {P : MetricsTable → Prop} (h : Leads t es t') (start : P t)
    (step : ∀ e ∈ es, ∀ s s', e.Leads s s' → P s → P s') : P t' := by
  induction es generalizing t with
  | nil => exact h ▸ start
  | cons e es ih =>
    obtain ⟨s, first, rest⟩ := h
    exact ih rest (step e (by simp) t s first start) fun a ha => step a (List.mem_cons_of_mem _ ha)

theorem Event.Leads.wellFormed (h : e.Leads t t') (wf : t.WellFormed) : t'.WellFormed := by
  cases e with
  | registered id g =>
    have after := wf.register id
    rwa [h] at after
  | deregistered id => exact h ▸ wf.deregister id
  | updated g u => exact h ▸ wf.update g u

theorem Leads.wellFormed (h : Leads t es t') (wf : t.WellFormed) : t'.WellFormed :=
  h.keeps wf fun _ _ _ _ step => step.wellFormed

def Event.handleAfter (id : String) (old : Option Handle) : Event → Option Handle
  | registered a h => if id = a then some h else old
  | deregistered a => if id = a then none else old
  | updated _ _ => old

theorem Event.Leads.handle? (h : e.Leads t t') (id : String) :
    t'.handle? id = e.handleAfter id (t.handle? id) := by
  cases e with
  | registered a g =>
    have after := handle?_register t a id
    rwa [h] at after
  | deregistered a => exact h ▸ handle?_deregister t a id
  | updated g u => exact h ▸ handle?_update t g u id

theorem Event.Leads.heldBy (step : e.Leads t t') {h : Handle} {p : String → Prop}
    (held : t.HeldBy h p) : t'.HeldBy h p := by
  cases e with
  | registered a g =>
    have after := held.register a
    rwa [step] at after
  | deregistered a => exact step ▸ (held.deregister a).imp fun _ => And.right
  | updated g u => exact step ▸ held.update g u

theorem Leads.heldBy (run : Leads t es t') {h : Handle} {p : String → Prop}
    (held : t.HeldBy h p) : t'.HeldBy h p :=
  run.keeps held fun _ _ _ _ step => step.heldBy

theorem handle?_registered {id : String} {h : Handle}
    (step : (Event.registered id h).Leads t t') : t'.handle? id = some h := by
  rw [step.handle?, Event.handleAfter, if_pos rfl]

theorem heldBy_registered {id : String} {h : Handle} (wf : t.WellFormed)
    (step : (Event.registered id h).Leads t t') : t'.HeldBy h (· = id) := by
  have wf' := step.wellFormed wf
  have has := handle?_registered step
  exact ⟨wf'.lived has, fun other => wf'.own has other⟩

theorem heldBy_deregistered {id : String} {h : Handle} (held : t.HeldBy h (· = id))
    (step : (Event.deregistered id).Leads t t') : t'.HeldBy h fun _ => False :=
  step ▸ (held.deregister id).imp fun _ both => both.1 both.2

theorem Event.Leads.handle?_kept (step : e.Leads t t') {id : String} {h : Handle}
    (has : t.handle? id = some h) (kept : e ≠ .deregistered id) : t'.handle? id = some h := by
  rw [step.handle?, has]
  cases e with
  | registered a g =>
    by_cases own : id = a
    · subst own
      cases (register_of_some has).symm.trans step
      exact if_pos rfl
    · exact if_neg own
  | deregistered a => exact if_neg fun own => kept (congrArg Event.deregistered own.symm)
  | updated g u => rfl

theorem Event.Leads.counters? (step : e.Leads t t') {h : Handle} {c : Counters}
    (begun : t.counters? h = some c) :
    t'.counters? h = some ((e.through? h).toList.foldl Counters.apply c) := by
  cases e with
  | registered a g =>
    have lived : h.life < t.lives.size := (Array.getElem?_eq_some_iff.1 begun).1
    have same := counters?_register lived a
    rw [step] at same
    exact same.trans begun
  | deregistered a => exact step ▸ begun
  | updated g u =>
    rw [← step, counters?_update, begun, through?]
    by_cases own : g = h
    · rw [if_pos own.symm, if_pos own]
      rfl
    · rw [if_neg (Ne.symm own), if_neg own]
      rfl

/-- The client keeps its handle, and everything reported through it is counted. -/
theorem Leads.counts (run : Leads t es t') {id : String} {h : Handle} {c : Counters}
    (has : t.handle? id = some h) (begun : t.counters? h = some c)
    (lasting : .deregistered id ∉ es) :
    t'.handle? id = some h ∧
      t'.counters? h = some ((es.filterMap (·.through? h)).foldl Counters.apply c) := by
  induction es generalizing t c with
  | nil => exact run ▸ ⟨has, begun⟩
  | cons e es ih =>
    obtain ⟨s, step, rest⟩ := run
    rw [List.mem_cons, not_or] at lasting
    have still := step.handle?_kept has (Ne.symm lasting.1)
    have counted := step.counters? begun
    rw [List.filterMap_cons]
    cases reported : e.through? h with
    | none =>
      rw [reported] at counted
      exact ih rest still counted lasting.2
    | some u =>
      rw [reported] at counted
      exact ih rest still counted lasting.2

end Steps

section Places

variable {es : List Event} {e : Event} {id : String} {n : Nat} {t : MetricsTable}

theorem getElem?_take_eq_some {m : Nat} :
    (es.take n)[m]? = some e ↔ m < n ∧ es[m]? = some e := by
  rw [List.getElem?_take]
  split <;> simp_all

theorem registeredSince_concat_iff : RegisteredSince (es ++ [e]) id n ↔
    RegisteredSince es id n ∧ e ≠ .deregistered id ∨
      n = es.length ∧ ∃ h, e = .registered id h := by
  constructor
  · rintro ⟨⟨h, hn⟩, lasting⟩
    rcases Listing.getElem?_concat_eq_some.1 hn with earlier | ⟨rfl, rfl⟩
    · refine .inl ⟨⟨⟨h, earlier⟩, fun m hm gone => ?_⟩, fun last => ?_⟩
      · exact lasting m hm (Listing.getElem?_concat_eq_some.2 (.inl gone))
      · have bound := Listing.lt_length_of_getElem?_eq_some earlier
        exact lasting es.length bound (Listing.getElem?_concat_eq_some.2 (.inr ⟨rfl, last⟩))
    · exact .inr ⟨rfl, h, rfl⟩
  · rintro (⟨⟨⟨h, hn⟩, lasting⟩, last⟩ | ⟨rfl, h, rfl⟩)
    · refine ⟨⟨h, Listing.getElem?_concat_eq_some.2 (.inl hn)⟩, fun m hm gone => ?_⟩
      rcases Listing.getElem?_concat_eq_some.1 gone with gone | ⟨-, gone⟩
      · exact lasting m hm gone
      · exact last gone
    · refine ⟨⟨h, Listing.getElem?_concat_eq_some.2 (.inr ⟨rfl, rfl⟩)⟩, fun m hm gone => ?_⟩
      have bound := Listing.lt_length_of_getElem?_eq_some gone
      rw [List.length_append, List.length_singleton] at bound
      omega

theorem Leads.handle?_isSome (run : Leads {} es t) (id : String) :
    (t.handle? id).isSome ↔ ∃ n, RegisteredSince es id n := by
  induction es using List.reverseRecOn generalizing t with
  | nil =>
    rw [← run]
    simp [RegisteredSince]
  | append_singleton es e ih =>
    obtain ⟨s, earlier, _, step, rfl⟩ := leads_append.1 run
    rw [step.handle?]
    simp only [registeredSince_concat_iff, exists_or, exists_and_right, ← ih earlier]
    cases e with
    | registered a h =>
      by_cases own : id = a
      · simp [Event.handleAfter, own]
      · simp [Event.handleAfter, own, Ne.symm own]
    | deregistered a =>
      by_cases own : id = a
      · simp [Event.handleAfter, own]
      · simp [Event.handleAfter, own, Ne.symm own]
    | updated h u => simp [Event.handleAfter]

theorem Leads.heldBy_of_registered (run : Leads {} es t) {h : Handle}
    (there : es[n]? = some (.registered id h)) : t.HeldBy h (· = id) := by
  obtain ⟨s, s', earlier, step, later⟩ := run.split there
  exact later.heldBy (heldBy_registered (earlier.wellFormed .empty) step)

/-- Once its client has been deregistered, nobody ever gets the handle again. -/
theorem Leads.heldBy_of_deregistered (run : Leads {} es t) {h : Handle} {m : Nat} (lt : m < n)
    (there : es[m]? = some (.registered id h)) (gone : es[n]? = some (.deregistered id)) :
    t.HeldBy h fun _ => False := by
  obtain ⟨s, s', earlier, step, later⟩ := run.split gone
  have held := earlier.heldBy_of_registered (getElem?_take_eq_some.2 ⟨lt, there⟩)
  exact later.heldBy (heldBy_deregistered held step)

theorem Leads.unknown_of_isLeast (run : Leads {} (es.take n) t)
    (least : IsLeast {n | RegisteredSince es id n} n) : t.handle? id = none := by
  by_contra known
  obtain ⟨m, ⟨h, hm⟩, lasting⟩ := (run.handle?_isSome id).1 (Option.isSome_iff_ne_none.2 known)
  obtain ⟨before, hm⟩ := getElem?_take_eq_some.1 hm
  refine Nat.not_le.2 before (least.2 ⟨⟨h, hm⟩, fun k hk gone => ?_⟩)
  rcases Nat.lt_trichotomy k n with lt | rfl | gt
  · exact lasting k hk (getElem?_take_eq_some.2 ⟨lt, gone⟩)
  · obtain ⟨g, here⟩ := least.1.1
    cases here.symm.trans gone
  · exact least.1.2 k gt gone

theorem Leads.counted (run : Leads {} es t) {h : Handle}
    (least : IsLeast {n | RegisteredSince es id n} n) (here : es[n]? = some (.registered id h)) :
    t.clientStats id = some (.ofUpdates ((es.drop (n + 1)).filterMap (·.through? h))) := by
  obtain ⟨s, s', earlier, step, later⟩ := run.split here
  have has := handle?_registered step
  have begun := counters?_register_new (earlier.unknown_of_isLeast least)
  rw [show s.register id = (h, s') from step] at begun
  have lasting : .deregistered id ∉ es.drop (n + 1) := by
    intro gone
    obtain ⟨m, hm, gone⟩ := Listing.mem_drop_succ_iff.1 gone
    exact least.1.2 m hm gone
  obtain ⟨keeps, counts⟩ := later.counts has begun lasting
  rw [clientStats, keeps]
  exact counts

theorem Leads.shared (run : Leads {} es t) {m : Nat} {a : String} {h g : Handle} (lt : m < n)
    (there : es[m]? = some (.registered id h)) (here : es[n]? = some (.registered a g)) :
    h = g ↔ id = a ∧ ∀ k, m < k → k < n → es[k]? ≠ some (.deregistered id) := by
  obtain ⟨s, s', earlier, step, -⟩ := run.split here
  replace there := getElem?_take_eq_some.2 ⟨lt, there⟩
  have held := earlier.heldBy_of_registered there
  constructor
  · rintro rfl
    have has : s.handle? a = some h := by
      cases known : s.handle? a with
      | none =>
        cases (register_of_none known).symm.trans step
        exact absurd held.lived (Nat.lt_irrefl _)
      | some f =>
        cases (register_of_some known).symm.trans step
        rfl
    refine ⟨(held.holders has).symm, fun k hm hn gone => ?_⟩
    have retired := earlier.heldBy_of_deregistered hm there (getElem?_take_eq_some.2 ⟨hn, gone⟩)
    exact retired.holders has
  · rintro ⟨rfl, lasting⟩
    obtain ⟨r, r', -, first, between⟩ := earlier.split there
    have has := handle?_registered first
    have still : s.handle? id = some h := by
      refine between.keeps (P := fun t => t.handle? id = some h) has fun e he _ _ step has => ?_
      refine step.handle?_kept has ?_
      rintro rfl
      obtain ⟨k, hm, gone⟩ := Listing.mem_drop_succ_iff.1 he
      obtain ⟨hn, gone⟩ := getElem?_take_eq_some.1 gone
      exact lasting k hm hn gone
    cases (register_of_some still).symm.trans step
    rfl

theorem Leads.recorded (run : Leads {} es t) : Recorded es t := by
  have wf := run.wellFormed .empty
  refine ⟨?_, ?_, fun _ _ _ _ _ _ => run.shared, ?_, ?_, wf.exists_clients⟩
  · intro id
    rw [wf.clientStats_isSome, run.handle?_isSome]
  · intro id n h least here
    have counted := run.counted least here
    refine ⟨counted, fun c => ?_⟩
    rw [counted, Counters.counts_iff, Option.some_inj, eq_comm]
  · intro m n id h u lt there gone
    exact (run.heldBy_of_deregistered lt there gone).clientStats_update u
  · intro id never
    rw [← run.handle?_isSome, Option.not_isSome_iff_eq_none] at never
    rw [clientStats, handle?_register, if_pos rfl, Option.bind_some, counters?_register_new never]

end Places

/-- From the empty table on, a table is what everything done to it calls for. -/
theorem performAll_recorded (cs : List Command) :
    Recorded (performAll {} cs).1 (performAll {} cs).2 :=
  (performAll_leads {} cs).recorded

/-- A client is registered again while another stays, and its old handle is used still. -/
theorem performAll_recorded_renewed :
    let cs : List Command := [.register "a", .update ⟨0⟩ .subscribed, .register "b",
      .deregister "a", .register "a", .update ⟨0⟩ (.packetReceived 7), .register "a",
      .update ⟨2⟩ (.packetSent 3), .update ⟨1⟩ .unsubscribed, .update ⟨2⟩ .subscribed,
      .update ⟨2⟩ (.queued 4), .update ⟨1⟩ (.messagesDropped 5), .update ⟨2⟩ .subscribed]
    (performAll {} cs).2.clientStats "a" = some {
        packetsSent := 1
        bytesSent := 3
        subscriptionsCurrent := 2
        subscriptionsTotal := 2
        queuedCurrent := 4 } ∧
      (performAll {} cs).2.clientStats "b" = some { messagesDropped := 5 } := by
  intro cs
  have recorded := performAll_recorded cs
  have events : (performAll {} cs).1 = [.registered "a" ⟨0⟩, .updated ⟨0⟩ .subscribed,
      .registered "b" ⟨1⟩, .deregistered "a", .registered "a" ⟨2⟩,
      .updated ⟨0⟩ (.packetReceived 7), .registered "a" ⟨2⟩, .updated ⟨2⟩ (.packetSent 3),
      .updated ⟨1⟩ .unsubscribed, .updated ⟨2⟩ .subscribed, .updated ⟨2⟩ (.queued 4),
      .updated ⟨1⟩ (.messagesDropped 5), .updated ⟨2⟩ .subscribed] := by
    simp [cs, performAll, Command.perform, register, handle?, deregister, update]
  rw [events] at recorded
  constructor
  · refine (recorded.counted "a" 4 ⟨2⟩ ⟨⟨⟨_, rfl⟩, fun m behind gone => ?_⟩, ?_⟩ rfl).1.trans rfl
    · exact absurd (Listing.mem_drop_succ_iff.2 ⟨m, behind, gone⟩) (by decide)
    · rintro m ⟨⟨h, there⟩, lasting⟩
      by_contra before
      rcases Nat.lt_or_ge m 3 with early | late
      · exact lasting 3 early rfl
      · obtain rfl : m = 3 := by omega
        cases there
  · refine (recorded.counted "b" 2 ⟨1⟩ ⟨⟨⟨_, rfl⟩, fun m behind gone => ?_⟩, ?_⟩ rfl).1.trans rfl
    · exact absurd (Listing.mem_drop_succ_iff.2 ⟨m, behind, gone⟩) (by decide)
    · rintro m ⟨⟨h, there⟩, -⟩
      by_contra before
      have first : m = 0 ∨ m = 1 := by omega
      rcases first with rfl | rfl <;> simp at there

end BrokerAdmin.MetricsTable
