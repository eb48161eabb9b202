import BrokerAdmin.Proofs.World.ClientHistory
import BrokerAdmin.Proofs.World.SubscriptionHistory

set_option autoImplicit false

/-!
Pages of both listings in every world that a history leads to, by the positions they show.
-/

namespace BrokerAdmin

/-- The pages of both listings show the positions that their numbers and sizes mean, however large
these are, as long as a word can count the listing. -/
theorem History.pages_positioned (control : SessionControl) (settings : AdminSettings)
    (h : History) :
    ∃ (o : _) (l : List ClientRecord) (m : List SubscriptionRecord),
      h.perform control { settings } = .ok o ∧
      o.state.clients.records.toList = .ok (l.map fun r => (r.clientId, r)) ∧
      o.state.subscriptions.records.toList =
        .ok (m.map fun r => (⟨r.clientId, r.topicFilter⟩, r)) ∧
      (l.length < UInt64.size → ∀ source,
        ShowsPositions (o.state.clients.list source) (l.map (·.enrich source))) ∧
      (m.length < UInt64.size → ShowsPositions o.state.subscriptions.list m) := by
  obtain ⟨o, done, shows⟩ := h.perform_eq_ok control settings
  obtain ⟨l, lists, -⟩ := shows.exists_clients
  obtain ⟨m, lists', -⟩ := shows.exists_subscriptions
  exact ⟨o, l, m, done, lists.toList, lists'.toList, lists.positioned, lists'.positioned⟩

/-- The last page of the largest size, whose start no word can hold, and the end of a listing. -/
theorem History.pages_positioned_saturated :
    let control := SessionControl.passive true
    let opened (id : String) : Operation :=
      .addClient ⟨id, none, .v5, 0, 0, 0, 0, 0, "local", "remote", ⟨1⟩⟩
    let h : History := [(⟨1⟩, opened "a"), (⟨2⟩, opened "b"), (⟨3⟩, opened "c"),
      (⟨4⟩, .addSubscription "c" (.plain "t" {}))]
    let largest : UInt64 := 18446744073709551615
    ∃ (o : _) (l : List ClientRecord) (m : List SubscriptionRecord),
      h.perform control {} = .ok o ∧
      o.state.clients.records.toList = .ok (l.map fun r => (r.clientId, r)) ∧
      o.state.subscriptions.records.toList =
        .ok (m.map fun r => (⟨r.clientId, r.topicFilter⟩, r)) ∧
      l.length < UInt64.size ∧ m.length < UInt64.size ∧
      (∀ source, o.state.clients.list source largest largest = .ok ⟨[], 3⟩) ∧
      (∃ p, o.state.clients.list (fun _ => none) 2 2 = .ok p ∧
        p.items.map ClientRecord.clientId = ["c"] ∧ p.totalCount = 3) ∧
      o.state.subscriptions.list 0 largest = .ok ⟨m, 1⟩ := by
  intro control opened h largest
  obtain ⟨o, l, m, done, lists, lists', positioned, positioned'⟩ :=
    History.pages_positioned control {} h
  obtain ⟨o', done', shows⟩ := h.perform_eq_ok control {}
  cases done.symm.trans done'
  have ids : l.map (·.clientId) = ["a", "b", "c"] := by
    have keys := congrArg (List.map (·.1))
      (Except.ok.inj (lists.symm.trans shows.clients.toList))
    rw [List.map_map] at keys
    exact keys.trans (by decide)
  have three : l.length = 3 := by
    rw [← List.length_map ClientRecord.clientId, ids]
    rfl
  have one : m.length = 1 := by
    have keys := congrArg List.length
      (Except.ok.inj (lists'.symm.trans shows.subscriptions.toList))
    rw [List.length_map] at keys
    exact keys.trans (by decide)
  have counted : l.length < UInt64.size := by rw [three]; decide
  have counted' : m.length < UInt64.size := by rw [one]; decide
  have wide : largest.toNat = 18446744073709551615 := rfl
  have whole := positioned' counted' 0 largest
  rw [Listing.atPositions_interval, UInt64.toNat_zero, Nat.zero_max, Nat.sub_self, Nat.zero_mul,
    List.drop_zero, one, List.take_of_length_le (by omega)] at whole
  refine ⟨o, l, m, done, lists, lists', counted, counted', fun source => ?_, ?_, whole⟩
  · have behind := positioned counted source largest largest
    rwa [Listing.atPositions_interval, List.length_map, three, List.drop_of_length_le,
      List.take_nil] at behind
    rw [List.length_map, three, wide]
    omega
  · have second := positioned counted (fun _ => none) 2 2
    refine ⟨_, second, ?_, ?_⟩
    · rw [Listing.atPositions_interval, List.map_take, List.map_drop, List.map_map]
      have same : l.map (ClientRecord.clientId ∘ (·.enrich fun _ => none)) =
          l.map (·.clientId) := by
        simp [Function.comp_def]
      rw [same, ids]
      rfl
    · rw [List.length_map, three]

end BrokerAdmin
