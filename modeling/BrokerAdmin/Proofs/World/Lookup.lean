import BrokerAdmin.Proofs.World.ClientHistory
import BrokerAdmin.Proofs.World.Requests

set_option autoImplicit false

/-!
Looking up one client against listing them all. A lookup goes through the index of the store, a
listing along its links, and each fetches the counters on its own. In every world that a history
leads to they tell the same.
-/

namespace BrokerAdmin

/-- Where no key stands twice, the first value with a key is the only one. -/
theorem Listing.find?_eq_some_iff {K V : Type} [BEq K] [LawfulBEq K] {key : V → K} {l : List V}
    (nodup : (l.map key).Nodup) {k : K} {v : V} :
    l.find? (fun v => key v == k) = some v ↔ v ∈ l ∧ key v = k := by
  constructor
  · intro found
    exact ⟨List.mem_of_find?_eq_some found, by simpa using List.find?_some found⟩
  · rintro ⟨hv, rfl⟩
    have exists_found : (l.find? fun u => key u == key v).isSome := by
      rw [List.find?_isSome]
      exact ⟨v, hv, by simp⟩
    obtain ⟨u, found⟩ := Option.isSome_iff_exists.1 exists_found
    have same : key u = key v := by simpa using List.find?_some found
    rw [found, List.inj_on_of_nodup_map nodup (List.mem_of_find?_eq_some found) hv same]

namespace ClientStore.Lists

variable {s : ClientStore} {l : List ClientRecord}

theorem get?_enriched (lists : s.Lists l) (source : String → Option Counters) (id : String) :
    s.get? source id = .ok ((l.map (·.enrich source)).find? fun r => r.clientId == id) := by
  rw [lists.get?, List.find?_map]
  simp only [Function.comp_def, ClientRecord.clientId_enrich]

theorem exists_page (lists : s.Lists l) (source : String → Option Counters)
    (page pageSize : UInt64) :
    ∃ p, s.list source page pageSize = .ok p ∧ p.totalCount = l.length ∧
      p.items <:+: l.map (·.enrich source) := by
  refine ⟨_, lists.list source page pageSize, rfl, ?_⟩
  rw [List.map_take, List.map_drop]
  exact (List.take_prefix ..).isInfix.trans (List.drop_suffix ..).isInfix

end ClientStore.Lists

namespace World

/-- Whoever reads the world finds the same clients, which are `l` with their counters. -/
structure Coherent (w : World) (l : List ClientRecord) : Prop where
  stored : ∃ entries, w.clients.records.toList = .ok entries ∧
    (∀ id r, w.clients.records.get? id = .ok (some r) ↔ (id, r) ∈ entries) ∧
    (∀ id r, (id, r) ∈ entries → r.clientId = id) ∧
    l = entries.map fun e => e.2.enrich w.metrics.clientStats
  whole : ∀ size : UInt64, l.length ≤ size.toNat →
    w.clients.list w.metrics.clientStats 1 size = .ok ⟨l, l.length⟩
  once : (l.map (·.clientId)).Nodup
  found : ∀ id r, w.getClient id = .ok (.ok r) ↔ id ≠ "" ∧ r ∈ l ∧ r.clientId = id
  invalid : ∀ id field value, w.getClient id = .ok (.error (.invalidArgument field value)) ↔
    id = "" ∧ field = "client_id" ∧ value = ""
  unknown : ∀ id a, w.getClient id = .ok (.error (.notFound a)) ↔
    id ≠ "" ∧ (∀ r ∈ l, r.clientId ≠ id) ∧ a = id
  paged : ∀ page pageSize, ∃ p, w.listClients page pageSize = .ok p ∧ p.items <:+: l ∧
    p.totalCount = l.length ∧
    (l.length < UInt64.size → p.items = Listing.atPositions l fun i =>
      (max page.toNat 1 - 1) * w.settings.effectivePageSize pageSize ≤ i ∧
        i < (max page.toNat 1 - 1) * w.settings.effectivePageSize pageSize +
          w.settings.effectivePageSize pageSize) ∧
    ∀ r ∈ p.items, r.clientId ≠ "" → w.getClient r.clientId = .ok (.ok r)

theorem getClient_empty (w : World) :
    w.getClient "" = .ok (.error (.invalidArgument "client_id" "")) := rfl

section Lookups

variable {w : World} {id : String} {known : Option ClientRecord}

theorem getClient_eq_ok (named : id ≠ "")
    (get? : w.clients.get? w.metrics.clientStats id = .ok known) :
    w.getClient id = .ok (known.elim (.error (.notFound id)) .ok) := by
  have nonempty : id.isEmpty = false := by simpa using named
  simp only [getClient, nonempty, get?]
  cases known <;> rfl

theorem getClient_found_iff (get? : w.clients.get? w.metrics.clientStats id = .ok known)
    (r : ClientRecord) : w.getClient id = .ok (.ok r) ↔ id ≠ "" ∧ known = some r := by
  by_cases empty : id = ""
  · subst empty
    simp [getClient_empty]
  · rw [getClient_eq_ok empty get?]
    cases known <;> simp [empty]

theorem getClient_invalid_iff (get? : w.clients.get? w.metrics.clientStats id = .ok known)
    (field value : String) :
    w.getClient id = .ok (.error (.invalidArgument field value)) ↔
      id = "" ∧ field = "client_id" ∧ value = "" := by
  by_cases empty : id = ""
  · subst empty
    simp [getClient_empty, eq_comm]
  · rw [getClient_eq_ok empty get?]
    cases known <;> simp [empty]

theorem getClient_unknown_iff (get? : w.clients.get? w.metrics.clientStats id = .ok known)
    (a : String) :
    w.getClient id = .ok (.error (.notFound a)) ↔ id ≠ "" ∧ known = none ∧ a = id := by
  by_cases empty : id = ""
  · subst empty
    simp [getClient_empty]
  · rw [getClient_eq_ok empty get?]
    cases known <;> simp [empty, eq_comm]

end Lookups

theorem Shows.exists_coherent {w : World} {cs : List ClientEvent} {ss : List SubscriptionEvent}
    (h : w.Shows cs ss) : ∃ l, w.Coherent l := by
  obtain ⟨records, lists, values⟩ := h.exists_clients
  let l := records.map (·.enrich w.metrics.clientStats)
  have once : (l.map (·.clientId)).Nodup := by
    have clientIds : l.map (·.clientId) = records.map (·.clientId) := by
      simp [l, Function.comp_def]
    rw [clientIds]
    exact values.nodup
  have get? := lists.get?_enriched w.metrics.clientStats
  have found : ∀ id r, w.getClient id = .ok (.ok r) ↔ id ≠ "" ∧ r ∈ l ∧ r.clientId = id := by
    intro id r
    rw [getClient_found_iff (get? id), Listing.find?_eq_some_iff once]
  refine ⟨l, ?_, ?_, once, found, fun id => getClient_invalid_iff (get? id), ?_, ?_⟩
  · refine ⟨_, lists.toList, ?_, ?_, ?_⟩
    · intro id r
      have single := h.clients.get? id
      rw [values.after_eq, Listing.get?_map] at single
      rw [single]
      simp [Listing.find?_eq_some_iff values.nodup]
    · simp
    · simp [l, Function.comp_def]
  · intro size enough
    rw [List.length_map] at enough ⊢
    exact lists.whole _ size enough
  · intro id a
    rw [getClient_unknown_iff (get? id), List.find?_eq_none]
    simp only [beq_iff_eq, ne_eq, l]
  · intro page pageSize
    obtain ⟨p, read, total, within⟩ := lists.exists_page w.metrics.clientStats
      (w.request page pageSize).page (w.request page pageSize).pageSize
    refine ⟨p, read, within, by rw [total, List.length_map], fun counted => ?_,
      fun r hr named => ?_⟩
    · rw [List.length_map] at counted
      have shown := lists.positioned counted w.metrics.clientStats (w.request page pageSize).page
        (w.request page pageSize).pageSize
      rw [toNat_page_request, toNat_pageSize_request,
        Nat.max_eq_left (Nat.le_max_right ..)] at shown
      rw [Except.ok.inj (read.symm.trans shown)]
    · exact (found _ r).2 ⟨named, within.subset hr, rfl⟩

end World

/-- Looking up a client agrees with listing them all, whatever has been done to the world. -/
theorem History.clients_coherent (control : SessionControl) (settings : AdminSettings)
    (h : History) : ∃ o l, h.perform control { settings } = .ok o ∧ o.state.Coherent l := by
  obtain ⟨o, done, shows⟩ := h.perform_eq_ok control settings
  obtain ⟨l, coherent⟩ := shows.exists_coherent
  exact ⟨o, l, done, coherent⟩

end BrokerAdmin
