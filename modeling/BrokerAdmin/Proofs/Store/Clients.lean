import BrokerAdmin.Proofs.Listing.Positions
import BrokerAdmin.Proofs.Registry.Sweeps
import BrokerAdmin.Proofs.Registry.Windows
import BrokerAdmin.Store.Clients

set_option autoImplicit false

/-!
The client store over a registry that represents a listing: no operation meets a fault, and each
one's answer, log lines and listing afterwards follow from the listing before.
-/

namespace BrokerAdmin.ClientStore

variable {s : ClientStore} {l : List (String × ClientRecord)}

theorem add_eq_ok (h : s.records.Represents l) (c : Connection) :
    ∃ records, s.add c = .ok ⟨(), ⟨records⟩,
        [if Listing.contains l c.clientId then .clientReplaced c.clientId
          else .clientAdded c.clientId]⟩ ∧
      records.Represents (Listing.set l c.clientId (.ofConnection c)) := by
  obtain ⟨records, done, after⟩ := h.set c.clientId (.ofConnection c)
  refine ⟨records, ?_, after⟩
  simp only [add, done]
  rfl

theorem setDisconnected_eq_ok (h : s.records.Represents l) (id : String) (now : Timestamp) :
    ∃ records, s.setDisconnected id now = .ok ⟨(), ⟨records⟩,
        if Listing.contains l id then [.clientDisconnected id] else []⟩ ∧
      records.Represents (Listing.modify l id (·.disconnect now)) := by
  obtain ⟨records, done, after⟩ := h.modify id (·.disconnect now)
  refine ⟨records, ?_, after⟩
  simp only [setDisconnected, done, Listing.contains, bind, Except.bind, Option.isSome_map]
  rfl

theorem remove_eq_ok (h : s.records.Represents l) (id : String) :
    ∃ records, s.remove id = .ok ⟨Listing.contains l id, ⟨records⟩,
        if Listing.contains l id then [.clientRemoved id] else []⟩ ∧
      records.Represents (Listing.erase l id) := by
  obtain ⟨records, done, after⟩ := h.erase id
  refine ⟨records, ?_, after⟩
  simp only [remove, done]
  rfl

theorem get?_eq_ok (h : s.records.Represents l) (source : String → Option Counters)
    (id : String) : s.get? source id = .ok ((Listing.get? l id).map (·.enrich source)) := by
  simp only [get?, h.get?]
  rfl

theorem list_eq_ok (h : s.records.Represents l) (source : String → Option Counters)
    (page pageSize : UInt64) :
    s.list source page pageSize = .ok ⟨(Listing.window l (Window.ofPage page pageSize).start.toNat
      (Window.ofPage page pageSize).size.toNat).map fun kv => kv.2.enrich source, l.length⟩ := by
  simp only [list, h.window, size, h.size]
  rfl

/-- What readers of the store see: these records in this order, all on one page that is large
enough, and on any other page those at its positions. -/
structure Lists (s : ClientStore) (l : List ClientRecord) : Prop where
  toList : s.records.toList = .ok (l.map fun r => (r.clientId, r))
  get? : ∀ source id, s.get? source id =
    .ok ((l.find? fun r => r.clientId == id).map (·.enrich source))
  list : ∀ source page pageSize, s.list source page pageSize =
    .ok ⟨((l.drop (Window.ofPage page pageSize).start.toNat).take
      (Window.ofPage page pageSize).size.toNat).map (·.enrich source), l.length⟩
  whole : ∀ source (size : UInt64), l.length ≤ size.toNat →
    s.list source 1 size = .ok ⟨l.map (·.enrich source), l.length⟩
  positioned : l.length < UInt64.size →
    ∀ source, ShowsPositions (s.list source) (l.map (·.enrich source))

theorem lists_of_represents {l : List ClientRecord}
    (h : s.records.Represents (l.map fun r => (r.clientId, r))) : s.Lists l := by
  have windows (source : String → Option Counters) (page pageSize : UInt64) :
      s.list source page pageSize = .ok ⟨((l.drop (Window.ofPage page pageSize).start.toNat).take
        (Window.ofPage page pageSize).size.toNat).map (·.enrich source), l.length⟩ := by
    rw [list_eq_ok h]
    simp [Listing.window, List.map_drop, List.map_take, Function.comp_def]
  refine ⟨h.toList, ?_, windows, ?_, ?_⟩
  · intro source id
    rw [get?_eq_ok h, Listing.get?_map]
  · intro source size enough
    rw [windows, Listing.window_ofPage_one enough]
  · intro counted source
    apply showsPositions_of_windows
    · rwa [List.length_map]
    · intro page size
      rw [windows, List.map_take, List.map_drop, List.length_map]

end BrokerAdmin.ClientStore
