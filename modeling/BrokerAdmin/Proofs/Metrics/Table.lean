import BrokerAdmin.Metrics.Table

set_option autoImplicit false

/-!
Laws of the table of counters. The lives begun so far are numbered in order, so a new life never
takes the number of an earlier one, and every client that has a handle has a life of its own.
-/

namespace BrokerAdmin.MetricsTable

variable {t : MetricsTable} {id a : String} {h g : Handle}

theorem register_of_some (known : t.handle? id = some h) : t.register id = (h, t) := by
  simp only [register, known]

theorem register_of_none (unknown : t.handle? id = none) : t.register id =
    (⟨t.lives.size⟩, ⟨t.current.insert id ⟨t.lives.size⟩, t.lives.push {}⟩) := by
  simp only [register, unknown]

@[simp] theorem handle?_empty (id : String) : handle? {} id = none := Std.HashMap.getElem?_empty

theorem handle?_register (t : MetricsTable) (id a : String) :
    (t.register id).2.handle? a = if a = id then some (t.register id).1 else t.handle? a := by
  cases known : t.handle? id with
  | some h =>
    rw [register_of_some known]
    split
    · rename_i same
      rw [same, known]
    · rfl
  | none =>
    rw [register_of_none known, handle?, Std.HashMap.getElem?_insert]
    by_cases same : a = id
    · simp [same]
    · rw [if_neg same, if_neg (by simpa using Ne.symm same)]
      rfl

theorem handle?_deregister (t : MetricsTable) (id a : String) :
    (t.deregister id).2.handle? a = if a = id then none else t.handle? a := by
  rw [handle?, deregister, Std.HashMap.getElem?_erase]
  by_cases same : a = id
  · simp [same]
  · rw [if_neg same, if_neg (by simpa using Ne.symm same)]
    rfl

@[simp] theorem handle?_update (t : MetricsTable) (h : Handle) (u : Counters.Update) (a : String) :
    (t.update h u).handle? a = t.handle? a := rfl

theorem le_size_lives_register (t : MetricsTable) (id : String) :
    t.lives.size ≤ (t.register id).2.lives.size := by
  cases known : t.handle? id with
  | some h => simp only [register_of_some known, Nat.le_refl]
  | none => simp only [register_of_none known, Array.size_push, Nat.le_succ]

@[simp] theorem size_lives_update (t : MetricsTable) (h : Handle) (u : Counters.Update) :
    (t.update h u).lives.size = t.lives.size := Array.size_modify

theorem counters?_register (lived : h.life < t.lives.size) (id : String) :
    (t.register id).2.counters? h = t.counters? h := by
  cases known : t.handle? id with
  | some g => rw [register_of_some known]
  | none =>
    rw [register_of_none known, counters?, Array.getElem?_push_lt lived]
    exact (Array.getElem?_eq_getElem lived).symm

theorem counters?_register_new (unknown : t.handle? id = none) :
    (t.register id).2.counters? (t.register id).1 = some {} := by
  rw [register_of_none unknown]
  exact Array.getElem?_push_size

theorem counters?_update (t : MetricsTable) (h g : Handle) (u : Counters.Update) :
    (t.update h u).counters? g =
      if g = h then (t.counters? g).map (·.apply u) else t.counters? g := by
  rw [counters?, update, Array.getElem?_modify]
  by_cases same : g = h
  · simp [same, counters?]
  · have other : h.life ≠ g.life := fun eq => same (by cases h; cases g; simp_all)
    rw [if_neg other, if_neg same]
    rfl

/-- A current handle leads to a life, and no two clients share one. -/
structure WellFormed (t : MetricsTable) : Prop where
  lived : ∀ {id h}, t.handle? id = some h → h.life < t.lives.size
  own : ∀ {id a h}, t.handle? id = some h → t.handle? a = some h → a = id

namespace WellFormed

theorem empty : WellFormed {} where
  lived := by simp
  own := by simp

theorem clientStats_isSome (wf : t.WellFormed) (id : String) :
    (t.clientStats id).isSome ↔ (t.handle? id).isSome := by
  cases known : t.handle? id with
  | none => simp [clientStats, known]
  | some h =>
    rw [clientStats, known, Option.bind_some, counters?, Array.getElem?_eq_getElem (wf.lived known)]
    rfl

theorem register (wf : t.WellFormed) (id : String) : (t.register id).2.WellFormed := by
  cases known : t.handle? id with
  | some h => rwa [register_of_some known]
  | none =>
    have fresh : ∀ a, t.handle? a ≠ some ⟨t.lives.size⟩ :=
      fun a ha => Nat.lt_irrefl _ (wf.lived ha)
    constructor
    · intro a h ha
      rw [handle?_register, register_of_none known] at ha
      rw [register_of_none known, Array.size_push]
      split at ha
      · cases ha
        exact Nat.lt_succ_self _
      · exact Nat.lt_succ_of_lt (wf.lived ha)
    · intro a b h ha hb
      rw [handle?_register, register_of_none known] at ha hb
      split at ha <;> split at hb
      · simp_all
      · cases ha
        exact absurd hb (fresh b)
      · cases hb
        exact absurd ha (fresh a)
      · exact wf.own ha hb

theorem deregister (wf : t.WellFormed) (id : String) : (t.deregister id).2.WellFormed := by
  have before : ∀ {a h}, (t.deregister id).2.handle? a = some h → t.handle? a = some h := by
    intro a h ha
    rw [handle?_deregister] at ha
    split at ha
    · cases ha
    · exact ha
  exact ⟨fun ha => wf.lived (before ha), fun ha hb => wf.own (before ha) (before hb)⟩

theorem update (wf : t.WellFormed) (h : Handle) (u : Counters.Update) : (t.update h u).WellFormed :=
  ⟨fun ha => by simpa using wf.lived ha, fun ha hb => wf.own ha hb⟩

end WellFormed

theorem WellFormed.exists_clients (wf : t.WellFormed) : ∃ ids : List String, ids.Nodup ∧
    ids.length = t.size ∧ ∀ id, id ∈ ids ↔ (t.clientStats id).isSome := by
  refine ⟨t.current.keys, ?_, Std.HashMap.length_keys, fun id => ?_⟩
  · exact Std.HashMap.nodup_keys
  · rw [wf.clientStats_isSome, handle?, Std.HashMap.mem_keys, Std.HashMap.mem_iff_isSome_getElem?]

/-- The handle leads to a life that has begun, and only clients of which `p` holds have it. -/
structure HeldBy (t : MetricsTable) (h : Handle) (p : String → Prop) : Prop where
  lived : h.life < t.lives.size
  holders : ∀ {id}, t.handle? id = some h → p id

namespace HeldBy

variable {p : String → Prop}

theorem imp {q : String → Prop} (held : t.HeldBy h p) (weaker : ∀ a, p a → q a) : t.HeldBy h q :=
  ⟨held.lived, fun ha => weaker _ (held.holders ha)⟩

theorem register (held : t.HeldBy h p) (id : String) : (t.register id).2.HeldBy h p := by
  cases known : t.handle? id with
  | some g => rwa [register_of_some known]
  | none =>
    refine ⟨Nat.lt_of_lt_of_le held.lived (le_size_lives_register t id), fun {a} ha => ?_⟩
    rw [handle?_register, register_of_none known] at ha
    split at ha
    · cases ha
      exact absurd held.lived (Nat.lt_irrefl _)
    · exact held.holders ha

theorem deregister (held : t.HeldBy h p) (id : String) :
    (t.deregister id).2.HeldBy h fun a => a ≠ id ∧ p a := by
  refine ⟨held.lived, fun {a} ha => ?_⟩
  rw [handle?_deregister] at ha
  split at ha
  · cases ha
  · rename_i other
    exact ⟨other, held.holders ha⟩

theorem update (held : t.HeldBy h p) (g : Handle) (u : Counters.Update) :
    (t.update g u).HeldBy h p :=
  ⟨by simpa using held.lived, held.holders⟩

/-- What is reported through a handle that no client has shows nowhere. -/
theorem clientStats_update (held : t.HeldBy h fun _ => False) (u : Counters.Update) :
    (t.update h u).clientStats = t.clientStats := by
  funext id
  rw [clientStats, clientStats, handle?_update]
  cases known : t.handle? id with
  | none => rfl
  | some g =>
    have other : g ≠ h := by
      rintro rfl
      exact held.holders known
    rw [Option.bind_some, Option.bind_some, counters?_update, if_neg other]

end HeldBy

end BrokerAdmin.MetricsTable
