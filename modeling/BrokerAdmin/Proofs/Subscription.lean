import BrokerAdmin.Subscription

set_option autoImplicit false

/-!
Full filters against subscriptions. Reading a full filter loses nothing, so the filter can always
be written again. The other way round a subscription comes back only if its parts can be told
apart in its full filter: a group must have a name that ends at the first slash, and a filter
outside any group must not look like a shared one.
-/

namespace BrokerAdmin.Subscription

/-- The name of a share group: not empty, and without the slash that ends it. -/
def IsGroup (g : String) : Prop := g ≠ "" ∧ '/' ∉ g.toList

def IsShared (full : String) : Prop :=
  ∃ g filter, IsGroup g ∧ full = "$share/" ++ g ++ "/" ++ filter

/-- The parts of the subscription can be told apart in its full filter. -/
def Canonical (s : Subscription) : Prop :=
  (∃ g, s.shareGroup = some g ∧ IsGroup g) ∨ s.shareGroup = none ∧ ¬IsShared s.topicFilter

theorem splitAtSlash_append {before : List Char} (none : '/' ∉ before) (after : List Char) :
    splitAtSlash (before ++ '/' :: after) = some (before, after) := by
  induction before with
  | nil => rfl
  | cons c before ih =>
    rw [List.mem_cons, not_or] at none
    rw [List.cons_append, splitAtSlash, if_neg (Ne.symm none.1), ih none.2]
    rfl

theorem eq_of_splitAtSlash {cs before after : List Char}
    (split : splitAtSlash cs = some (before, after)) :
    cs = before ++ '/' :: after ∧ '/' ∉ before := by
  induction cs generalizing before with
  | nil => cases split
  | cons c cs ih =>
    rw [splitAtSlash] at split
    split at split
    · rename_i slash
      cases split
      exact ⟨by rw [slash, List.nil_append], List.not_mem_nil⟩
    · rename_i other
      obtain ⟨⟨front, behind⟩, found, eq⟩ := Option.map_eq_some_iff.1 split
      cases eq
      obtain ⟨rfl, none⟩ := ih found
      exact ⟨rfl, List.not_mem_cons_of_ne_of_not_mem (Ne.symm other) none⟩

theorem eq_of_afterShareMark? {cs rest : List Char} (mark : afterShareMark? cs = some rest) :
    cs = "$share/".toList ++ rest := by
  unfold afterShareMark? at mark
  split at mark
  · cases mark
    rfl
  · cases mark

theorem splitShared?_append {group : List Char} (nonempty : group ≠ []) (none : '/' ∉ group)
    (filter : List Char) :
    splitShared? ("$share/".toList ++ (group ++ '/' :: filter)) = some (group, filter) := by
  have mark : afterShareMark? ("$share/".toList ++ (group ++ '/' :: filter)) =
      some (group ++ '/' :: filter) := rfl
  rw [splitShared?, mark, Option.bind_some, splitAtSlash_append none]
  cases group with
  | nil => exact absurd rfl nonempty
  | cons c group => rfl

theorem eq_of_splitShared? {full group filter : List Char}
    (split : splitShared? full = some (group, filter)) :
    (group ≠ [] ∧ '/' ∉ group) ∧ full = "$share/".toList ++ (group ++ '/' :: filter) := by
  unfold splitShared? at split
  split at split
  · cases split
  · rename_i group filter nonempty found
    cases split
    obtain ⟨rest, mark, slash⟩ := Option.bind_eq_some_iff.1 found
    obtain ⟨rfl, none⟩ := eq_of_splitAtSlash slash
    exact ⟨⟨nonempty, none⟩, eq_of_afterShareMark? mark⟩
  · cases split

theorem toList_shared (g filter : String) : ("$share/" ++ g ++ "/" ++ filter).toList =
    "$share/".toList ++ (g.toList ++ '/' :: filter.toList) := by
  simp

theorem parse_shared {g : String} (group : IsGroup g) (filter : String) (id : UInt32)
    (options : SubscriptionOptions) :
    parse ("$share/" ++ g ++ "/" ++ filter) id options = ⟨some g, filter, id, options⟩ := by
  have nonempty : g.toList ≠ [] := fun empty => group.1 (String.toList_eq_nil_iff.1 empty)
  rw [parse, toList_shared, splitShared?_append nonempty group.2]
  simp

theorem parse_plain {full : String} (plain : ¬IsShared full) (id : UInt32)
    (options : SubscriptionOptions) : parse full id options = ⟨none, full, id, options⟩ := by
  rw [parse]
  split
  · rename_i group filter split
    obtain ⟨⟨nonempty, none⟩, eq⟩ := eq_of_splitShared? split
    refine absurd ⟨String.ofList group, String.ofList filter, ⟨?_, ?_⟩, ?_⟩ plain
    · simpa using nonempty
    · simpa using none
    · rw [← String.toList_inj, toList_shared]
      simpa using eq
  · rfl

theorem canonical_parse (full : String) (id : UInt32) (options : SubscriptionOptions) :
    (parse full id options).Canonical := by
  by_cases shared : IsShared full
  · obtain ⟨g, filter, group, rfl⟩ := shared
    rw [parse_shared group]
    exact .inl ⟨g, rfl, group⟩
  · rw [parse_plain shared]
    exact .inr ⟨rfl, shared⟩

theorem parse_fullFilter {s : Subscription} (canonical : s.Canonical) :
    parse s.fullFilter s.id s.options = s := by
  obtain ⟨shareGroup, topicFilter, id, options⟩ := s
  rcases canonical with ⟨g, eq, group⟩ | ⟨eq, plain⟩
  · cases eq
    exact parse_shared group topicFilter id options
  · cases eq
    exact parse_plain plain id options

theorem fullFilter_parse (full : String) (id : UInt32) (options : SubscriptionOptions) :
    (parse full id options).fullFilter = full := by
  by_cases shared : IsShared full
  · obtain ⟨g, filter, group, rfl⟩ := shared
    rw [parse_shared group]
    rfl
  · rw [parse_plain shared]
    rfl

/-- A full filter survives being read and written again, and a subscription survives being written
and read again exactly if its parts can be told apart in its full filter. -/
theorem filters_read_back : (∀ full id options, (parse full id options).fullFilter = full) ∧
    ∀ s : Subscription, parse s.fullFilter s.id s.options = s ↔ s.Canonical := by
  refine ⟨fullFilter_parse, fun s => ⟨fun back => ?_, parse_fullFilter⟩⟩
  have canonical := canonical_parse s.fullFilter s.id s.options
  rwa [back] at canonical

/-- Near misses: no group, no name, no second slash, and a name that holds one. -/
example : (parse "$share/g" 0 {}).shareGroup = none ∧ (parse "$share//x" 0 {}).shareGroup = none ∧
    parse "$share/g/" 0 {} = ⟨some "g", "", 0, {}⟩ ∧
    parse (Subscription.fullFilter ⟨some "a/b", "c", 0, {}⟩) 0 {} = ⟨some "a", "b/c", 0, {}⟩ := by
  decide

end BrokerAdmin.Subscription
