import BrokerAdmin.Proofs.Listing.History
import BrokerAdmin.Proofs.Store.Subscriptions

set_option autoImplicit false

/-!
Removing all subscriptions of a client at once and removing them one by one. The two ways reach the
slots differently and leave the vacant ones chained in different orders, but whatever is seen of a
store depends on its listing alone, so nothing that follows tells the two stores apart.
-/

namespace BrokerAdmin

namespace SubscriptionStore

inductive Command where
  | add (id : String) (sub : Subscription)
  | remove (id filter : String)
  | removeClient (id : String)
  | list (page pageSize : UInt64)
  | size
  | isEmpty
  deriving DecidableEq, Repr

inductive Answer where
  | done
  | flag (b : Bool)
  | count (n : Nat)
  | page (p : Page SubscriptionRecord)
  deriving DecidableEq, Repr

abbrev Records := List (SubscriptionKey × SubscriptionRecord)

/-- What is seen of a command: its answer, its lines of log and all that is listed behind it. -/
structure Seen where
  answer : Answer
  log : List LogEvent
  listing : Records
  deriving DecidableEq, Repr

namespace Command

def perform (s : SubscriptionStore) : Command → Except Fault (Outcome SubscriptionStore Answer)
  | add id sub => do
    let o ← s.add id sub
    return ⟨.done, o.state, o.log⟩
  | remove id filter => do
    let o ← s.remove id filter
    return ⟨.flag o.answer, o.state, o.log⟩
  | removeClient id => do
    let o ← s.removeClient id
    return ⟨.count o.answer, o.state, o.log⟩
  | list page pageSize => do return ⟨.page (← s.list page pageSize), s, []⟩
  | size => return ⟨.count s.size, s, []⟩
  | isEmpty => return ⟨.flag s.isEmpty, s, []⟩

/-- What is seen of a command to a store that lists these records. -/
def onListing (l : Records) : Command → Seen
  | add id sub =>
    ⟨.done, [if Listing.contains l ⟨id, sub.fullFilter⟩ then .subscriptionUpdated sub.fullFilter id
      else .subscriptionAdded sub.fullFilter id],
      Listing.set l ⟨id, sub.fullFilter⟩ (.ofSubscription id sub)⟩
  | remove id filter =>
    ⟨.flag (Listing.contains l ⟨id, filter⟩),
      if Listing.contains l ⟨id, filter⟩ then [.subscriptionRemoved filter id] else [],
      Listing.erase l ⟨id, filter⟩⟩
  | removeClient id =>
    ⟨.count (l.countP fun e => e.1.clientId == id),
      if l.countP (fun e => e.1.clientId == id) = 0 then []
      else [.subscriptionsRemoved (l.countP fun e => e.1.clientId == id) id],
      l.filter fun e => !(e.1.clientId == id)⟩
  | list page pageSize =>
    ⟨.page ⟨(Listing.window l (Window.ofPage page pageSize).start.toNat
      (Window.ofPage page pageSize).size.toNat).map (·.2), l.length⟩, [], l⟩
  | size => ⟨.count l.length, [], l⟩
  | isEmpty => ⟨.flag l.isEmpty, [], l⟩

end Command

/-- Performs commands one after the other and gives what is seen of each. -/
def observe (s : SubscriptionStore) : List Command → Except Fault (List Seen × SubscriptionStore)
  | [] => .ok ([], s)
  | c :: cs => do
    let o ← c.perform s
    let listing ← o.state.records.toList
    let (seen, s) ← observe o.state cs
    return (⟨o.answer, o.log, listing⟩ :: seen, s)

/-- No run of commands tells the stores apart. -/
def Alike (s t : SubscriptionStore) : Prop :=
  s.records.toList = t.records.toList ∧ ∀ cs, ∃ seen s' t',
    s.observe cs = .ok (seen, s') ∧ t.observe cs = .ok (seen, t')

/-- What is seen of commands to a store that lists these records, and the records in the end. -/
def observeListing (l : Records) : List Command → List Seen × Records
  | [] => ([], l)
  | c :: cs =>
    let (seen, m) := observeListing (c.onListing l).listing cs
    (c.onListing l :: seen, m)

section Observing

variable {s t : SubscriptionStore} {l : Records}

theorem perform_eq_ok (h : s.records.Represents l) (c : Command) :
    ∃ records, c.perform s = .ok ⟨(c.onListing l).answer, ⟨records⟩, (c.onListing l).log⟩ ∧
      records.Represents (c.onListing l).listing := by
  cases c with
  | add id sub =>
    obtain ⟨records, done, after⟩ := add_eq_ok h id sub
    exact ⟨records, by simp only [Command.perform, done]; rfl, after⟩
  | remove id filter =>
    obtain ⟨records, done, after⟩ := remove_eq_ok h id filter
    exact ⟨records, by simp only [Command.perform, done]; rfl, after⟩
  | removeClient id =>
    obtain ⟨records, done, after⟩ := removeClient_eq_ok h id
    exact ⟨records, by simp only [Command.perform, done]; rfl, after⟩
  | list page pageSize =>
    exact ⟨s.records, by simp only [Command.perform, list_eq_ok h]; rfl, h⟩
  | size =>
    exact ⟨s.records, by simp only [Command.perform, SubscriptionStore.size, h.size]; rfl, h⟩
  | isEmpty =>
    exact ⟨s.records, by simp only [Command.perform, SubscriptionStore.isEmpty, h.isEmpty]; rfl, h⟩

theorem observe_eq_ok (h : s.records.Represents l) (cs : List Command) :
    ∃ s', s.observe cs = .ok ((observeListing l cs).1, s') ∧
      s'.records.Represents (observeListing l cs).2 := by
  induction cs generalizing s l with
  | nil => exact ⟨s, rfl, h⟩
  | cons c cs ih =>
    obtain ⟨records, done, after⟩ := perform_eq_ok h c
    obtain ⟨s', run, final⟩ := ih (s := ⟨records⟩) after
    refine ⟨s', ?_, final⟩
    simp only [observe, done, bind, Except.bind, after.toList, run]
    rfl

theorem alike_of_represents (hs : s.records.Represents l) (ht : t.records.Represents l) :
    Alike s t := by
  refine ⟨hs.toList.trans ht.toList.symm, ?_⟩
  intro cs
  obtain ⟨s', run, -⟩ := observe_eq_ok hs cs
  obtain ⟨t', run', -⟩ := observe_eq_ok ht cs
  exact ⟨_, s', t', run, run'⟩

end Observing

/-- Every record stands under its owner and its full filter. -/
def Keyed (l : Records) : Prop := ∀ e ∈ l, e.1 = ⟨e.2.clientId, e.2.topicFilter⟩

section Keyed

variable {l : Records}

theorem Keyed.onListing (h : Keyed l) (c : Command) : Keyed (c.onListing l).listing := by
  cases c with
  | add id sub =>
    rintro ⟨k, r⟩ hmem
    rcases Listing.mem_set.1 hmem with ⟨-, earlier⟩ | ⟨rfl, rfl⟩
    · exact h _ earlier
    · rfl
  | remove id filter => exact fun e he => h e (List.mem_of_mem_filter he)
  | removeClient id => exact fun e he => h e (List.mem_of_mem_filter he)
  | _ => exact h

theorem Keyed.observeListing (h : Keyed l) (cs : List Command) :
    Keyed (observeListing l cs).2 := by
  induction cs generalizing l with
  | nil => exact h
  | cons c cs ih => exact ih (h.onListing c)

theorem Keyed.eq_map (h : Keyed l) :
    l = (l.map (·.2)).map fun r => (⟨r.clientId, r.topicFilter⟩, r) := by
  rw [List.map_map]
  refine (List.map_id _).symm.trans (List.map_congr_left ?_)
  intro e he
  exact Prod.ext (h e he) rfl

end Keyed

section Removing

variable {l : Records} {rs : List SubscriptionRecord} {id : String} {filters : List String}

theorem observeListing_remove (nodup : filters.Nodup)
    (known : ∀ filter ∈ filters, Listing.contains l ⟨id, filter⟩ = true) :
    (observeListing l (filters.map (.remove id))).1.map (·.answer) =
        filters.map (fun _ => .flag true) ∧
      (observeListing l (filters.map (.remove id))).2 =
        l.filter fun e => !(e.1.clientId == id && filters.contains e.1.topicFilter) := by
  induction filters generalizing l with
  | nil => simp [observeListing]
  | cons filter filters ih =>
    obtain ⟨fresh, nodup⟩ := List.nodup_cons.1 nodup
    obtain ⟨first, others⟩ := List.forall_mem_cons.1 known
    have left : ∀ f ∈ filters, Listing.contains (Listing.erase l ⟨id, filter⟩) ⟨id, f⟩ = true := by
      intro f hf
      have differ : f ≠ filter := fun same => fresh (same ▸ hf)
      have listed := (Listing.contains_iff_mem_keys l ⟨id, f⟩).1 (others f hf)
      rw [Listing.contains_iff_mem_keys, Listing.keys_erase, List.mem_filter]
      exact ⟨listed, by simp [differ]⟩
    obtain ⟨answers, gone⟩ := ih nodup left
    simp only [List.map_cons, observeListing, Command.onListing]
    refine ⟨by rw [answers, first], gone.trans ?_⟩
    rw [Listing.erase, List.filter_filter]
    apply List.filter_congr
    rintro ⟨⟨c, f⟩, r⟩ -
    by_cases owner : c = id
    · by_cases named : f = filter <;> simp [owner, named]
    · simp [owner, beq_eq_false_iff_ne.2 owner]

/-- The filters of one client, in any order, leave the records of all others. -/
theorem observeListing_remove_perm (distinct : Listing.Distinct l)
    (perm : filters.Perm ((l.filter fun e => e.1.clientId == id).map fun e => e.1.topicFilter)) :
    (observeListing l (filters.map (.remove id))).1.map (·.answer) =
        filters.map (fun _ => .flag true) ∧
      (observeListing l (filters.map (.remove id))).2 =
        l.filter fun e => !(e.1.clientId == id) := by
  have mem : ∀ f, f ∈ filters ↔ ∃ e ∈ l, e.1.clientId = id ∧ e.1.topicFilter = f := by
    intro f
    simp only [perm.mem_iff, List.mem_map, List.mem_filter, beq_iff_eq, and_assoc]
  have nodup : filters.Nodup := by
    rw [perm.nodup_iff]
    refine List.pairwise_map.2 ((distinct.filter _).imp_of_mem ?_)
    rintro ⟨⟨c, f⟩, r⟩ ⟨⟨c', f'⟩, r'⟩ own own' differ same
    cases eq_of_beq (List.mem_filter.1 own).2
    cases eq_of_beq (List.mem_filter.1 own').2
    cases same
    exact absurd differ (by simp)
  have known : ∀ f ∈ filters, Listing.contains l ⟨id, f⟩ = true := by
    intro f hf
    obtain ⟨⟨k, r⟩, hmem, rfl, rfl⟩ := (mem f).1 hf
    exact (Listing.contains_iff_mem_keys l k).2 (Listing.mem_keys_iff.2 ⟨r, hmem⟩)
  obtain ⟨answers, gone⟩ := observeListing_remove nodup known
  refine ⟨answers, gone.trans (List.filter_congr ?_)⟩
  intro e he
  by_cases owner : e.1.clientId = id
  · have named : e.1.topicFilter ∈ filters := (mem _).2 ⟨e, he, owner, rfl⟩
    simp [named]
  · simp [beq_eq_false_iff_ne.2 owner]

end Removing

/-- Removing the subscriptions of a client at once leaves a store that nothing tells apart from the
one that is left by removing them one by one, in whichever order. -/
theorem removeClient_alike (before : List Command) (id : String) :
    ∃ seen s rs, observe {} before = .ok (seen, s) ∧ s.Lists rs ∧
      ∃ bulk, s.removeClient id = .ok bulk ∧
        bulk.answer = rs.countP (fun r => r.clientId == id) ∧
        bulk.state.Lists (rs.filter fun r => !(r.clientId == id)) ∧
        ∀ filters : List String,
          filters.Perm ((rs.filter fun r => r.clientId == id).map (·.topicFilter)) →
          ∃ removed single, s.observe (filters.map (.remove id)) = .ok (removed, single) ∧
            removed.map (·.answer) = filters.map (fun _ => .flag true) ∧
            single.Lists (rs.filter fun r => !(r.clientId == id)) ∧ Alike bulk.state single := by
  obtain ⟨s, run, represents⟩ := observe_eq_ok (s := {}) Registry.Represents.empty before
  have keyed : Keyed (observeListing [] before).2 := Keyed.observeListing (by simp [Keyed]) before
  generalize (observeListing [] before).2 = l at represents keyed
  obtain ⟨rs, rfl⟩ : ∃ rs : List SubscriptionRecord,
      l = rs.map fun r => (⟨r.clientId, r.topicFilter⟩, r) := ⟨_, keyed.eq_map⟩
  obtain ⟨records, done, after⟩ := removeClient_eq_ok represents id
  refine ⟨_, s, rs, run, lists_of_represents represents, _, done, ?_, ?_, ?_⟩
  · exact List.countP_map
  · apply lists_of_represents
    rwa [List.filter_map] at after
  · intro filters perm
    have owned : ((rs.map fun r => (SubscriptionKey.mk r.clientId r.topicFilter, r)).filter
        fun e => e.1.clientId == id).map (fun e => e.1.topicFilter) =
        (rs.filter fun r => r.clientId == id).map (·.topicFilter) := by
      rw [List.filter_map, List.map_map]
      rfl
    rw [← owned] at perm
    obtain ⟨answers, gone⟩ := observeListing_remove_perm represents.distinct perm
    obtain ⟨single, removed, left⟩ := observe_eq_ok represents (filters.map (.remove id))
    rw [gone] at left
    refine ⟨_, single, removed, answers, ?_, alike_of_represents after left⟩
    apply lists_of_represents
    rwa [List.filter_map] at left

/-- Two subscriptions of one client around one of another, removed last first. -/
theorem removeClient_alike_reversed :
    let before : List Command := [.add "a" (.plain "x" {}), .add "c" (.plain "x" {}),
      .add "b" (.plain "x" {}), .add "a" (.plain "y" {}), .remove "c" "x"]
    ∃ seen s bulk, observe {} before = .ok (seen, s) ∧ s.removeClient "a" = .ok bulk ∧
      bulk.answer = 2 ∧ ["y", "x"].Perm ["x", "y"] ∧
      ∃ removed single, s.observe [.remove "a" "y", .remove "a" "x"] = .ok (removed, single) ∧
        removed.map (·.answer) = [.flag true, .flag true] ∧ Alike bulk.state single := by
  intro before
  obtain ⟨seen, s, rs, run, lists, bulk, done, answer, -, agrees⟩ := removeClient_alike before "a"
  obtain ⟨s', run', represents⟩ := observe_eq_ok (s := {}) Registry.Represents.empty before
  cases run.symm.trans run'
  have listed : rs = [⟨"x", 0, {}, "a"⟩, ⟨"x", 0, {}, "b"⟩, ⟨"y", 0, {}, "a"⟩] := by
    have same := Except.ok.inj (lists.toList.symm.trans represents.toList)
    have values := congrArg (List.map (·.2)) same
    rw [List.map_map] at values
    exact (List.map_id rs).symm.trans (values.trans (by decide))
  subst listed
  have perm : ["y", "x"].Perm ["x", "y"] := .swap ..
  obtain ⟨removed, single, one, answers, -, alike⟩ := agrees ["y", "x"] perm
  exact ⟨_, s, bulk, run, done, answer, perm, removed, single, one, answers, alike⟩

end SubscriptionStore

end BrokerAdmin
