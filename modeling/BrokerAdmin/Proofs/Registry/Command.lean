import BrokerAdmin.Proofs.Registry.Sweeps
import BrokerAdmin.Proofs.Registry.Windows

set_option autoImplicit false

/-!
Commands to a registry as data, performed on a registry and on a listing. The main statement is
that from the empty registry on, every run of commands meets no fault, gives the answers that the
plain listing gives, and ends in a registry that reads as that listing, with no key twice.
-/

namespace BrokerAdmin.Registry

/-- Whoever visits or judges entries carries a state of type `σ` from one to the next. -/
inductive Command (K V σ : Type) where
  | set (k : K) (v : V)
  | erase (k : K)
  | get (k : K)
  | modify (k : K) (f : V → V)
  | contains (k : K)
  | size
  | isEmpty
  | toList
  | window (start size : Nat)
  | iterate (start size : Nat) (visit : σ → K → V → σ) (s : σ)
  | sweep (judge : σ → K → V → σ × Verdict V) (s : σ)
  | filter (p : K → V → Bool)

inductive Answer (K V σ : Type) where
  | value (v : Option V)
  | flag (b : Bool)
  | count (n : Nat)
  | entries (l : List (K × V))
  | visited (s : σ)
  | swept (s : σ) (removed : Nat) (aborted : Bool)
  deriving DecidableEq, Repr

variable {K V σ : Type} [BEq K]

namespace Command

def onListing (l : List (K × V)) : Command K V σ → Answer K V σ × List (K × V)
  | .set k v => (.value (Listing.get? l k), Listing.set l k v)
  | .erase k => (.value (Listing.get? l k), Listing.erase l k)
  | .get k => (.value (Listing.get? l k), l)
  | .modify k f => (.value ((Listing.get? l k).map f), Listing.modify l k f)
  | .contains k => (.flag (Listing.contains l k), l)
  | .size => (.count l.length, l)
  | .isEmpty => (.flag l.isEmpty, l)
  | .toList => (.entries l, l)
  | .window start count => (.entries (Listing.window l start count), l)
  | .iterate start count visit s =>
    (.visited ((Listing.window l start count).foldl (fun s kv => visit s kv.1 kv.2) s), l)
  | .sweep judge s =>
    let (kept, s, removed, aborted) := Listing.sweep judge l s
    (.swept s removed aborted, kept)
  | .filter p => (.count (l.countP fun e => !p e.1 e.2), l.filter fun e => p e.1 e.2)

/-- The answers of a listing to commands, and the listing they leave. -/
def allOnListing (l : List (K × V)) :
    List (Command K V σ) → List (Answer K V σ) × List (K × V)
  | [] => ([], l)
  | c :: cs =>
    let (answer, l) := c.onListing l
    let (answers, l) := allOnListing l cs
    (answer :: answers, l)

variable [Hashable K]

def perform (r : Registry K V) :
    Command K V σ → Except Fault (Answer K V σ × Registry K V)
  | .set k v => do
    let (old, r) ← r.set k v
    return (.value old, r)
  | .erase k => do
    let (old, r) ← r.erase k
    return (.value old, r)
  | .get k => return (.value (← r.get? k), r)
  | .modify k f => do
    let (new, r) ← r.modify k f
    return (.value new, r)
  | .contains k => return (.flag (r.contains k), r)
  | .size => return (.count r.size, r)
  | .isEmpty => return (.flag r.isEmpty, r)
  | .toList => return (.entries (← r.toList), r)
  | .window start count => return (.entries (← r.window start count), r)
  | .iterate start count visit s => return (.visited (← r.iterate start count visit s), r)
  | .sweep judge s => do
    let o ← r.sweep judge s
    return (.swept o.state o.removed o.aborted, o.registry)
  | .filter p => do
    let (removed, r) ← r.filter p
    return (.count removed, r)

def performAll (r : Registry K V) :
    List (Command K V σ) → Except Fault (List (Answer K V σ) × Registry K V)
  | [] => .ok ([], r)
  | c :: cs => do
    let (answer, r) ← c.perform r
    let (answers, r) ← performAll r cs
    return (answer :: answers, r)

variable [EquivBEq K] [LawfulHashable K]

theorem perform_represents {r : Registry K V} {l : List (K × V)} (h : r.Represents l)
    (c : Command K V σ) :
    ∃ s, c.perform r = .ok ((c.onListing l).1, s) ∧ s.Represents (c.onListing l).2 := by
  cases c with
  | set k v =>
    obtain ⟨s, done, after⟩ := h.set k v
    exact ⟨s, by simp only [perform, done]; rfl, after⟩
  | erase k =>
    obtain ⟨s, done, after⟩ := h.erase k
    exact ⟨s, by simp only [perform, done]; rfl, after⟩
  | get k => exact ⟨r, by simp only [perform, h.get?]; rfl, h⟩
  | modify k f =>
    obtain ⟨s, done, after⟩ := h.modify k f
    exact ⟨s, by simp only [perform, done]; rfl, after⟩
  | contains k => exact ⟨r, by simp only [perform, h.contains]; rfl, h⟩
  | size => exact ⟨r, by simp only [perform, h.size]; rfl, h⟩
  | isEmpty => exact ⟨r, by simp only [perform, h.isEmpty]; rfl, h⟩
  | toList => exact ⟨r, by simp only [perform, h.toList]; rfl, h⟩
  | window start count => exact ⟨r, by simp only [perform, h.window]; rfl, h⟩
  | iterate start count visit s => exact ⟨r, by simp only [perform, h.iterate]; rfl, h⟩
  | sweep judge state =>
    obtain ⟨s, done, after⟩ := h.sweep judge state
    exact ⟨s, by simp only [perform, done]; rfl, after⟩
  | filter p =>
    obtain ⟨s, done, after⟩ := h.filter p
    exact ⟨s, by simp only [perform, done]; rfl, after⟩

theorem performAll_represents {r : Registry K V} {l : List (K × V)} (h : r.Represents l)
    (cs : List (Command K V σ)) :
    ∃ s, performAll r cs = .ok ((allOnListing l cs).1, s) ∧
      s.Represents (allOnListing l cs).2 := by
  induction cs generalizing r l with
  | nil => exact ⟨r, rfl, h⟩
  | cons c cs ih =>
    obtain ⟨r₁, done, after⟩ := perform_represents h c
    obtain ⟨s, rest, final⟩ := ih after
    refine ⟨s, ?_, final⟩
    simp only [performAll, done, bind, Except.bind, rest]
    rfl

/-- From the empty registry on, commands do what they do to a listing that begins empty. -/
theorem performAll_empty (cs : List (Command K V σ)) :
    ∃ r : Registry K V, performAll ∅ cs = .ok ((allOnListing [] cs).1, r) ∧
      r.toList = .ok (allOnListing [] cs).2 ∧ Listing.Distinct (allOnListing [] cs).2 := by
  obtain ⟨r, done, represents⟩ := performAll_represents Represents.empty cs
  exact ⟨r, done, represents.toList, represents.distinct⟩

theorem performAll_empty_reuse :
    ∃ r : Registry String Nat, performAll ∅ [
        .set "a" 1, .set "b" 2, .set "c" 3, .erase "b", .set "d" 4, .modify "a" (· + 10),
        .sweep (fun seen k v => (seen ++ [k], if v = 3 then .drop else .keep (v + 1))) [],
        .set "b" 6, .iterate 1 5 (fun seen k _ => seen ++ [k]) []] = .ok ([
        .value none, .value none, .value none, .value (some 2), .value none, .value (some 11),
        .swept ["a", "c", "d"] 1 false, .value none, .visited ["d", "b"]], r) ∧
      r.toList = .ok [("a", 12), ("d", 5), ("b", 6)] ∧
      Listing.Distinct [("a", 12), ("d", 5), ("b", 6)] :=
  performAll_empty _

end Command

end BrokerAdmin.Registry
