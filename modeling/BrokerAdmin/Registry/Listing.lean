import BrokerAdmin.Registry.Sweep

set_option autoImplicit false

/-!
Listings: keys with values as a plain list, with the operations of a registry. They say what a
registry means, without slots and links. In a listing no key stands twice.
-/

namespace BrokerAdmin.Listing

variable {K V σ : Type}

def keys (l : List (K × V)) : List K := l.map (·.1)

@[simp] theorem keys_nil : keys ([] : List (K × V)) = [] := rfl

@[simp] theorem keys_cons (e : K × V) (l : List (K × V)) : keys (e :: l) = e.1 :: keys l := rfl

@[simp] theorem keys_append (l m : List (K × V)) : keys (l ++ m) = keys l ++ keys m := by
  simp [keys]

/-- The entries at positions `start`, `start + 1`, …, at most `size` of them. -/
def window (l : List (K × V)) (start size : Nat) : List (K × V) := (l.drop start).take size

/-- What a sweep leaves: the entries, the judge's state, how many were removed, and whether the
judge aborted. -/
def sweep (judge : σ → K → V → σ × Registry.Verdict V) :
    List (K × V) → σ → List (K × V) × σ × Nat × Bool
  | [], s => ([], s, 0, false)
  | (k, v) :: rest, s =>
    match judge s k v with
    | (s, .abort v) => ((k, v) :: rest, s, 0, true)
    | (s, .keep v) =>
      let (kept, s, removed, aborted) := sweep judge rest s
      ((k, v) :: kept, s, removed, aborted)
    | (s, .drop) =>
      let (kept, s, removed, aborted) := sweep judge rest s
      (kept, s, removed + 1, aborted)

theorem keys_sweep_sublist (judge : σ → K → V → σ × Registry.Verdict V) (l : List (K × V))
    (s : σ) : (keys (sweep judge l s).1).Sublist (keys l) := by
  induction l generalizing s with
  | nil => exact .slnil
  | cons e l ih =>
    obtain ⟨k, v⟩ := e
    simp only [sweep]
    split
    · exact List.Sublist.refl _
    · exact (ih _).cons_cons k
    · exact (ih _).cons k

variable [BEq K]

def get? (l : List (K × V)) (k : K) : Option V := l.lookup k

def contains (l : List (K × V)) (k : K) : Bool := (get? l k).isSome

def modify (l : List (K × V)) (k : K) (f : V → V) : List (K × V) :=
  l.map fun e => if e.1 == k then (e.1, f e.2) else e

/-- Sets the value of a key where it stands, or at the end if it is new. -/
def set (l : List (K × V)) (k : K) (v : V) : List (K × V) :=
  if contains l k then modify l k fun _ => v else l ++ [(k, v)]

def erase (l : List (K × V)) (k : K) : List (K × V) := l.filter fun e => !(e.1 == k)

@[simp] theorem keys_modify (l : List (K × V)) (k : K) (f : V → V) :
    keys (modify l k f) = keys l := by
  simp only [keys, modify, List.map_map]
  refine List.map_congr_left fun e _ => ?_
  simp only [Function.comp]
  split <;> rfl

theorem contains_iff_mem_keys [LawfulBEq K] (l : List (K × V)) (k : K) :
    contains l k = true ↔ k ∈ keys l := by
  induction l with
  | nil => simp [contains, get?]
  | cons e l ih =>
    obtain ⟨x, v⟩ := e
    unfold contains get? at ih ⊢
    rw [List.lookup_cons]
    by_cases h : k = x
    · simp [h]
    · simpa [beq_eq_false_iff_ne.2 h, h] using ih

theorem keys_erase (l : List (K × V)) (k : K) :
    keys (erase l k) = (keys l).filter fun x => !(x == k) := by
  simp [keys, erase, List.filter_map, Function.comp_def]

end BrokerAdmin.Listing
