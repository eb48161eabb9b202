import BrokerAdmin.Registry.Basic

set_option autoImplicit false

/-!
Sweeps. A sweep goes once through a registry in order and asks of each entry whether it stays. The
one who is asked has a state of its own, may change the value of an entry that stays, and may
abort the sweep, which leaves the entry it was asked about and all later ones in place.
-/

namespace BrokerAdmin.Registry

inductive Verdict (V : Type) where
  | keep (value : V)
  | drop
  | abort (value : V)
  deriving DecidableEq, Repr

/-- Where a sweep stands: the registry so far, the judge's state and the number of entries
removed. -/
structure Sweep (K V σ : Type) [BEq K] [Hashable K] where
  registry : Registry K V
  state : σ
  removed : Nat := 0
  aborted : Bool := false

variable {K V σ : Type} [BEq K] [Hashable K]

/-- Sweeps on from slot `i`, over at most as many entries as `fuel` says. The entry behind `i` is
looked up before `i` is vacated. -/
def sweepFrom (judge : σ → K → V → σ × Verdict V) :
    (fuel : Nat) → (i : Option Nat) → Sweep K V σ → Except Fault (Sweep K V σ)
  | _, none, s => .ok s
  | 0, some _, _ => .error .endlessOrder
  | fuel + 1, some i, s => do
    let e ← entryIn s.registry.slots i
    match judge s.state e.key e.value with
    | (state, .keep v) =>
      let registry ← s.registry.modifyEntry i fun e => { e with value := v }
      sweepFrom judge fuel e.after { s with registry, state }
    | (state, .drop) =>
      let (_, r) ← s.registry.detach i
      let registry := { r with index := r.index.erase e.key }
      sweepFrom judge fuel e.after { s with registry, state, removed := s.removed + 1 }
    | (state, .abort v) =>
      let registry ← s.registry.modifyEntry i fun e => { e with value := v }
      return { s with registry, state, aborted := true }

/-- Sweeps the whole registry. No order is longer than there are slots. -/
def sweep (r : Registry K V) (judge : σ → K → V → σ × Verdict V) (state : σ) :
    Except Fault (Sweep K V σ) :=
  sweepFrom judge r.slots.size r.first { registry := r, state }

/-- Keeps the entries that satisfy `p` and gives the number of those removed. -/
def filter (r : Registry K V) (p : K → V → Bool) : Except Fault (Nat × Registry K V) := do
  let s ← r.sweep (fun _ k v => ((), if p k v then .keep v else .drop)) ()
  return (s.removed, s.registry)

end BrokerAdmin.Registry
