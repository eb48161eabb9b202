import Std.Data.HashMap

set_option autoImplicit false

/-!
A registry keeps at most one value per key, in the order in which the keys were first set. Its
entries live in numbered slots. An index leads from a key to its slot, each occupied slot names
its neighbours in the order, and the vacant slots form a chain of their own from which new entries
are served first.

Nothing in the types forces links and slots to agree, so every operation that follows a link may
meet a `Fault`. Registries built from the empty one by these operations never do.
-/

namespace BrokerAdmin

/-- How the links of a registry can fail to fit its slots. -/
inductive Fault where
  /-- A link leads past the last slot. -/
  | outOfRange (slot : Nat)
  /-- The index or the order leads to a vacant slot. -/
  | vacantSlot (slot : Nat)
  /-- The chain of vacant slots leads to an occupied one. -/
  | occupiedSlot (slot : Nat)
  /-- More entries were met than the registry counts. -/
  | countExhausted
  /-- The order does not end. -/
  | endlessOrder
  deriving DecidableEq, Repr

namespace Registry

structure Entry (K V : Type) where
  key : K
  value : V
  before : Option Nat
  after : Option Nat
  deriving DecidableEq, Repr

inductive Slot (K V : Type) where
  | occupied (entry : Entry K V)
  | vacant (nextFree : Option Nat)
  deriving DecidableEq, Repr

end Registry

/-- Keys with values in insertion order. `first` and `last` are the ends of the order, `free` is
the vacant slot to serve next, and `size` counts the entries. -/
structure Registry (K V : Type) [BEq K] [Hashable K] where
  slots : Array (Registry.Slot K V) := #[]
  index : Std.HashMap K Nat := ∅
  first : Option Nat := none
  last : Option Nat := none
  free : Option Nat := none
  size : Nat := 0

namespace Registry

variable {K V : Type} [BEq K] [Hashable K]

instance : EmptyCollection (Registry K V) := ⟨{}⟩

instance : Inhabited (Registry K V) := ⟨∅⟩

def isEmpty (r : Registry K V) : Bool := r.size == 0

def contains (r : Registry K V) (k : K) : Bool := r.index.contains k

def entryIn (slots : Array (Slot K V)) (i : Nat) : Except Fault (Entry K V) :=
  match slots[i]? with
  | some (.occupied e) => .ok e
  | some (.vacant _) => .error (.vacantSlot i)
  | none => .error (.outOfRange i)

def modifyEntry (r : Registry K V) (i : Nat) (f : Entry K V → Entry K V) :
    Except Fault (Registry K V) := do
  let e ← entryIn r.slots i
  return { r with slots := r.slots.setIfInBounds i (.occupied (f e)) }

def get? (r : Registry K V) (k : K) : Except Fault (Option V) :=
  match r.index[k]? with
  | none => .ok none
  | some i => do return some (← entryIn r.slots i).value

/-- Changes the value of a key in place and gives the new one. -/
def modify (r : Registry K V) (k : K) (f : V → V) :
    Except Fault (Option V × Registry K V) :=
  match r.index[k]? with
  | none => .ok (none, r)
  | some i => do
    let v := f (← entryIn r.slots i).value
    return (some v, ← r.modifyEntry i fun e => { e with value := v })

/-- Puts an entry into a vacant slot, or into a new one if none is vacant. -/
def allocate (r : Registry K V) (e : Entry K V) : Except Fault (Nat × Registry K V) :=
  match r.free with
  | none => .ok (r.slots.size, { r with slots := r.slots.push (.occupied e) })
  | some i =>
    match r.slots[i]? with
    | some (.vacant next) =>
      .ok (i, { r with slots := r.slots.setIfInBounds i (.occupied e), free := next })
    | some (.occupied _) => .error (.occupiedSlot i)
    | none => .error (.outOfRange i)

/-- Makes the order lead from the entry in slot `i`, or from its beginning, to `target`. -/
def linkForward (r : Registry K V) (i target : Option Nat) : Except Fault (Registry K V) :=
  match i with
  | some i => r.modifyEntry i fun e => { e with after := target }
  | none => .ok { r with first := target }

/-- Makes the order lead back from the entry in slot `i`, or from its end, to `target`. -/
def linkBackward (r : Registry K V) (i target : Option Nat) : Except Fault (Registry K V) :=
  match i with
  | some i => r.modifyEntry i fun e => { e with before := target }
  | none => .ok { r with last := target }

/-- Sets the value of a key. A known key keeps its position and gives its old value; a new one
comes last. -/
def set (r : Registry K V) (k : K) (v : V) :
    Except Fault (Option V × Registry K V) :=
  match r.index[k]? with
  | some i => do
    let old := (← entryIn r.slots i).value
    return (some old, ← r.modifyEntry i fun e => { e with value := v })
  | none => do
    let (i, r) ← r.allocate ⟨k, v, r.last, none⟩
    let r ← r.linkForward r.last (some i)
    return (none, { r with last := some i, index := r.index.insert k i, size := r.size + 1 })

/-- Takes the entry in slot `i` out of the order and vacates the slot. The index still knows the
key. -/
def detach (r : Registry K V) (i : Nat) : Except Fault (Entry K V × Registry K V) := do
  let e ← entryIn r.slots i
  let r := { r with slots := r.slots.setIfInBounds i (.vacant r.free) }
  let r ← r.linkForward e.before e.after
  let r ← r.linkBackward e.after e.before
  match r.size with
  | 0 => .error .countExhausted
  | n + 1 => return (e, { r with free := some i, size := n })

def erase (r : Registry K V) (k : K) : Except Fault (Option V × Registry K V) :=
  match r.index[k]? with
  | none => .ok (none, r)
  | some i => do
    let (e, r) ← { r with index := r.index.erase k }.detach i
    return (some e.value, r)

/-- A position in the order, with the number of entries still to come. -/
structure Cursor (K V : Type) where
  slots : Array (Slot K V)
  position : Option Nat
  remaining : Nat

def cursor (r : Registry K V) : Cursor K V := ⟨r.slots, r.first, r.size⟩

namespace Cursor

/-- The entry at the cursor and the cursor behind it, or nothing at the end of the order. -/
def next (c : Cursor K V) : Except Fault (Option ((K × V) × Cursor K V)) :=
  match c.position with
  | none => .ok none
  | some i => do
    let e ← entryIn c.slots i
    match c.remaining with
    | 0 => .error .countExhausted
    | n + 1 => return some ((e.key, e.value), { c with position := e.after, remaining := n })

/-- At least and at most how many entries are still to come. -/
def sizeHint (c : Cursor K V) : Nat × Option Nat := (c.remaining, some c.remaining)

def drop : Nat → Cursor K V → Except Fault (Cursor K V)
  | 0, c => .ok c
  | n + 1, c => do
    match ← c.next with
    | none => return c
    | some (_, c) => drop n c

def take : Nat → Cursor K V → Except Fault (List (K × V) × Cursor K V)
  | 0, c => .ok ([], c)
  | n + 1, c => do
    match ← c.next with
    | none => return ([], c)
    | some (kv, c) =>
      let (rest, c) ← take n c
      return (kv :: rest, c)

end Cursor

/-- All entries in order. One step more than there are entries is taken, to meet the end. -/
def toList (r : Registry K V) : Except Fault (List (K × V)) := do
  return (← r.cursor.take (r.size + 1)).1

def window (r : Registry K V) (start size : Nat) : Except Fault (List (K × V)) := do
  return (← (← r.cursor.drop start).take size).1

/-- Visits a window in order, handing a state from one entry to the next. -/
def iterate {σ : Type} (r : Registry K V) (start size : Nat) (visit : σ → K → V → σ) (s : σ) :
    Except Fault σ := do
  return (← r.window start size).foldl (fun s kv => visit s kv.1 kv.2) s

end Registry

end BrokerAdmin
