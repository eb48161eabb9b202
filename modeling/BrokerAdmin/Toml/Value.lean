import BrokerAdmin.Decimal.Binary64

set_option autoImplicit false

/-!
Values of a TOML document. Dates and times are kept as their canonical text. Equality of values can
be decided.
-/

namespace BrokerAdmin.Toml

inductive Value where
  | string (s : String)
  | integer (n : Int)
  | float (x : Decimal.Binary64)
  | boolean (b : Bool)
  | moment (text : String)
  | array (items : List Value)
  | table (entries : List (String × Value))

instance : Inhabited Value := ⟨.table []⟩

namespace Value

mutual

def same : Value → Value → Bool
  | .string s, .string s' => s = s'
  | .integer n, .integer n' => n = n'
  | .float x, .float x' => x = x'
  | .boolean b, .boolean b' => b = b'
  | .moment t, .moment t' => t = t'
  | .array items, .array items' => sameItems items items'
  | .table es, .table es' => sameEntries es es'
  | _, _ => false

def sameItems : List Value → List Value → Bool
  | [], [] => true
  | v :: rest, v' :: rest' => v.same v' && sameItems rest rest'
  | _, _ => false

def sameEntries : List (String × Value) → List (String × Value) → Bool
  | [], [] => true
  | (name, v) :: rest, (name', v') :: rest' =>
    name = name' && v.same v' && sameEntries rest rest'
  | _, _ => false

end

mutual

theorem same_iff : (v w : Value) → (v.same w = true ↔ v = w)
  | .string s, w => by cases w <;> simp [same]
  | .integer n, w => by cases w <;> simp [same]
  | .float x, w => by cases w <;> simp [same]
  | .boolean b, w => by cases w <;> simp [same]
  | .moment t, w => by cases w <;> simp [same]
  | .array items, w => by cases w <;> simp [same, sameItems_iff items]
  | .table es, w => by cases w <;> simp [same, sameEntries_iff es]

theorem sameItems_iff : (vs ws : List Value) → (sameItems vs ws = true ↔ vs = ws)
  | [], ws => by cases ws <;> simp [sameItems]
  | v :: vs, ws => by cases ws <;> simp [sameItems, same_iff v, sameItems_iff vs]

theorem sameEntries_iff : (es fs : List (String × Value)) → (sameEntries es fs = true ↔ es = fs)
  | [], fs => by cases fs <;> simp [sameEntries]
  | (name, v) :: es, fs => by
    cases fs <;> simp [sameEntries, same_iff v, sameEntries_iff es, Prod.ext_iff]

end

instance : DecidableEq Value := fun v w => decidable_of_iff (v.same w = true) (same_iff v w)

end Value

def lookup? (entries : List (String × Value)) (name : String) : Option Value :=
  (entries.find? fun e => e.1 == name).map (·.2)

end BrokerAdmin.Toml
