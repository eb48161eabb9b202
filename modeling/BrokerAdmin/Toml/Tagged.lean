import BrokerAdmin.Toml.Moment
import BrokerAdmin.Toml.Value

set_option autoImplicit false

/-!
Tagged tables. A table that begins with the tag carries a date or time as a text. Read without
knowing its kind, it is that date or time, and the rest of the table does not count.
-/

namespace BrokerAdmin.Toml

def momentTag : String := "$__toml_private_datetime"

/-- What stands under the tag, if the entries begin with it. -/
def tagged? : List (String × Value) → Option Value
  | (name, v) :: _ => if name == momentTag then some v else none
  | [] => none

def wholeMoment? (s : String) : Option Value :=
  match moment? s.toList with
  | some (t, []) => some (.moment t)
  | _ => none

mutual

/-- The value with all tagged tables replaced by what they carry. There is none if a tag stands
over something else. -/
def Value.untag? : Value → Option Value
  | .array items => (untagItems? items).map .array
  | .table es =>
    match tagged? es with
    | some (.string s) => wholeMoment? s
    | some _ => none
    | none => (untagEntries? es).map .table
  | v => some v

def untagItems? : List Value → Option (List Value)
  | [] => some []
  | v :: rest => do
    let v ← v.untag?
    return v :: (← untagItems? rest)

def untagEntries? : List (String × Value) → Option (List (String × Value))
  | [] => some []
  | (name, v) :: rest => do
    let v ← v.untag?
    return (name, v) :: (← untagEntries? rest)

end

end BrokerAdmin.Toml
