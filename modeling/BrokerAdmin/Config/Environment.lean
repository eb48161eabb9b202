set_option autoImplicit false

/-!
The environment: variables with their values. A value may be no Unicode text; such a variable
exists, but has no text to give. The environment is kept as lines `NAME=VALUE`, so a name that is
asked for may hold an equals sign and reach into a value.
-/

namespace BrokerAdmin

structure Variable where
  name : String
  value : Option String
  deriving DecidableEq, Repr

abbrev Environment := List Variable

/-- What is left of the variable's line behind `name` and an equals sign. -/
def Variable.remainder? (v : Variable) (name : String) : Option String := do
  let line := v.name.toList ++ '=' :: (← v.value).toList
  let start := name.toList ++ ['=']
  if start.isPrefixOf line then some (String.ofList (line.drop start.length)) else none

namespace Environment

/-- The text that a name stands for: that of the variable of this name, or else what is left of
the first line that begins with it. -/
def text? (env : Environment) (name : String) : Option String :=
  match env.find? fun v => v.name == name with
  | some v => v.value
  | none => env.findSome? fun v => v.remainder? name

def ofBytes (name : String) (bytes : ByteArray) : Variable := ⟨name, String.fromUTF8? bytes⟩

end Environment

end BrokerAdmin
