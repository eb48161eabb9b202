set_option autoImplicit false

/-!
The text of a listing of keys and values, already in written form: within one line, or as a block
with one indented line per entry.
-/

namespace BrokerAdmin.Registry

/-- Entries between braces on one line, separated by commas. -/
def inlineText (entries : List (String × String)) : String :=
  "\x7b" ++ ", ".intercalate (entries.map fun (k, v) => k ++ ": " ++ v) ++ "\x7d"

/-- Entries between braces, each on a line of its own that ends in a comma. -/
def blockText (entries : List (String × String)) : String :=
  if entries.isEmpty then "\x7b\x7d"
  else
    "\x7b\n" ++ String.join (entries.map fun (k, v) => "    " ++ k ++ ": " ++ v ++ ",\n") ++ "\x7d"

end BrokerAdmin.Registry
