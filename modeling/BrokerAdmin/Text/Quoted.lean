import BrokerAdmin.Text.Shown

set_option autoImplicit false

/-!
Quoted text, as error messages and listings show it: between double quotes, with a backslash before
a quote or a backslash, short names for the usual controls and code points for all else that does
not show.
-/

namespace BrokerAdmin.Text

/-- The code point in lower-case hexadecimal between braces, without leading zeros. -/
def codePoint (c : Char) : List Char :=
  ['\\', 'u', '\x7b'] ++ Nat.toDigits 16 c.toNat ++ ['\x7d']

def escape (c : Char) : List Char :=
  if c = '"' then ['\\', '"']
  else if c = '\\' then ['\\', '\\']
  else if c = '\n' then ['\\', 'n']
  else if c = '\r' then ['\\', 'r']
  else if c = '\t' then ['\\', 't']
  else if c = '\x00' then ['\\', '0']
  else if isShown c then [c]
  else codePoint c

def quote (s : String) : String :=
  String.ofList ('"' :: (s.toList.flatMap escape ++ ['"']))

end BrokerAdmin.Text
