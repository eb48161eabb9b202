set_option autoImplicit false

/-!
White space in the sense of the Unicode property of that name, and texts made of nothing else.
-/

namespace BrokerAdmin.Text

/-- The twenty-five characters with the property White_Space. -/
def isSpace (c : Char) : Bool :=
  let n := c.toNat
  decide (9 ≤ n ∧ n ≤ 13) || n == 0x20 || n == 0x85 || n == 0xa0 || n == 0x1680 ||
    decide (0x2000 ≤ n ∧ n ≤ 0x200a) || n == 0x2028 || n == 0x2029 || n == 0x202f ||
    n == 0x205f || n == 0x3000

/-- Nothing is left of the text once white space is trimmed from its ends. -/
def isBlank (s : String) : Bool := s.toList.all isSpace

end BrokerAdmin.Text
