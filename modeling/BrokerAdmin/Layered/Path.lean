import BrokerAdmin.Decimal.Numeral

set_option autoImplicit false

/-!
Paths to the places of a configuration. A path is written as a name, behind which further names
follow a dot and positions stand in brackets, as in `log.level` or `admin[0]`. A text that is no
path is taken for one name.
-/

namespace BrokerAdmin

/-- One step of a path: to what is under a name, or to an item of a sequence. A negative position
counts back from the end. -/
inductive Step where
  | name (s : String)
  | item (position : Int)
  deriving DecidableEq, Repr

abbrev Path := List Step

namespace Path

def isNameChar (c : Char) : Bool := c.isAlphanum || c = '_' || c = '-' || c = ' '

def isPadding (c : Char) : Bool := c = ' ' || c = '\t'

/-- A position as it stands between brackets, with padding around it. It has no plus sign. -/
def position? (cs : List Char) : Option Int :=
  match cs.dropWhile isPadding with
  | '+' :: _ => none
  | cs => Decimal.signedWord? (cs.reverse.dropWhile isPadding).reverse

def positions? (cs : List Char) : Option (List Int) :=
  let pieces := cs.splitOn ']'
  if pieces.getLast? = some [] then
    pieces.dropLast.mapM fun
      | '[' :: position => position? position
      | _ => none
  else none

def part? (cs : List Char) : Option Path := do
  let name := cs.takeWhile isNameChar
  if name.isEmpty then none
  else
    let positions ← positions? (cs.dropWhile isNameChar)
    return .name (String.ofList name) :: positions.map .item

def ofText (text : String) : Path :=
  match (text.toList.splitOn '.').mapM part? with
  | some parts => parts.flatten
  | none => [.name text]

end Path

end BrokerAdmin
