import BrokerAdmin.Config.Environment

set_option autoImplicit false

/-!
Templates: texts with placeholders `${NAME}` and `${NAME:-DEFAULT}`. A name is not empty and
holds neither a closing brace nor a colon, a default holds no closing brace. Placeholders are taken
from left to right; everything else stands for itself, and what is filled in is not looked at
again.
-/

namespace BrokerAdmin.Template

/-- A name to look up, with a default that is empty unless one is given. -/
structure Placeholder where
  name : List Char
  default : List Char
  deriving DecidableEq, Repr

def isNameChar (c : Char) : Bool := c != '\x7d' && c != ':'

def isDefaultChar (c : Char) : Bool := c != '\x7d'

/-- Reads what follows a name: the closing brace, or a default before it. -/
def ending? : List Char → Option (List Char × List Char)
  | '\x7d' :: rest => some ([], rest)
  | ':' :: '-' :: cs =>
    match cs.dropWhile isDefaultChar with
    | [] => none
    | _ :: rest => some (cs.takeWhile isDefaultChar, rest)
  | _ => none

def placeholder? : List Char → Option (Placeholder × List Char)
  | '$' :: '\x7b' :: cs =>
    if (cs.takeWhile isNameChar).isEmpty then none
    else (ending? (cs.dropWhile isNameChar)).map fun (default, rest) =>
      (⟨cs.takeWhile isNameChar, default⟩, rest)
  | _ => none

theorem ending?_length {cs d rest : List Char} (h : ending? cs = some (d, rest)) :
    rest.length < cs.length := by
  unfold ending? at h
  split at h
  · simp_all
  · rename_i cs
    have hle : (cs.dropWhile isDefaultChar).length ≤ cs.length :=
      (List.dropWhile_suffix _).length_le
    split at h
    · simp at h
    · simp_all
      omega
  · simp at h

theorem placeholder?_length {cs rest : List Char} {p : Placeholder}
    (h : placeholder? cs = some (p, rest)) : rest.length < cs.length := by
  unfold placeholder? at h
  split at h
  · rename_i cs
    have hle : (cs.dropWhile isNameChar).length ≤ cs.length :=
      (List.dropWhile_suffix _).length_le
    split at h
    · simp at h
    · simp only [Option.map_eq_some_iff, Prod.mk.injEq] at h
      obtain ⟨⟨d, r⟩, he, -, rfl⟩ := h
      have := ending?_length he
      simp
      omega
  · simp at h

inductive Segment where
  | char (c : Char)
  | placeholder (p : Placeholder)
  deriving DecidableEq, Repr

def segments (cs : List Char) : List Segment :=
  match h : placeholder? cs with
  | some (p, rest) =>
    have := placeholder?_length h
    .placeholder p :: segments rest
  | none =>
    match cs with
    | [] => []
    | c :: rest => .char c :: segments rest
termination_by cs.length

def Placeholder.fill (env : Environment) (p : Placeholder) : List Char :=
  match env.text? (String.ofList p.name) with
  | some value => value.toList
  | none => p.default

def Segment.fill (env : Environment) : Segment → List Char
  | .char c => [c]
  | .placeholder p => p.fill env

def fill (env : Environment) (text : String) : String :=
  String.ofList ((segments text.toList).flatMap (·.fill env))

end BrokerAdmin.Template
