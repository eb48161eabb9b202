import BrokerAdmin.Decimal.Numeral
import BrokerAdmin.Toml.Space

set_option autoImplicit false

/-!
Strings of a TOML document. Basic strings know escapes, literal ones do not; each comes in a form
for one line and in a form for several. A string of several lines may hold one or two quotes in a
row, also directly before the three that end it.
-/

namespace BrokerAdmin.Toml

def codePoint? (digits : List Char) : Option Char := do
  let n ← Decimal.natural? 16 digits
  if h : n.isValidChar then some (Char.ofNatAux n h) else none

def escaped? : Char → Option Char
  | 'b' => some '\x08'
  | 't' => some '\t'
  | 'n' => some '\n'
  | 'f' => some '\x0c'
  | 'r' => some '\r'
  | '"' => some '"'
  | '\\' => some '\\'
  | _ => none

def escape? : Reader Char
  | 'u' :: cs =>
    if cs.length < 4 then none else (codePoint? (cs.take 4)).map fun c => (c, cs.drop 4)
  | 'U' :: cs =>
    if cs.length < 8 then none else (codePoint? (cs.take 8)).map fun c => (c, cs.drop 8)
  | c :: cs => (escaped? c).map fun e => (e, cs)
  | [] => none

theorem escape?_length {cs rest : List Char} {c : Char} (h : escape? cs = some (c, rest)) :
    rest.length < cs.length := by
  unfold escape? at h
  split at h
  · split at h
    · cases h
    · simp only [Option.map_eq_some_iff, Prod.mk.injEq] at h
      obtain ⟨_, _, _, rfl⟩ := h
      simp only [List.length_drop, List.length_cons]
      omega
  · split at h
    · cases h
    · simp only [Option.map_eq_some_iff, Prod.mk.injEq] at h
      obtain ⟨_, _, _, rfl⟩ := h
      simp only [List.length_drop, List.length_cons]
      omega
  · simp only [Option.map_eq_some_iff, Prod.mk.injEq] at h
    obtain ⟨_, _, _, rfl⟩ := h
    simp only [List.length_cons]
    omega
  · cases h

theorem lineEnd?_length {cs rest : List Char} (h : lineEnd? cs = some rest) :
    rest.length < cs.length := by
  unfold lineEnd? at h
  split at h
  · cases h
    simp only [List.length_cons]
    omega
  · cases h
    simp only [List.length_cons]
    omega
  · cases h

def skipWhite : List Char → List Char
  | '\n' :: cs => skipWhite cs
  | '\r' :: '\n' :: cs => skipWhite cs
  | c :: cs => if isBlank c then skipWhite cs else c :: cs
  | [] => []

theorem skipWhite_length (cs : List Char) : (skipWhite cs).length ≤ cs.length := by
  fun_induction skipWhite cs with
  | case1 cs ih => exact Nat.le_succ_of_le ih
  | case2 cs ih => exact Nat.le_succ_of_le (Nat.le_succ_of_le ih)
  | case3 c cs _ _ h ih => exact Nat.le_succ_of_le ih
  | case4 => exact Nat.le_refl _
  | case5 => exact Nat.le_refl _

theorem skipBlanks_length (cs : List Char) : (skipBlanks cs).length ≤ cs.length :=
  (List.dropWhile_suffix _).length_le

/-- The text behind a backslash that ends its line: the next text that is not white space. -/
def continuation? (cs : List Char) : Option (List Char) :=
  (lineEnd? (skipBlanks cs)).map skipWhite

theorem continuation?_length {cs rest : List Char} (h : continuation? cs = some rest) :
    rest.length < cs.length := by
  simp only [continuation?, Option.map_eq_some_iff] at h
  obtain ⟨r, hr, rfl⟩ := h
  have h1 := skipWhite_length r
  have h2 := lineEnd?_length hr
  have h3 := skipBlanks_length cs
  omega

def basicLine? (cs : List Char) : Option (List Char × List Char) :=
  match cs with
  | [] => none
  | '"' :: rest => some ([], rest)
  | '\\' :: rest =>
    match h : escape? rest with
    | none => none
    | some (e, rest') =>
      have := escape?_length h
      (basicLine? rest').map fun (s, r) => (e :: s, r)
  | c :: rest =>
    if isTextChar c then (basicLine? rest).map fun (s, r) => (c :: s, r) else none
termination_by cs.length
decreasing_by all_goals simp_all; try omega

def basicBlock? (cs : List Char) : Option (List Char × List Char) :=
  match cs with
  | [] => none
  | '"' :: '"' :: '"' :: '"' :: '"' :: rest => some (['"', '"'], rest)
  | '"' :: '"' :: '"' :: '"' :: rest => some (['"'], rest)
  | '"' :: '"' :: '"' :: rest => some ([], rest)
  | '\n' :: rest => (basicBlock? rest).map fun (s, r) => ('\n' :: s, r)
  | '\r' :: '\n' :: rest => (basicBlock? rest).map fun (s, r) => ('\n' :: s, r)
  | '\\' :: rest =>
    match h : escape? rest with
    | some (e, rest') =>
      have := escape?_length h
      (basicBlock? rest').map fun (s, r) => (e :: s, r)
    | none =>
      match h : continuation? rest with
      | some rest' =>
        have := continuation?_length h
        basicBlock? rest'
      | none => none
  | c :: rest =>
    if isTextChar c then (basicBlock? rest).map fun (s, r) => (c :: s, r) else none
termination_by cs.length
decreasing_by all_goals simp_all; try omega

def literalLine? : List Char → Option (List Char × List Char)
  | [] => none
  | '\'' :: rest => some ([], rest)
  | c :: rest =>
    if isTextChar c then (literalLine? rest).map fun (s, r) => (c :: s, r) else none

def literalBlock? : List Char → Option (List Char × List Char)
  | [] => none
  | '\'' :: '\'' :: '\'' :: '\'' :: '\'' :: rest => some (['\'', '\''], rest)
  | '\'' :: '\'' :: '\'' :: '\'' :: rest => some (['\''], rest)
  | '\'' :: '\'' :: '\'' :: rest => some ([], rest)
  | '\n' :: rest => (literalBlock? rest).map fun (s, r) => ('\n' :: s, r)
  | '\r' :: '\n' :: rest => (literalBlock? rest).map fun (s, r) => ('\n' :: s, r)
  | c :: rest =>
    if isTextChar c then (literalBlock? rest).map fun (s, r) => (c :: s, r) else none

/-- A line end directly behind the opening quotes does not belong to the string. -/
def trimFirstLine (cs : List Char) : List Char := (lineEnd? cs).getD cs

def string? : Reader String := fun cs =>
  let body := match cs with
    | '"' :: '"' :: '"' :: rest => basicBlock? (trimFirstLine rest)
    | '"' :: rest => basicLine? rest
    | '\'' :: '\'' :: '\'' :: rest => literalBlock? (trimFirstLine rest)
    | '\'' :: rest => literalLine? rest
    | _ => none
  body.map fun (s, rest) => (String.ofList s, rest)

end BrokerAdmin.Toml
