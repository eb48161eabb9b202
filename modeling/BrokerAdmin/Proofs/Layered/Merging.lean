import BrokerAdmin.Layered.Tree
import BrokerAdmin.Proofs.Toml.Names

set_option autoImplicit false

/-!
Laying one layer of configuration over another. What is under a name afterwards is decided by that
name alone: its neighbours in a table neither hide it nor change it. A document goes the same way,
as long as the names at its top are names and not paths.
-/

namespace BrokerAdmin

namespace Path

theorem positions?_of_notMem {cs : List Char} (brackets : ']' ∉ cs) :
    positions? cs = if cs = [] then some [] else none := by
  unfold positions?
  rw [List.splitOn_eq_singleton brackets]
  simp only [List.getLast?_singleton, Option.some.injEq, List.dropLast_singleton, List.mapM_nil]
  rfl

theorem part?_of_notMem {cs : List Char} (brackets : ']' ∉ cs) :
    part? cs = none ∨ part? cs = some [.name (String.ofList cs)] := by
  have rest : ']' ∉ cs.dropWhile isNameChar :=
    fun mem => brackets ((List.dropWhile_sublist _).mem mem)
  by_cases whole : cs.dropWhile isNameChar = []
  · have name : cs.takeWhile isNameChar = cs := by
      conv_rhs => rw [← List.takeWhile_append_dropWhile (p := isNameChar) (l := cs), whole,
        List.append_nil]
    by_cases empty : cs.isEmpty
    · left
      simp only [part?, name, empty, if_true]
    · right
      simp only [part?, whole, name, empty]
      rfl
  · left
    simp only [part?, positions?_of_notMem rest, whole, if_false]
    split <;> rfl

/-- Without a dot and a closing bracket there is one name, whatever else the text is made of. -/
theorem ofText_of_notMem {text : String} (dots : '.' ∉ text.toList)
    (brackets : ']' ∉ text.toList) : ofText text = [.name text] := by
  unfold ofText
  rw [List.splitOn_eq_singleton dots]
  rcases part?_of_notMem brackets with part | part <;>
    simp [part]

end Path

theorem toLower_of_not_isUpper {c : Char} (other : c.isUpper = false) : c.toLower = c :=
  dif_neg (of_decide_eq_false other)

theorem isUpper_of_isDigit {c : Char} (digit : c.isDigit = true) : c.isUpper = false := by
  obtain ⟨-, small⟩ := Bool.and_eq_true_iff.1 digit
  have small : c.val ≤ '9'.val := of_decide_eq_true small
  have apart : '9'.val < 'A'.val := by decide
  exact decide_eq_false fun upper => UInt32.not_lt.2 (UInt32.le_trans upper.1 small) apart

theorem isUpper_of_isLower {c : Char} (lower : c.isLower = true) : c.isUpper = false := by
  obtain ⟨large, -⟩ := Bool.and_eq_true_iff.1 lower
  have large : 'a'.val ≤ c.val := of_decide_eq_true large
  have apart : 'Z'.val < 'a'.val := by decide
  exact decide_eq_false fun upper => UInt32.not_lt.2 (UInt32.le_trans large upper.2) apart

namespace Tree

/-- A name that a document can use at any depth for just this name: it is in lower case, and
neither a path nor the tag of a date or time. -/
def PlainName (name : String) : Prop :=
  lower name = name ∧ '.' ∉ name.toList ∧ ']' ∉ name.toList ∧ name ≠ Toml.momentTag

instance : DecidablePred PlainName := fun _ => inferInstanceAs (Decidable (_ ∧ _))

theorem plainName_of_identifier {name : String}
    (letters : ∀ c ∈ name.toList, c.isLower ∨ c.isDigit ∨ c = '_' ∨ c = '-') :
    PlainName name := by
  have kept : ∀ c ∈ name.toList, lowerChar c = c := by
    intro c mem
    have notUpper : c.isUpper = false := by
      rcases letters c mem with letter | digit | rfl | rfl
      · exact isUpper_of_isLower letter
      · exact isUpper_of_isDigit digit
      · rfl
      · rfl
    have notKelvin : c ≠ '\u212a' := by
      rintro rfl
      exact absurd (letters _ mem) (by decide)
    rw [lowerChar, if_neg notKelvin, toLower_of_not_isUpper notUpper]
  refine ⟨?_, fun mem => absurd (letters _ mem) (by decide),
    fun mem => absurd (letters _ mem) (by decide), ?_⟩
  · rw [lower, List.map_congr_left kept, List.map_id', String.ofList_toList]
  · rintro rfl
    exact absurd (letters '$' (by decide)) (by decide)

theorem child?_table (es : List (String × Tree)) (name : String) :
    (table es).child? name = (es.find? fun e => e.1 == name).map (·.2) := rfl

theorem child?_cons_self (v : Tree) (es : List (String × Tree)) (name : String) :
    (table ((name, v) :: es)).child? name = some v := by
  simp only [child?_table, List.find?_cons_of_pos, BEq.rfl, Option.map_some]

theorem child?_cons_of_ne {name other : String} (different : name ≠ other) (v : Tree)
    (es : List (String × Tree)) :
    (table ((name, v) :: es)).child? other = (table es).child? other := by
  rw [child?_table, List.find?_cons_of_neg (by simpa using different), child?_table]

theorem child?_eq_none_of_notMem {es : List (String × Tree)} {name : String}
    (fresh : name ∉ es.map (·.1)) : (table es).child? name = none := by
  rw [child?_table, Option.map_eq_none_iff, List.find?_eq_none]
  rintro e he same
  exact fresh (List.mem_map.2 ⟨e, he, eq_of_beq same⟩)

theorem exists_table_of_child? {t v : Tree} {name : String} (found : t.child? name = some v) :
    ∃ es, t = .table es := by
  cases t with
  | table es => exact ⟨es, rfl⟩
  | scalar value origin => cases found
  | sequence items => cases found

theorem child?_replace (es : List (String × Tree)) (name other : String) (new : Tree) :
    (table (es.map fun e => if e.1 == name then (name, new) else e)).child? other =
      if name = other then ((table es).child? name).map fun _ => new
      else (table es).child? other := by
  induction es with
  | nil => simp [child?_table]
  | cons e es ih =>
    obtain ⟨first, v⟩ := e
    rw [List.map_cons]
    by_cases replaced : first = name
    · subst replaced
      rw [if_pos BEq.rfl]
      split
      · rename_i same
        rw [← same, child?_cons_self, child?_cons_self, Option.map_some]
      · rename_i different
        rw [child?_cons_of_ne different, child?_cons_of_ne different, ih, if_neg different]
    · rw [if_neg (by simpa using replaced)]
      by_cases found : first = other
      · subst found
        rw [child?_cons_self, child?_cons_self, if_neg (Ne.symm replaced)]
      · rw [child?_cons_of_ne found, child?_cons_of_ne found, child?_cons_of_ne replaced, ih]

/-- Only what is under the altered name changes. -/
theorem child?_alter (t : Tree) (name other : String) (f : Option Tree → Tree) :
    (t.alter name f).child? other =
      if lower name = other then some (f (t.child? (lower name))) else t.child? other := by
  unfold alter
  dsimp only
  generalize lower name = name
  cases present : t.child? name with
  | some v =>
    obtain ⟨es, rfl⟩ := exists_table_of_child? present
    rw [if_pos Option.isSome_some, entries, child?_replace, present, Option.map_some]
  | none =>
    rw [if_neg (by simp), child?_table, List.find?_append, Option.map_or]
    change (t.child? other).or ((table [(name, f none)]).child? other) = _
    split
    · rename_i same
      subst same
      rw [present, child?_cons_self, Option.none_or]
    · rename_i different
      rw [child?_cons_of_ne different]
      exact Option.or_none

/-- Merging a table decides each of its names, and leaves what is under any other. -/
theorem child?_mergeEntries {es : List (String × Tree)} (inLower : ∀ e ∈ es, lower e.1 = e.1)
    (distinct : (es.map (·.1)).Nodup) (t : Tree) (name : String) :
    (mergeEntries es t).child? name =
      (((table es).child? name).map fun v => layOver v (t.child? name)).or (t.child? name) := by
  induction es generalizing t with
  | nil => rfl
  | cons e es ih =>
    obtain ⟨first, v⟩ := e
    obtain ⟨here, inLower⟩ := List.forall_mem_cons.1 inLower
    obtain ⟨fresh, distinct⟩ := List.nodup_cons.1 distinct
    rw [mergeEntries, ih inLower distinct, child?_alter, here]
    split
    · rename_i same
      subst same
      rw [child?_eq_none_of_notMem fresh, child?_cons_self]
      rfl
    · rename_i different
      rw [child?_cons_of_ne different]

theorem child?_getD (old : Option Tree) (name : String) :
    (old.getD (table [])).child? name = old.bind (·.child? name) := by
  cases old <;> rfl

/-- What is under a name in the table under another. -/
def leaf? (t : Tree) (part name : String) : Option Tree := (t.child? part).bind (·.child? name)

end Tree

def Toml.leaf? (es : List (String × Toml.Value)) (part name : String) : Option Toml.Value :=
  (lookup? es part).bind fun
    | .table inner => lookup? inner name
    | _ => none

namespace Tree

section Document

variable {es : List (String × Toml.Value)}

theorem entriesOfToml_eq_map (es : List (String × Toml.Value)) :
    entriesOfToml es = es.map fun e => (e.1, ofToml e.2) := by
  induction es with
  | nil => rfl
  | cons e es ih => rw [entriesOfToml, ih, List.map_cons]

theorem child?_entriesOfToml (es : List (String × Toml.Value)) (name : String) :
    (table (entriesOfToml es)).child? name = (Toml.lookup? es name).map ofToml := by
  rw [entriesOfToml_eq_map, child?_table, List.find?_map, Toml.lookup?, Option.map_map,
    Option.map_map]
  rfl

theorem overlayDocument_eq_mergeEntries (plain : ∀ e ∈ es, PlainName e.1) (t : Tree) :
    overlayDocument es t = mergeEntries (entriesOfToml es) t := by
  induction es generalizing t with
  | nil => rfl
  | cons e es ih =>
    obtain ⟨⟨inLower, dots, brackets, -⟩, plain⟩ := List.forall_mem_cons.1 plain
    rw [entriesOfToml, mergeEntries, ← ih plain]
    simp only [overlayDocument, List.foldl_cons, inLower, Path.ofText_of_notMem dots brackets,
      setAt]

theorem child?_mergeEntries_ofToml (distinct : (es.map (·.1)).Nodup)
    (plain : ∀ name ∈ es.map (·.1), PlainName name) (t : Tree) (name : String) :
    (mergeEntries (entriesOfToml es) t).child? name =
      ((Toml.lookup? es name).map fun v => layOver (ofToml v) (t.child? name)).or
        (t.child? name) := by
  have names : (entriesOfToml es).map (·.1) = es.map (·.1) := by
    rw [entriesOfToml_eq_map, List.map_map]
    rfl
  have inLower : ∀ e ∈ entriesOfToml es, lower e.1 = e.1 :=
    fun e he => (plain e.1 (names ▸ List.mem_map_of_mem he)).1
  rw [child?_mergeEntries inLower (names ▸ distinct), child?_entriesOfToml, Option.map_map]
  rfl

/-- A document decides what it has in a table at its top, and leaves everything else there. -/
theorem leaf?_overlayDocument (distinct : (Toml.Value.table es).Distinct)
    (plain : (Toml.Value.table es).EachTable fun names => ∀ name ∈ names, PlainName name)
    {part : String} (isTable : ∀ v ∈ Toml.lookup? es part, ∃ inner, v = .table inner) (t : Tree)
    (name : String) :
    (overlayDocument es t).leaf? part name =
      ((Toml.leaf? es part name).map fun v => layOver (ofToml v) (t.leaf? part name)).or
        (t.leaf? part name) := by
  have distinctTop := (Toml.Value.eachTable_table_iff.1 distinct).1
  have plainTop := (Toml.Value.eachTable_table_iff.1 plain).1
  rw [overlayDocument_eq_mergeEntries (fun e he => plainTop e.1 (List.mem_map_of_mem he)), leaf?,
    child?_mergeEntries_ofToml distinctTop plainTop]
  cases found : Toml.lookup? es part with
  | none =>
    rw [Toml.leaf?, found]
    rfl
  | some v =>
    obtain ⟨inner, rfl⟩ := isTable v found
    have distinctInner := (Toml.Value.eachTable_table_iff.1 (distinct.of_lookup found)).1
    have plainInner := (Toml.Value.eachTable_table_iff.1 (plain.of_lookup found)).1
    rw [Option.map_some, Option.some_or, Option.bind_some, ofToml, layOver,
      child?_mergeEntries_ofToml distinctInner plainInner, child?_getD, Toml.leaf?, found]
    rfl

end Document

/-- A scalar that is set in a table at the top is all that changes in any of them. -/
theorem leaf?_setAt_scalar (value : Scalar) (origin : Bool) (t : Tree)
    (part name part' name' : String) :
    (setAt (.scalar value origin) [.name part, .name name] t).leaf? part' name' =
      if lower part = part' ∧ lower name = name' then some (.scalar value origin)
      else t.leaf? part' name' := by
  change (t.alter part fun old =>
    (old.getD (table [])).alter name (layOver (.scalar value origin))).leaf? part' name' = _
  rw [leaf?, child?_alter]
  by_cases here : lower part = part'
  · subst here
    simp only [if_true, Option.bind_some, child?_alter, child?_getD, layOver, true_and]
    rfl
  · rw [if_neg here, if_neg (fun both => here both.1)]
    rfl

end Tree

end BrokerAdmin
