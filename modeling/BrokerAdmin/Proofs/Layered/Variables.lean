import BrokerAdmin.Proofs.Layered.Merging
import Mathlib.Data.List.Chain
import Mathlib.Data.List.TakeWhile

set_option autoImplicit false

/-!
Variables as configuration, for any mark and any names. A variable that counts is named by the mark
and by words with two underscores between them, and stands for the path of these words. Its text is
what is at the end of that path then, and nowhere else.
-/

namespace BrokerAdmin

abbrev Apart (c d : Char) : Prop := c ≠ '_' ∨ d ≠ '_'

/-- A name that can be one of the words: it is in lower case and can stand in a path, and no two
underscores meet in it or where the next word follows. -/
structure IsWord (word : String) : Prop where
  lower : Tree.lower word = word
  nonempty : word.toList ≠ []
  letters : ∀ c ∈ word.toList, Path.isNameChar c = true
  apart : (word.toList ++ ['_']).IsChain Apart

namespace Path

theorem part?_of_isWord {word : String} (isWord : IsWord word) :
    part? word.toList = some [.name word] := by
  simp only [part?, List.takeWhile_eq_self_iff.2 isWord.letters,
    List.dropWhile_eq_nil_iff.2 isWord.letters, List.isEmpty_iff, isWord.nonempty, if_false,
    String.ofList_toList]
  rfl

theorem mapM_part?_of_isWord {words : List String} (areWords : ∀ word ∈ words, IsWord word) :
    (words.map String.toList).mapM part? = some (words.map fun word => [.name word]) := by
  induction words with
  | nil => rfl
  | cons word words ih =>
    obtain ⟨isWord, areWords⟩ := List.forall_mem_cons.1 areWords
    rw [List.map_cons, List.mapM_cons, part?_of_isWord isWord, ih areWords]
    rfl

theorem ofText_intercalate {words : List String} (present : words ≠ [])
    (areWords : ∀ word ∈ words, IsWord word) :
    ofText (".".intercalate words) = words.map .name := by
  have dots : ∀ cs ∈ words.map String.toList, '.' ∉ cs := by
    intro cs mem dot
    obtain ⟨word, among, rfl⟩ := List.mem_map.1 mem
    exact absurd ((areWords word among).letters _ dot) (by decide)
  have split : (".".intercalate words).toList.splitOn '.' = words.map String.toList := by
    rw [String.toList_intercalate]
    exact List.splitOn_intercalate _ dots (by simpa using present)
  rw [ofText, split, mapM_part?_of_isWord areWords]
  exact List.map_eq_flatMap.symm

end Path

namespace Tree

theorem dotted_cons_cons {c d : Char} (apart : Apart c d) (cs : List Char) :
    dotted (c :: d :: cs) = c :: dotted (d :: cs) := by
  rw [dotted]
  rintro rest rfl same
  cases same
  exact apart.elim (· rfl) (· rfl)

theorem dotted_of_isChain {cs : List Char} (apart : cs.IsChain Apart) : dotted cs = cs := by
  induction apart with
  | nil => rfl
  | singleton c => rw [dotted, dotted]; simp
  | cons_cons apart _ ih => rw [dotted_cons_cons apart, ih]

theorem dotted_append {cs : List Char} (apart : (cs ++ ['_']).IsChain Apart) (rest : List Char) :
    dotted (cs ++ '_' :: '_' :: rest) = cs ++ '.' :: dotted rest := by
  induction cs with
  | nil => rfl
  | cons c cs ih =>
    cases cs with
    | nil | cons d cs =>
      obtain ⟨here, behind⟩ := List.isChain_cons_cons.1 apart
      exact (dotted_cons_cons here _).trans (congrArg _ (ih behind))

theorem dotted_intercalate {words : List String} (areWords : ∀ word ∈ words, IsWord word) :
    dotted ("__".intercalate words).toList = (".".intercalate words).toList := by
  induction words with
  | nil => rfl
  | cons word words ih =>
    obtain ⟨isWord, areWords⟩ := List.forall_mem_cons.1 areWords
    cases words with
    | nil =>
      rw [String.intercalate_singleton, String.intercalate_singleton,
        dotted_of_isChain isWord.apart.left_of_append]
    | cons next words =>
      rw [String.intercalate_cons_cons, String.intercalate_cons_cons]
      simp only [String.toList_append, List.append_assoc]
      change dotted (word.toList ++ '_' :: '_' :: ("__".intercalate (next :: words)).toList) = _
      rw [dotted_append isWord.apart, ih areWords]
      rfl

section Variable

variable {mark : List Char}

/-- A variable named by the mark and by words stands for the path of the words. -/
theorem variablePath?_of_words {name : String} {words : List String} (present : words ≠ [])
    (areWords : ∀ word ∈ words, IsWord word)
    (named : (lower name).toList = mark ++ ("__".intercalate words).toList) :
    variablePath? mark name = some (words.map .name) := by
  have letters : name.toList.map lowerChar = mark ++ ("__".intercalate words).toList := by
    rw [← named, lower, String.toList_ofList]
  rw [variablePath?, letters, List.drop_left, dotted_intercalate areWords, String.ofList_toList,
    Path.ofText_intercalate present areWords]
  exact if_pos (List.isPrefixOf_iff_prefix.2 (List.prefix_append _ _))

theorem variablePath?_eq_none {name : String} (other : ¬ mark <+: (lower name).toList) :
    variablePath? mark name = none := by
  rw [lower, String.toList_ofList, ← List.isPrefixOf_iff_prefix] at other
  exact if_neg other

theorem overlayVariable_of_unmarked {v : Variable} (other : ¬ mark <+: (lower v.name).toList)
    (t : Tree) : t.overlayVariable mark v = t := by
  simp only [overlayVariable, variablePath?_eq_none other]

/-- A variable that is named by the mark and two words sets what is under the second in the table
under the first, and changes no other place of this kind. -/
theorem leaf?_overlayVariable_of_words {v : Variable} {part name text : String}
    (isPart : IsWord part) (isName : IsWord name)
    (named : (lower v.name).toList = mark ++ ("__".intercalate [part, name]).toList)
    (value : v.value = some text) (t : Tree) (part' name' : String) :
    (t.overlayVariable mark v).leaf? part' name' =
      if part = part' ∧ name = name' then some (.scalar (scalarOf text) true)
      else t.leaf? part' name' := by
  have areWords : ∀ word ∈ [part, name], IsWord word := by simp [isPart, isName]
  have path := variablePath?_of_words (List.cons_ne_nil part [name]) areWords named
  have set : t.overlayVariable mark v =
      setAt (.scalar (scalarOf text) true) [.name part, .name name] t := by
    simp only [overlayVariable, path, value]
    rfl
  rw [set, leaf?_setAt_scalar, isPart.lower, isName.lower]

end Variable

end Tree

end BrokerAdmin
