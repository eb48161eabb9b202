import BrokerAdmin.Config.Template
import Mathlib.Data.List.Forall2
import Mathlib.Data.List.Infix

set_option autoImplicit false

/-!
Where the placeholders of a text stand and what they become. The pieces of a text are said here
without a scanner: a placeholder is a word of one of two forms, and the next one to count is the
first that starts behind the one before. A name stands for the value of the variable that is called
so. Only a name that, with an equals sign behind it, begins the line of another variable gets at
something else, and of such names nothing is said.
-/

namespace BrokerAdmin

namespace Environment

/-- The value of the variable of this name, if there is one and its value is a text. -/
def value? (env : Environment) (name : String) : Option String :=
  (env.find? fun v => v.name == name).bind (·.value)

/-- No variable has the name, but with an equals sign behind it the name begins the line of one. -/
def Overreaches (env : Environment) (name : String) : Prop :=
  (∀ v ∈ env, v.name ≠ name) ∧ ∃ v ∈ env, ∃ value, v.value = some value ∧
    name.toList ++ ['='] <+: v.name.toList ++ '=' :: value.toList

variable {env : Environment} {name : String}

theorem text?_eq_value? (within : ¬env.Overreaches name) : env.text? name = env.value? name := by
  unfold text? value?
  cases found : env.find? fun v => v.name == name with
  | some v => rfl
  | none =>
    rw [Option.bind_none, List.findSome?_eq_none_iff]
    intro v hv
    have others : ∀ w ∈ env, w.name ≠ name := by simpa using found
    cases value : v.value with
    | none => simp [Variable.remainder?, value]
    | some text =>
      have apart : ¬name.toList ++ ['='] <+: v.name.toList ++ '=' :: text.toList :=
        fun starts => within ⟨others, v, hv, text, value, starts⟩
      simpa [Variable.remainder?, value] using apart

/-- Where variables have no equals sign in their names, only a name with one overreaches. -/
theorem not_overreaches (named : ∀ v ∈ env, '=' ∉ v.name.toList) (plain : '=' ∉ name.toList) :
    ¬env.Overreaches name := by
  rintro ⟨others, v, hv, value, -, behind, line⟩
  rw [List.append_assoc, List.singleton_append] at line
  have front : ∀ cs rest : List Char, '=' ∉ cs → (cs ++ '=' :: rest).takeWhile (· != '=') = cs := by
    intro cs rest none
    rw [List.takeWhile_append_of_pos, List.takeWhile_cons_of_neg (by simp), List.append_nil]
    intro c hc
    exact bne_iff_ne.2 fun sign => none (sign ▸ hc)
  have same := congrArg (List.takeWhile (· != '=')) line
  rw [front _ _ plain, front _ _ (named v hv)] at same
  exact others v hv (String.toList_inj.1 same.symm)

end Environment

namespace Template

def IsName (name : List Char) : Prop := name ≠ [] ∧ '\x7d' ∉ name ∧ ':' ∉ name

instance : DecidablePred IsName := fun name =>
  inferInstanceAs (Decidable (name ≠ [] ∧ '\x7d' ∉ name ∧ ':' ∉ name))

/-- The two ways in which a placeholder is written. -/
inductive Placeholder.Written : Placeholder → List Char → Prop where
  | plain {name : List Char} : IsName name →
      Written ⟨name, []⟩ ('$' :: '\x7b' :: (name ++ ['\x7d']))
  | withDefault {name default : List Char} : IsName name → '\x7d' ∉ default →
      Written ⟨name, default⟩ ('$' :: '\x7b' :: (name ++ ':' :: '-' :: (default ++ ['\x7d'])))

theorem isName_iff {name : List Char} :
    IsName name ↔ name ≠ [] ∧ ∀ c ∈ name, isNameChar c = true := by
  refine and_congr_right fun _ => ⟨fun free c hc => ?_, fun free => ⟨fun hc => ?_, fun hc => ?_⟩⟩
  · have brace : c ≠ '\x7d' := fun eq => free.1 (eq ▸ hc)
    have colon : c ≠ ':' := fun eq => free.2 (eq ▸ hc)
    simp [isNameChar, brace, colon]
  · exact absurd (free _ hc) (by decide)
  · exact absurd (free _ hc) (by decide)

theorem notMem_iff_isDefaultChar {default : List Char} :
    '\x7d' ∉ default ↔ ∀ c ∈ default, isDefaultChar c = true := by
  refine ⟨fun free c hc => bne_iff_ne.2 fun brace => free (brace ▸ hc), fun free hc => ?_⟩
  exact absurd (free _ hc) (by decide)

theorem span_iff {p : Char → Bool} {cs taken left : List Char} :
    cs.takeWhile p = taken ∧ cs.dropWhile p = left ↔
      cs = taken ++ left ∧ (∀ c ∈ taken, p c = true) ∧ ∀ c ∈ left.head?, p c = false := by
  constructor
  · rintro ⟨rfl, rfl⟩
    refine ⟨List.takeWhile_append_dropWhile.symm, List.all_eq_true.1 List.all_takeWhile, ?_⟩
    intro c hc
    have stop := List.head?_dropWhile_not p cs
    rw [Option.mem_def.1 hc] at stop
    simpa using stop
  · rintro ⟨rfl, inside, stop⟩
    rw [List.takeWhile_append_of_pos inside, List.dropWhile_append_of_pos inside]
    cases left with
    | nil => simp
    | cons c left => simp [stop c rfl]

theorem ending?_eq_some_iff {cs d rest : List Char} : ending? cs = some (d, rest) ↔
    d = [] ∧ cs = '\x7d' :: rest ∨ '\x7d' ∉ d ∧ cs = ':' :: '-' :: (d ++ '\x7d' :: rest) := by
  constructor
  · intro read
    unfold ending? at read
    split at read
    · cases read
      exact .inl ⟨rfl, rfl⟩
    · split at read
      · cases read
      · rename_i c rest' left
        cases read
        obtain ⟨whole, free, stop⟩ := span_iff.1 ⟨rfl, left⟩
        have brace : c = '\x7d' := by simpa [isDefaultChar] using stop c rfl
        rw [brace] at whole
        exact .inr ⟨notMem_iff_isDefaultChar.2 free, congrArg (':' :: '-' :: ·) whole⟩
    · cases read
  · rintro (⟨rfl, rfl⟩ | ⟨free, rfl⟩)
    · rfl
    · have stop : ∀ c ∈ ('\x7d' :: rest).head?, isDefaultChar c = false := by simp [isDefaultChar]
      obtain ⟨taken, left⟩ := span_iff.2 ⟨rfl, notMem_iff_isDefaultChar.1 free, stop⟩
      rw [ending?, left, taken]

theorem placeholder?_of_ending {name after default rest : List Char} (valid : IsName name)
    (stop : ∀ c ∈ after.head?, isNameChar c = false)
    (ending : ending? after = some (default, rest)) :
    placeholder? ('$' :: '\x7b' :: (name ++ after)) = some (⟨name, default⟩, rest) := by
  obtain ⟨nonempty, inside⟩ := isName_iff.1 valid
  obtain ⟨taken, left⟩ := span_iff.2 ⟨rfl, inside, stop⟩
  rw [placeholder?, taken, left, ending, if_neg (by simpa using nonempty)]
  rfl

theorem placeholder?_eq_some_iff {cs rest : List Char} {p : Placeholder} :
    placeholder? cs = some (p, rest) ↔ ∃ word, p.Written word ∧ cs = word ++ rest := by
  constructor
  · intro read
    unfold placeholder? at read
    split at read
    · rename_i cs
      split at read
      · cases read
      · rename_i nonempty
        obtain ⟨⟨default, rest'⟩, ending, eq⟩ := Option.map_eq_some_iff.1 read
        cases eq
        obtain ⟨whole, inside, -⟩ := span_iff.1
          (⟨rfl, rfl⟩ : cs.takeWhile isNameChar = _ ∧ cs.dropWhile isNameChar = _)
        have valid : IsName (cs.takeWhile isNameChar) :=
          isName_iff.2 ⟨by simpa using nonempty, inside⟩
        generalize cs.takeWhile isNameChar = name at *
        generalize cs.dropWhile isNameChar = after at *
        subst whole
        rcases ending?_eq_some_iff.1 ending with ⟨rfl, rfl⟩ | ⟨free, rfl⟩
        · exact ⟨_, .plain valid, by simp⟩
        · exact ⟨_, .withDefault valid free, by simp⟩
    · cases read
  · rintro ⟨word, written, rfl⟩
    cases written with
    | plain valid =>
      have ended : ending? ('\x7d' :: rest) = some ([], rest) :=
        ending?_eq_some_iff.2 (.inl ⟨rfl, rfl⟩)
      simpa using placeholder?_of_ending valid (by simp [isNameChar]) ended
    | @withDefault name default valid free =>
      have ended : ending? (':' :: '-' :: (default ++ '\x7d' :: rest)) = some (default, rest) :=
        ending?_eq_some_iff.2 (.inr ⟨free, rfl⟩)
      simpa using placeholder?_of_ending valid (by simp [isNameChar]) ended

/-- A word stands at the front of the text. -/
def StartsWord (cs : List Char) : Prop :=
  ∃ (p : Placeholder) (word rest : List Char), p.Written word ∧ cs = word ++ rest

theorem placeholder?_eq_none_iff {cs : List Char} :
    placeholder? cs = none ↔ ¬StartsWord cs := by
  rw [Option.eq_none_iff_forall_ne_some]
  constructor
  · rintro none ⟨p, word, rest, written, rfl⟩
    exact none (p, rest) (placeholder?_eq_some_iff.2 ⟨word, written, rfl⟩)
  · rintro none ⟨p, rest⟩ read
    obtain ⟨word, written, rfl⟩ := placeholder?_eq_some_iff.1 read
    exact none ⟨p, word, rest, written, rfl⟩

instance : DecidablePred StartsWord := fun cs =>
  decidable_of_iff (placeholder? cs ≠ none) (by rw [ne_eq, placeholder?_eq_none_iff, not_not])

/-- No word starts at a character of the first text, which the second one follows. -/
def NoWordIn (front rest : List Char) : Prop :=
  ∀ back, back <:+ front → back ≠ [] → ¬StartsWord (back ++ rest)

instance (front rest : List Char) : Decidable (NoWordIn front rest) :=
  decidable_of_iff (∀ back ∈ front.tails, back ≠ [] → ¬StartsWord (back ++ rest))
    (by simp only [List.mem_tails, NoWordIn])

theorem noWordIn_nil (rest : List Char) : NoWordIn [] rest :=
  fun _ behind nonempty => absurd (List.suffix_nil.1 behind) nonempty

theorem noWordIn_cons_iff {c : Char} {front rest : List Char} :
    NoWordIn (c :: front) rest ↔ ¬StartsWord (c :: (front ++ rest)) ∧ NoWordIn front rest := by
  constructor
  · intro quiet
    exact ⟨quiet _ List.suffix_rfl (by simp),
      fun back behind => quiet back (behind.trans (List.suffix_cons _ _))⟩
  · rintro ⟨here, later⟩ back behind nonempty
    rcases List.suffix_cons_iff.1 behind with rfl | behind
    · exact here
    · exact later back behind nonempty

/-- What a text is put together from. -/
inductive Piece where
  | literal (text : List Char)
  | word (p : Placeholder)
  deriving DecidableEq, Repr

/-- How a text is cut into pieces. The next word to be taken is the one that starts first behind
the one before, and the literals are what lies between the words. -/
inductive Cut : List Char → List Piece → Prop where
  | done {text : List Char} : NoWordIn text [] → Cut text [.literal text]
  | next {front word rest : List Char} {p : Placeholder} {pieces : List Piece} :
      NoWordIn front (word ++ rest) → p.Written word → Cut rest pieces →
      Cut (front ++ (word ++ rest)) (.literal front :: .word p :: pieces)

def Piece.segments : Piece → List Segment
  | .literal text => text.map .char
  | .word p => [.placeholder p]

section Segments

variable {front word rest : List Char} {p : Placeholder}

theorem segments_nil : segments [] = [] := by
  rw [segments]
  rfl

theorem segments_cons {c : Char} (none : ¬StartsWord (c :: rest)) :
    segments (c :: rest) = .char c :: segments rest := by
  have unread := placeholder?_eq_none_iff.2 none
  rw [segments]
  split
  · simp_all
  · rfl

theorem segments_word (written : p.Written word) :
    segments (word ++ rest) = .placeholder p :: segments rest := by
  have read := placeholder?_eq_some_iff.2 ⟨word, written, (rfl : word ++ rest = word ++ rest)⟩
  rw [segments]
  split
  · simp_all
  · simp_all

theorem segments_literal (quiet : NoWordIn front rest) :
    segments (front ++ rest) = front.map .char ++ segments rest := by
  induction front with
  | nil => rfl
  | cons c front ih =>
    obtain ⟨here, later⟩ := noWordIn_cons_iff.1 quiet
    rw [List.cons_append, segments_cons here, ih later, List.map_cons, List.cons_append]

end Segments

theorem segments_of_cut {cs : List Char} {pieces : List Piece} (cut : Cut cs pieces) :
    segments cs = pieces.flatMap Piece.segments := by
  induction cut with
  | done quiet => simpa [Piece.segments, segments_nil] using segments_literal quiet
  | next quiet written _ ih =>
    rw [segments_literal quiet, segments_word written, ih]
    rfl

theorem exists_cut_cons {c : Char} {cs : List Char} {pieces : List Piece}
    (none : ¬StartsWord (c :: cs)) (cut : Cut cs pieces) : ∃ pieces, Cut (c :: cs) pieces := by
  cases cut with
  | done quiet => exact ⟨_, .done (noWordIn_cons_iff.2 ⟨by simpa using none, quiet⟩)⟩
  | next quiet written cut => exact ⟨_, .next (noWordIn_cons_iff.2 ⟨none, quiet⟩) written cut⟩

theorem exists_cut (cs : List Char) : ∃ pieces, Cut cs pieces := by
  induction cs using segments.induct with
  | case1 cs p rest read _ ih =>
    obtain ⟨word, written, rfl⟩ := placeholder?_eq_some_iff.1 read
    obtain ⟨pieces, cut⟩ := ih
    exact ⟨_, .next (noWordIn_nil _) written cut⟩
  | case2 => exact ⟨_, .done (noWordIn_nil _)⟩
  | case3 c rest unread ih =>
    obtain ⟨pieces, cut⟩ := ih
    exact exists_cut_cons (placeholder?_eq_none_iff.1 unread) cut

def Piece.Written : Piece → List Char → Prop
  | .literal text, written => written = text
  | .word p, written => p.Written written

def leadingText : List Piece → List Char
  | .literal text :: pieces => text ++ leadingText pieces
  | _ => []

/-- Nowhere do literals that follow one another join up to a text with an opening. -/
def Separate (pieces : List Piece) : Prop :=
  ∀ rest, rest <:+ pieces → ¬['$', '\x7b'] <:+: leadingText rest

instance : DecidablePred Separate := fun pieces =>
  decidable_of_iff (∀ rest ∈ pieces.tails, ¬['$', '\x7b'] <:+: leadingText rest)
    (by simp only [List.mem_tails, Separate])

theorem Separate.tail {piece : Piece} {pieces : List Piece}
    (separate : Separate (piece :: pieces)) : Separate pieces :=
  fun rest behind => separate rest (behind.trans (List.suffix_cons _ _))

theorem StartsWord.opening {cs : List Char} (starts : StartsWord cs) : ['$', '\x7b'] <+: cs := by
  obtain ⟨p, word, rest, written, rfl⟩ := starts
  cases written <;> simp

/-- Where a text stops or goes on with a dollar sign, it does not complete an opening. -/
theorem opening_of_append {cs rest : List Char} (nonempty : cs ≠ [])
    (stop : ∀ c ∈ rest.head?, c = '$') (starts : ['$', '\x7b'] <+: cs ++ rest) :
    ['$', '\x7b'] <+: cs := by
  match cs with
  | [c] =>
    obtain ⟨-, left, rfl⟩ : '$' = c ∧ ∃ left, '\x7b' :: left = rest := by
      simpa [List.cons_prefix_cons, List.IsPrefix] using starts
    exact absurd (stop _ rfl) (by decide)
  | c :: d :: cs => simpa [List.cons_prefix_cons] using starts

section Written

variable {pieces : List Piece} {texts : List (List Char)}

theorem flatten_of_written (written : List.Forall₂ Piece.Written pieces texts) :
    ∃ rest, texts.flatten = leadingText pieces ++ rest ∧ ∀ c ∈ rest.head?, c = '$' := by
  induction written with
  | nil => exact ⟨[], rfl, by simp⟩
  | @cons piece text pieces texts head _ ih =>
    cases piece with
    | literal front =>
      obtain ⟨rest, whole, stop⟩ := ih
      cases head
      exact ⟨rest, by simp [leadingText, whole], stop⟩
    | word p =>
      refine ⟨(text :: texts).flatten, rfl, ?_⟩
      have first : text.head? = some '$' := by
        cases head <;> rfl
      simp [List.head?_append, first]

theorem noWordIn_of_separate {front : List Char} (separate : Separate (.literal front :: pieces))
    (written : List.Forall₂ Piece.Written pieces texts) : NoWordIn front texts.flatten := by
  intro back behind nonempty starts
  obtain ⟨rest, whole, stop⟩ := flatten_of_written written
  rw [whole, ← List.append_assoc] at starts
  have opening := opening_of_append (by simp [nonempty]) stop starts.opening
  obtain ⟨ahead, rfl⟩ := behind
  refine separate _ List.suffix_rfl (opening.isInfix.trans ?_)
  exact ⟨ahead, [], by simp [leadingText]⟩

theorem segments_of_written (written : List.Forall₂ Piece.Written pieces texts)
    (separate : Separate pieces) : segments texts.flatten = pieces.flatMap Piece.segments := by
  induction written with
  | nil => exact segments_nil
  | @cons piece text pieces texts head written ih =>
    rw [List.flatten_cons, List.flatMap_cons, ← ih separate.tail]
    cases piece with
    | literal front =>
      cases head
      exact segments_literal (noWordIn_of_separate separate written)
    | word p => exact segments_word head

end Written

/-- What a piece turns into. A literal stays what it is; a word turns into the value of the variable
that has its name, or else into its default. Of a name that overreaches nothing is said. -/
def Piece.Becomes (env : Environment) : Piece → List Char → Prop
  | .literal text, part => part = text
  | .word p, part => ¬env.Overreaches (String.ofList p.name) →
      part = ((env.value? (String.ofList p.name)).elim p.default String.toList)

/-- The text is put together from what each of the pieces turns into. -/
def Fills (env : Environment) (pieces : List Piece) (text : String) : Prop :=
  ∃ parts, List.Forall₂ (Piece.Becomes env) pieces parts ∧ text = String.ofList parts.flatten

theorem Piece.becomes (env : Environment) (piece : Piece) :
    piece.Becomes env (piece.segments.flatMap (·.fill env)) := by
  cases piece with
  | literal text =>
    show (text.map Segment.char).flatMap (·.fill env) = text
    rw [List.flatMap_map]
    exact List.flatMap_singleton' text
  | word p =>
    intro within
    show [Segment.placeholder p].flatMap (·.fill env) = _
    rw [List.flatMap_singleton, Segment.fill, Placeholder.fill,
      Environment.text?_eq_value? within]
    cases env.value? (String.ofList p.name) <;> rfl

theorem fills_of_segments {env : Environment} {text : String} {pieces : List Piece}
    (cut : segments text.toList = pieces.flatMap Piece.segments) :
    Fills env pieces (fill env text) := by
  refine ⟨pieces.map fun piece => piece.segments.flatMap (·.fill env), ?_, ?_⟩
  · rw [List.forall₂_map_right_iff, List.forall₂_same]
    exact fun piece _ => piece.becomes env
  · rw [fill, cut, List.flatMap_assoc, List.flatMap_def]

/-- Filling a text in is substitution. Every text can be cut at its words, and the result is put
together from what the pieces turn into, for a value is not looked at again. So it is for every
list of words and literals, as long as no literals join up to an opening. -/
theorem fill_substitutes (env : Environment) :
    (∀ text : String, ∃ pieces, Cut text.toList pieces) ∧
    (∀ (text : String) (pieces : List Piece), Cut text.toList pieces →
      Fills env pieces (fill env text)) ∧
    (∀ (pieces : List Piece) (texts : List (List Char)),
      List.Forall₂ Piece.Written pieces texts → Separate pieces →
      Fills env pieces (fill env (String.ofList texts.flatten))) ∧
    ((∀ v ∈ env, '=' ∉ v.name.toList) →
      ∀ name : String, '=' ∉ name.toList → ¬env.Overreaches name) := by
  refine ⟨fun text => exists_cut _, fun text pieces cut => ?_,
    fun pieces texts written separate => ?_,
    fun named name plain => Environment.not_overreaches named plain⟩
  · exact fills_of_segments (segments_of_cut cut)
  · apply fills_of_segments
    rw [String.toList_ofList]
    exact segments_of_written written separate

/-- Openings without an ending, a name with an opening in it, a value that looks like a word and a
value that is no text. -/
theorem fill_substitutes_nested :
    let env : Environment := [⟨"A", some "$\x7bB\x7d"⟩, ⟨"B", some "b"⟩, ⟨"N", none⟩]
    let text := "$\x7bA:b\x7d$\x7b$\x7bA\x7d$\x7bN:-d\x7d$\x7bA\x7d$\x7b"
    let pieces : List Piece := [.literal "$\x7bA:b\x7d".toList, .word ⟨"$\x7bA".toList, []⟩,
      .literal [], .word ⟨['N'], ['d']⟩, .literal [], .word ⟨['A'], []⟩, .literal "$\x7b".toList]
    let parts : List Piece :=
      [.literal ['$'], .word ⟨['A'], []⟩, .literal ['\x7b'], .literal ['\x7d']]
    let texts := [['$'], "$\x7bA\x7d".toList, ['\x7b'], ['\x7d']]
    (Cut text.toList pieces ∧ Fills env pieces (fill env text) ∧
      fill env text = "$\x7bA:b\x7dd$\x7bB\x7d$\x7b") ∧
    (List.Forall₂ Piece.Written parts texts ∧ Separate parts ∧
      Fills env parts (fill env (String.ofList texts.flatten))) ∧
    ((∀ v ∈ env, '=' ∉ v.name.toList) ∧ '=' ∉ "A".toList ∧ ¬env.Overreaches "A") := by
  intro env text pieces parts texts
  have wordA : Placeholder.Written ⟨['A'], []⟩ "$\x7bA\x7d".toList := .plain (by decide)
  have wordN : Placeholder.Written ⟨['N'], ['d']⟩ "$\x7bN:-d\x7d".toList :=
    .withDefault (by decide) (by decide)
  have wordNested : Placeholder.Written ⟨"$\x7bA".toList, []⟩ "$\x7b$\x7bA\x7d".toList :=
    .plain (by decide)
  have afterN : Cut "$\x7bA\x7d$\x7b".toList [.literal [], .word ⟨['A'], []⟩,
      .literal "$\x7b".toList] :=
    .next (noWordIn_nil _) wordA (.done (show NoWordIn "$\x7b".toList [] by decide))
  have afterNested : Cut "$\x7bN:-d\x7d$\x7bA\x7d$\x7b".toList (pieces.drop 2) :=
    .next (noWordIn_nil _) wordN afterN
  have whole : text.toList = "$\x7bA:b\x7d".toList ++
      ("$\x7b$\x7bA\x7d".toList ++ "$\x7bN:-d\x7d$\x7bA\x7d$\x7b".toList) := by decide
  have cut : Cut text.toList pieces := by
    rw [whole]
    exact .next (by decide) wordNested afterNested
  have written : List.Forall₂ Piece.Written parts texts :=
    .cons rfl (.cons wordA (.cons rfl (.cons rfl .nil)))
  have separate : Separate parts := by decide
  have named : ∀ v ∈ env, '=' ∉ v.name.toList := by decide
  obtain ⟨-, cuts, lists, within⟩ := fill_substitutes env
  refine ⟨⟨cut, cuts text pieces cut, by decide +kernel⟩, ?_⟩
  exact ⟨⟨written, separate, lists parts texts written separate⟩, named, by decide,
    within named "A" (by decide)⟩

/-- A name with an equals sign gets at the end of another variable's line, and two literals without
an opening join up to a word. -/
theorem fill_overreaching_joined :
    (Cut "$\x7bA=B:-d\x7d".toList [.literal [], .word ⟨"A=B".toList, ['d']⟩, .literal []] ∧
      Environment.value? [⟨"A", some "B="⟩] "A=B" = none ∧
      fill [⟨"A", some "B="⟩] "$\x7bA=B:-d\x7d" = "" ∧ "" ≠ "d") ∧
    (List.Forall₂ Piece.Written [.literal ['$'], .literal "\x7bA\x7d".toList]
        [['$'], "\x7bA\x7d".toList] ∧
      ¬['$', '\x7b'] <:+: ['$'] ∧ ¬['$', '\x7b'] <:+: "\x7bA\x7d".toList ∧
      fill [⟨"A", some "v"⟩] ("$" ++ "\x7bA\x7d") = "v" ∧ "v" ≠ "$" ++ "\x7bA\x7d") := by
  have word : Placeholder.Written ⟨"A=B".toList, ['d']⟩ "$\x7bA=B:-d\x7d".toList :=
    .withDefault (by decide) (by decide)
  refine ⟨⟨.next (noWordIn_nil _) word (.done (noWordIn_nil _)), by decide, by decide +kernel,
    by decide⟩, ?_⟩
  exact ⟨.cons rfl (.cons rfl .nil), by decide, by decide, by decide +kernel, by decide⟩

end Template

end BrokerAdmin
