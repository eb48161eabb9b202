import BrokerAdmin.Proofs.Config.Loading
import BrokerAdmin.Proofs.Decimal.Shortest

set_option autoImplicit false

/-!
Texts from the environment. What a variable holds is taken for a truth value, a whole number or a
float where it can be, and where a setting wants a text after all, the value is written in its
standard spelling. A text setting thus keeps what its variable holds if that is no such value or
is spelled so already, and otherwise gets another spelling of the same value.
-/

namespace BrokerAdmin

/-- Exactly one variable counts: the setting's, with this text. -/
def Environment.SetsOnly (env : Environment) (f : Setting) (text : String) : Prop :=
  ∃ v : Variable, env.filter (fun w => w.Counts) = [v] ∧ v.Names f ∧ v.value = some text

namespace Environment.SetsOnly

variable {env : Environment} {f : Setting} {text : String}

theorem find?_names (set : env.SetsOnly f text) (g : Setting) :
    ∃ v : Variable, v.Names f ∧ v.value = some text ∧
      env.find? (fun w => w.Names g) = if f = g then some v else none := by
  obtain ⟨v, counting, names, value⟩ := set
  have among : env.find? (fun w => w.Names g) = [v].find? fun w => w.Names g := by
    rw [← counting, List.find?_filter]
    congr 1
    funext w
    by_cases named : w.Names g
    · simp [named, named.counts]
    · simp [named]
  refine ⟨v, names, value, ?_⟩
  rw [among]
  by_cases same : f = g
  · subst same
    simp [names]
  · have other : ¬ v.Names g := fun names' => same (names.unique names')
    simp [same, other]

theorem override?_self (set : env.SetsOnly f text) : env.override? f = some text := by
  obtain ⟨v, -, value, found⟩ := set.find?_names f
  rw [override?, found, if_pos rfl, Option.bind_some, value]

theorem override?_other (set : env.SetsOnly f text) {g : Setting} (other : f ≠ g) :
    env.override? g = none := by
  obtain ⟨v, -, -, found⟩ := set.find?_names g
  rw [override?, found, if_neg other, Option.bind_none]

theorem overrides (set : env.SetsOnly f text) : env.Overrides where
  named w mem counts := by
    obtain ⟨v, counting, names, value⟩ := set
    have only : w ∈ env.filter fun w => w.Counts := List.mem_filter.2 ⟨mem, by simpa using counts⟩
    rw [counting, List.mem_singleton] at only
    subst only
    exact ⟨by rw [value, Option.isSome_some], f, names⟩
  once := by
    obtain ⟨v, counting, -, -⟩ := set
    have single : (env.filter fun w => w.Counts).Pairwise
        fun v w => ∀ g, v.Names g → ¬ w.Names g := by
      rw [counting]
      exact List.pairwise_singleton _ _
    refine (List.pairwise_filter.1 single).imp fun {v w} apart g names names' => ?_
    exact apart (by simpa using names.counts) (by simpa using names'.counts) g names names'

end Environment.SetsOnly

section Kinds

open Decimal

variable {text : String}

/-- The texts that values are written as. Negative zero has none, as its text is a whole number. -/
inductive IsStandard : String → Prop where
  | truth (b : Bool) : IsStandard (toString b)
  | integer {n : Int} : FitsWord n → IsStandard (toString n)
  | float {x : Binary64} : x.Proper → x ≠ .finite true 0 Binary64.minExponent → IsStandard x.text

/-- What a text comes to where a text is wanted. A spelling of a value gives way to the standard
one, which is a spelling of the same value, and the shortest decimal where that is a float. Any
other text stays. -/
structure Settles (text s : String) : Prop where
  truth : ∀ b, IsTruthWord text b → s = toString b
  integer : ∀ n ∈ signedWord? text.toList, s = toString n ∧ signedWord? s.toList = some n
  float : signedWord? text.toList = none → ∀ x ∈ Binary64.read? text.toList,
    s = x.text ∧ Binary64.read? s.toList = some x
  shortest : signedWord? text.toList = none → ∀ (negative : Bool) (m : Nat) (e : Int), 0 < m →
    Binary64.read? text.toList = some (.finite negative m e) →
      ∃ d p, Binary64.IsShortest negative m e d p ∧
        s.toList = signed negative (Binary64.positional d p)
  plain : IsPlainText text → s = text

theorem Text.isSpace_of_isDigit {c : Char} (digit : c.isDigit = true) : isSpace c = false := by
  simp only [Char.isDigit, Bool.and_eq_true, decide_eq_true_eq] at digit
  have lower : 48 ≤ c.toNat := UInt32.le_iff_toNat_le.1 digit.1
  have upper : c.toNat ≤ 57 := UInt32.le_iff_toNat_le.1 digit.2
  simp only [isSpace, Bool.or_eq_false_iff, decide_eq_false_iff_not, beq_eq_false_iff_ne]
  omega

theorem Text.isBlank_of_isDigit {s : String} {c : Char} (mem : c ∈ s.toList)
    (digit : c.isDigit = true) : isBlank s = false := by
  rw [isBlank, List.all_eq_false]
  exact ⟨c, mem, by simp [isSpace_of_isDigit digit]⟩

theorem Decimal.Binary64.isBlank_text {x : Binary64} (proper : x.Proper) :
    Text.isBlank x.text = false := by
  cases x with
  | nan => decide
  | infinite negative => cases negative <;> decide
  | finite negative m e =>
    rcases Nat.eq_zero_or_pos m with rfl | positive
    · obtain rfl := eq_minExponent_of_zero proper
      cases negative <;> decide
    · obtain ⟨d, p, -, -, shown⟩ := toList_text positive proper
      obtain ⟨c, cs, first, digit⟩ := head_positional d p
      refine Text.isBlank_of_isDigit (c := c) ?_ digit
      rw [shown, first]
      cases negative <;> simp [signed]

theorem settles_scalarText (text : String) :
    Settles text (Loose.scalarText (Tree.scalarOf text)) where
  truth b word := by
    rw [word.scalarOf_eq]
    rfl
  integer n number := by
    rw [Tree.scalarOf_of_signedWord? number]
    exact ⟨rfl, signedWord?_toString (signedWord?_eq_some_iff.1 number).2⟩
  float integer x number := by
    rw [Tree.scalarOf_of_read? integer number]
    exact ⟨rfl, Binary64.read?_text (Binary64.read?_proper number)⟩
  shortest integer negative m e positive number := by
    rw [Tree.scalarOf_of_read? integer number]
    obtain ⟨d, p, -, shortest, shown⟩ :=
      Binary64.toList_text positive (Binary64.read?_proper number)
    exact ⟨d, p, shortest, shown⟩
  plain plain := by
    rw [Tree.scalarOf_of_plain plain]
    rfl

namespace Settles

variable {s : String}

/-- The text is kept exactly if it has no value or is the standard spelling of its value. -/
theorem eq_iff (settles : Settles text s) : s = text ↔ IsPlainText text ∨ IsStandard text := by
  constructor
  · rintro rfl
    rcases text_cases s with ⟨b, word⟩ | ⟨n, number⟩ | ⟨integer, x, number⟩ | plain
    · rw [settles.truth b word]
      exact .inr (.truth b)
    · rw [(settles.integer n number).1]
      exact .inr (.integer (signedWord?_eq_some_iff.1 number).2)
    · rw [(settles.float integer x number).1]
      refine .inr (.float (Binary64.read?_proper number) ?_)
      rintro rfl
      have whole : signedWord? "-0".toList = some 0 := by decide
      have shown := (settles.float integer _ number).1
      rw [shown] at integer
      cases integer.symm.trans whole
    · exact .inl plain
  · rintro (plain | standard)
    · exact settles.plain plain
    · cases standard with
      | truth b => exact settles.truth b (by cases b <;> rfl)
      | integer fits => exact (settles.integer _ (signedWord?_toString fits)).1
      | @float x proper other =>
        cases integer : signedWord? x.text.toList with
        | none => exact (settles.float integer x (Binary64.read?_text proper)).1
        | some n =>
          rw [(settles.integer n integer).1]
          exact Binary64.toString_of_signedWord?_text proper other integer

theorem isBlank_eq_false (settles : Settles text s) (named : Text.isBlank text = false) :
    Text.isBlank s = false := by
  rcases text_cases text with ⟨b, word⟩ | ⟨n, number⟩ | ⟨integer, x, number⟩ | plain
  · rw [settles.truth b word]
    cases b <;> decide
  · obtain ⟨c, mem, digit⟩ :=
      exists_isDigit_of_signedWord? (settles.integer n number).2
    exact Text.isBlank_of_isDigit mem digit
  · rw [(settles.float integer x number).1]
    exact Binary64.isBlank_text (Binary64.read?_proper number)
  · rwa [settles.plain plain]

end Settles

end Kinds

namespace Settings

variable {env : Environment} {f : Setting} {text : String}

theorem ofEnvironment_eq_checked {x : f.Value} (set : env.SetsOnly f text)
    (read : ∀ path, f.read ⟨path, some (.scalar (Tree.scalarOf text) true)⟩ = .ok x) :
    ofEnvironment env = (ofValues (Function.update Setting.default f x)).checked := by
  have holds : ((Tree.ofSettings {}).overlayEnvironment variableMark env).Holds
      (Function.update Setting.default f x) := by
    intro g
    rw [Tree.leaf?_overlayEnvironment set.overrides]
    by_cases same : f = g
    · subst same
      rw [set.override?_self, Function.update_self]
      exact ⟨_, rfl, read⟩
    · rw [set.override?_other same, Function.update_of_ne (Ne.symm same)]
      exact Tree.leaf?_ofSettings g
  change ofTree (Tree.overlayEnvironment variableMark env _) = _
  rw [ofTree, holds.settings]

theorem checked_eq_ok {s : Settings} (bounds : s.InBounds) : s.checked = .ok s := by
  rw [checked, validate_eq_ok_iff.2 bounds]

theorem ofEnvironment_level {s : String} (set : env.SetsOnly .level text)
    (shown : Loose.scalarText (Tree.scalarOf text) = s) :
    ofEnvironment env = .ok { log := ⟨s⟩ } := by
  have read (path : String) :
      Setting.level.read ⟨path, some (.scalar (Tree.scalarOf text) true)⟩ = .ok s :=
    congrArg Except.ok shown
  have bounds : ({} : Settings).InBounds := by decide
  exact (ofEnvironment_eq_checked set read).trans (checked_eq_ok bounds)

theorem ofEnvironment_backend {s : String} (set : env.SetsOnly .backend text)
    (shown : Loose.scalarText (Tree.scalarOf text) = s) (named : Text.isBlank s = false) :
    ofEnvironment env = .ok { persistence := ⟨s⟩ } := by
  have read (path : String) :
      Setting.backend.read ⟨path, some (.scalar (Tree.scalarOf text) true)⟩ = .ok s :=
    congrArg Except.ok shown
  have bounds : ({} : Settings).InBounds := by decide
  exact (ofEnvironment_eq_checked set read).trans (checked_eq_ok ⟨bounds.1, named⟩)

/-- A text setting that alone is set in the environment settles to the standard spelling of its
value, and stays as it is if it has none. -/
theorem ofEnvironment_settles (env : Environment) (text : String) :
    ∃ s, Settles text s ∧ (s = text ↔ IsPlainText text ∨ IsStandard text) ∧
      (env.SetsOnly .level text → ofEnvironment env = .ok { log := ⟨s⟩ }) ∧
      (env.SetsOnly .backend text → Text.isBlank text = false →
        ofEnvironment env = .ok { persistence := ⟨s⟩ }) := by
  have settles := settles_scalarText text
  exact ⟨_, settles, settles.eq_iff, fun set => ofEnvironment_level set rfl,
    fun set named => ofEnvironment_backend set rfl (settles.isBlank_eq_false named)⟩

/-- An exponent is written out, and zeros in front of a whole number are dropped. -/
theorem ofEnvironment_settles_thousand :
    ofEnvironment [⟨"HOME", some "/"⟩, ⟨"Mqlite_Admin__Persistence__Backend", some "1e3"⟩] =
        .ok { persistence := ⟨"1000"⟩ } ∧
      ofEnvironment [⟨"MQLITE_ADMIN__LOG__LEVEL", some "-007"⟩] = .ok { log := ⟨"-7"⟩ } := by
  constructor
  · obtain ⟨s, settles, -, -, backend⟩ := ofEnvironment_settles
      [⟨"HOME", some "/"⟩, ⟨"Mqlite_Admin__Persistence__Backend", some "1e3"⟩] "1e3"
    have read : Decimal.Binary64.read? "1e3".toList =
        some (.finite false 8796093022208000 (-43)) := by decide
    obtain ⟨rfl, -⟩ := settles.float (by decide) _ read
    exact backend ⟨⟨"Mqlite_Admin__Persistence__Backend", some "1e3"⟩, by decide, by decide, rfl⟩
      (by decide)
  · obtain ⟨s, settles, -, level, -⟩ := ofEnvironment_settles
      [⟨"MQLITE_ADMIN__LOG__LEVEL", some "-007"⟩] "-007"
    have read : Decimal.signedWord? "-007".toList = some (-7) := by decide
    obtain ⟨rfl, -⟩ := settles.integer _ read
    exact level ⟨⟨"MQLITE_ADMIN__LOG__LEVEL", some "-007"⟩, by decide, by decide, rfl⟩

/-- A plus sign is dropped, so another backend is named than the variable holds. -/
theorem ofEnvironment_unsigned_backend :
    let env : Environment := [⟨"MQLITE_ADMIN__PERSISTENCE__BACKEND", some "+5"⟩]
    env.SetsOnly .backend "+5" ∧ Text.isBlank "+5" = false ∧
      ofEnvironment env = .ok { persistence := ⟨"5"⟩ } ∧ "5" ≠ "+5" := by
  intro env
  have set : env.SetsOnly .backend "+5" :=
    ⟨⟨"MQLITE_ADMIN__PERSISTENCE__BACKEND", some "+5"⟩, by decide, by decide, rfl⟩
  exact ⟨set, by decide, ofEnvironment_backend set (by decide) (by decide), by decide⟩

end Settings

end BrokerAdmin
