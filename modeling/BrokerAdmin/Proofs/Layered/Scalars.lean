import BrokerAdmin.Layered.Convert
import BrokerAdmin.Proofs.Decimal.Digits
import BrokerAdmin.Proofs.Layered.Merging
import BrokerAdmin.Toml.Decode

set_option autoImplicit false

/-!
Scalars, from where they are written to where they are wanted. A variable's text is taken for a
truth value, a whole number or a float, in this order, or for itself. A value of a document that a
strict reader takes is taken by a loose one too, from the tree that the document is laid over.
-/

namespace BrokerAdmin

section Kinds

open Decimal

variable {text : String}

/-- The text is no truth value in any case, no integer and no float. -/
def IsPlainText (text : String) : Prop :=
  (∀ word ∈ ["true", "false"], String.ofList (text.toList.map Char.toLower) ≠ word) ∧
    signedWord? text.toList = none ∧ Binary64.read? text.toList = none

instance : DecidablePred IsPlainText := fun _ => inferInstanceAs (Decidable (_ ∧ _))

/-- The text is the word for a truth value, in any case. -/
def IsTruthWord (text : String) (b : Bool) : Prop :=
  String.ofList (text.toList.map Char.toLower) = toString b

def BeginsNumber (c : Char) : Prop := c.isDigit = true ∨ c = '.' ∨ c = '-' ∨ c = '+'

instance : DecidablePred BeginsNumber := fun _ => inferInstanceAs (Decidable (_ ∨ _))

theorem BeginsNumber.toLower_eq {c : Char} (begins : BeginsNumber c) : c.toLower = c := by
  rcases begins with digit | rfl | rfl | rfl
  · exact toLower_of_not_isUpper (isUpper_of_isDigit digit)
  all_goals decide

theorem IsTruthWord.exists_head {b : Bool} (word : IsTruthWord text b) :
    ∃ c cs, text.toList = c :: cs ∧ ¬ BeginsNumber c := by
  have letters := congrArg String.toList word
  rw [String.toList_ofList] at letters
  have first : ∀ c ∈ (toString b).toList.head?, ¬ BeginsNumber c := by
    cases b <;> rintro c ⟨⟩ <;> decide
  cases cs : text.toList with
  | nil =>
    rw [cs] at letters
    cases b <;> cases letters
  | cons c rest =>
    rw [cs, List.map_cons] at letters
    rw [← letters] at first
    exact ⟨c, rest, rfl, fun begins => first _ rfl (by rwa [begins.toLower_eq])⟩

theorem IsTruthWord.read?_eq_none {b : Bool} (word : IsTruthWord text b) :
    Binary64.read? text.toList = none := by
  obtain ⟨c, cs, letters, other⟩ := word.exists_head
  simp only [BeginsNumber, not_or, Bool.not_eq_true] at other
  obtain ⟨digit, point, minus, plus⟩ := other
  have unsigned : takeSign text.toList = (false, text.toList) := by
    rw [letters]
    exact takeSign_of_unsigned (by simpa using minus) (by simpa using plus)
  have noFraction : fraction? text.toList = none := by
    rw [letters, fraction?_eq_none_of_head digit point]
  unfold Binary64.read?
  rw [unsigned]
  dsimp only
  rw [noFraction]
  dsimp only
  rw [word]
  cases b <;> decide

theorem IsTruthWord.scalarOf_eq {b : Bool} (word : IsTruthWord text b) :
    Tree.scalarOf text = .boolean b := by
  unfold Tree.scalarOf
  dsimp only
  rw [word]
  cases b <;> rfl

/-- What is no truth value is a whole number before it is a float. -/
theorem Tree.scalarOf_of_not_truth (other : ∀ b, ¬ IsTruthWord text b) :
    scalarOf text =
      match signedWord? text.toList with
      | some n => .integer n
      | none =>
        match Binary64.read? text.toList with
        | some x => .float x
        | none => .text text := by
  have notTrue : String.ofList (text.toList.map Char.toLower) ≠ "true" := other true
  have notFalse : String.ofList (text.toList.map Char.toLower) ≠ "false" := other false
  exact (if_neg (by simpa using notTrue)).trans (if_neg (by simpa using notFalse))

theorem IsPlainText.not_truth (plain : IsPlainText text) (b : Bool) : ¬ IsTruthWord text b := by
  cases b with
  | true => exact plain.1 "true" (by simp)
  | false => exact plain.1 "false" (by simp)

theorem isPlainText_of_not_truth (other : ∀ b, ¬ IsTruthWord text b)
    (integer : signedWord? text.toList = none) (float : Binary64.read? text.toList = none) :
    IsPlainText text := by
  refine ⟨fun word mem => ?_, integer, float⟩
  rcases List.mem_pair.1 mem with rfl | rfl
  · exact other true
  · exact other false

theorem Tree.scalarOf_of_plain (plain : IsPlainText text) : scalarOf text = .text text := by
  rw [scalarOf_of_not_truth plain.not_truth, plain.2.1, plain.2.2]

theorem Tree.scalarOf_of_signedWord? {n : Int} (number : signedWord? text.toList = some n) :
    scalarOf text = .integer n := by
  have other : ∀ b, ¬ IsTruthWord text b := by
    intro b word
    obtain ⟨c, mem, digit⟩ := exists_isDigit_of_signedWord? number
    have has : (text.toList.map Char.toLower).any Char.isDigit = true :=
      List.any_eq_true.2
        ⟨c, List.mem_map.2 ⟨c, mem, toLower_of_not_isUpper (isUpper_of_isDigit digit)⟩, digit⟩
    rw [← String.toList_ofList (l := text.toList.map Char.toLower), word] at has
    cases b <;> cases has
  rw [scalarOf_of_not_truth other, number]

theorem Tree.scalarOf_of_read? {x : Binary64} (integer : signedWord? text.toList = none)
    (number : Binary64.read? text.toList = some x) : scalarOf text = .float x := by
  have other : ∀ b, ¬ IsTruthWord text b := by
    intro b word
    cases word.read?_eq_none.symm.trans number
  rw [scalarOf_of_not_truth other, integer, number]

/-- Every text is of one of the kinds. -/
theorem text_cases (text : String) :
    (∃ b, IsTruthWord text b) ∨ (∃ n, signedWord? text.toList = some n) ∨
      (signedWord? text.toList = none ∧ ∃ x, Binary64.read? text.toList = some x) ∨
      IsPlainText text := by
  by_cases truth : ∃ b, IsTruthWord text b
  · exact .inl truth
  · cases integer : signedWord? text.toList with
    | some n => exact .inr (.inl ⟨n, rfl⟩)
    | none =>
      cases float : Binary64.read? text.toList with
      | some x => exact .inr (.inr (.inl ⟨rfl, x, rfl⟩))
      | none =>
        exact .inr (.inr (.inr (isPlainText_of_not_truth (not_exists.1 truth) integer float)))

end Kinds

section Strict

open Strict

variable {v : Toml.Value}

theorem Strict.text?_eq_some {s : String} (read : text? v = some s) : v = .string s := by
  cases v with
  | string s' =>
    cases read
    rfl
  | _ => cases read

theorem Strict.size?_eq_some {size : UInt64} (read : size? v = some size) :
    ∃ n : Int, v = .integer n ∧ 0 ≤ n ∧ size = UInt64.ofNat n.toNat := by
  cases v with
  | integer n =>
    rw [size?] at read
    split at read
    · rename_i nonneg
      cases read
      exact ⟨n, rfl, nonneg, rfl⟩
    · cases read
  | _ => cases read

theorem Strict.orDefault_eq_some {α : Type} {decode : Toml.Value → Option α}
    {o : Option Toml.Value} (typed : ∀ v ∈ o, (decode v).isSome) (default : α) :
    orDefault decode default o = some ((o.bind decode).getD default) := by
  cases o with
  | none => rfl
  | some v =>
    obtain ⟨x, read⟩ := Option.isSome_iff_exists.1 (typed v rfl)
    rw [orDefault, Option.bind_some, read, Option.getD_some]

theorem Loose.size_integer {n : Int} (nonneg : 0 ≤ n) (path : String) (origin : Bool) :
    size ⟨path, some (.scalar (.integer n) origin)⟩ = .ok (UInt64.ofNat n.toNat) := by
  simp only [size, Int.not_lt.2 nonneg, if_false]

/-- A string is the same text to both readers. -/
theorem Loose.text_ofToml {s : String} (strict : text? v = some s) (old : Option Tree)
    (path : String) : text ⟨path, some ((Tree.ofToml v).layOver old)⟩ = .ok s := by
  cases text?_eq_some strict
  rfl

/-- An integer that is not negative is the same size to both readers. -/
theorem Loose.size_ofToml {n : UInt64} (strict : size? v = some n) (old : Option Tree)
    (path : String) : size ⟨path, some ((Tree.ofToml v).layOver old)⟩ = .ok n := by
  obtain ⟨n, rfl, nonneg, rfl⟩ := size?_eq_some strict
  exact size_integer nonneg path false

end Strict

theorem Loose.readSection_of_table {α : Type} {t : Tree} {s : Loose.Section}
    {es : List (String × Tree)} (found : t.child? s.name = some (.table es)) (default : α)
    (read : (Nat → String → Option Place) → Except Mismatch α) :
    readSection t s default read = read fun _ name =>
      ((Tree.table es).child? name).map fun v => ⟨s.name ++ "." ++ name, some v⟩ := by
  rw [readSection, found]
  rfl

end BrokerAdmin
