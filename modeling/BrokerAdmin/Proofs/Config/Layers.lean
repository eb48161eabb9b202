import BrokerAdmin.Config.Load
import BrokerAdmin.Proofs.Layered.Scalars
import BrokerAdmin.Proofs.Layered.Variables
import Mathlib.Data.Fintype.Defs

set_option autoImplicit false

/-!
The layers of the settings: the defaults, a document over them and the environment over both. Each
setting is looked up by itself, first in the environment, then in the document, then among the
defaults. Where every layer has values of the right kind, that is what a reader finds in the tree
of all layers, and without the environment what a strict reader finds in the document.
-/

namespace BrokerAdmin

inductive Setting where
  | level
  | defaultPageSize
  | maxPageSize
  | backend
  deriving DecidableEq, Repr

namespace Setting

instance : Fintype Setting where
  elems := ⟨[level, defaultPageSize, maxPageSize, backend], by decide⟩
  complete f := by cases f <;> decide

def table : Setting → String
  | .level => "log"
  | .defaultPageSize | .maxPageSize => "admin"
  | .backend => "persistence"

def name : Setting → String
  | .level => "level"
  | .defaultPageSize => "default_page_size"
  | .maxPageSize => "max_page_size"
  | .backend => "backend"

def variableName (f : Setting) : String := "mqlite_admin__" ++ f.table ++ "__" ++ f.name

abbrev Value : Setting → Type
  | .level | .backend => String
  | .defaultPageSize | .maxPageSize => UInt64

def default : (f : Setting) → f.Value
  | .level => ({} : Settings).log.level
  | .defaultPageSize => ({} : Settings).admin.defaultPageSize
  | .maxPageSize => ({} : Settings).admin.maxPageSize
  | .backend => ({} : Settings).persistence.backend

/-- A value of a document, if it is of the setting's kind: a string, or an integer that is not
negative. -/
def ofToml? : (f : Setting) → Toml.Value → Option f.Value
  | .level | .backend => Strict.text?
  | .defaultPageSize | .maxPageSize => Strict.size?

def ofText? : (f : Setting) → String → Option f.Value
  | .level, text | .backend, text => some text
  | .defaultPageSize, text | .maxPageSize, text =>
    (Decimal.signedWord? text.toList).bind fun n => Strict.size? (.integer n)

def read : (f : Setting) → Loose.Place → Except Loose.Mismatch f.Value
  | .level | .backend => Loose.text
  | .defaultPageSize | .maxPageSize => Loose.size

end Setting

def Settings.ofValues (values : (f : Setting) → f.Value) : Settings where
  log := ⟨values .level⟩
  admin := ⟨values .defaultPageSize, values .maxPageSize⟩
  persistence := ⟨values .backend⟩

section Variables

def Setting.Accepts : Setting → String → Prop
  | .level, text | .backend, text => IsPlainText text
  | .defaultPageSize, text | .maxPageSize, text => ∃ n ∈ Decimal.signedWord? text.toList, 0 ≤ n

instance (f : Setting) (text : String) : Decidable (f.Accepts text) :=
  match f with
  | .level | .backend => inferInstanceAs (Decidable (IsPlainText text))
  | .defaultPageSize | .maxPageSize =>
    inferInstanceAs (Decidable (∃ n ∈ Decimal.signedWord? text.toList, 0 ≤ n))

/-- The variable counts as configuration: its name begins with the mark, in any case. -/
def Variable.Counts (v : Variable) : Prop := variableMark <+: (Tree.lower v.name).toList

def Variable.Names (v : Variable) (f : Setting) : Prop := Tree.lower v.name = f.variableName

instance : DecidablePred Variable.Counts := fun _ => inferInstanceAs (Decidable (_ <+: _))

instance (v : Variable) (f : Setting) : Decidable (v.Names f) :=
  inferInstanceAs (Decidable (_ = _))

def Environment.override? (env : Environment) (f : Setting) : Option String :=
  (env.find? fun v => v.Names f).bind (·.value)

/-- Variables that count are variables of settings, at most one for each, and have a text. -/
structure Environment.Overrides (env : Environment) : Prop where
  named : ∀ v ∈ env, v.Counts → v.value.isSome ∧ ∃ f, v.Names f
  once : env.Pairwise fun v w => ∀ f, v.Names f → ¬ w.Names f

end Variables

/-- A document that can be read as settings: what it has for a setting stands in a table and is of
the setting's kind. It may have anything else under names that are plain. -/
structure Toml.IsSettings (es : List (String × Toml.Value)) : Prop where
  plain : (Value.table es).EachTable fun names => ∀ name ∈ names, Tree.PlainName name
  tables : ∀ f : Setting, ∀ v ∈ lookup? es f.table, ∃ inner, v = .table inner
  typed : ∀ f : Setting, ∀ v ∈ leaf? es f.table f.name, (f.ofToml? v).isSome

namespace Setting

def inEnvironment? (f : Setting) (env : Environment) : Option f.Value :=
  (env.override? f).bind f.ofText?

def inDocument? (f : Setting) (es : List (String × Toml.Value)) : Option f.Value :=
  (Toml.leaf? es f.table f.name).bind f.ofToml?

/-- What the environment says, or else the document, or else the default. -/
def layered (f : Setting) (env : Environment) (es : List (String × Toml.Value)) : f.Value :=
  ((f.inEnvironment? env).or (f.inDocument? es)).getD f.default

section Layered

variable {f : Setting} {env : Environment} {es : List (String × Toml.Value)} {x : f.Value}

theorem layered_of_override {text : String} (set : env.override? f = some text)
    (value : f.ofText? text = some x) : f.layered env es = x := by
  rw [layered, inEnvironment?, set, Option.bind_some, value, Option.some_or, Option.getD_some]

theorem layered_of_leaf {v : Toml.Value} (unset : env.override? f = none)
    (leaf : Toml.leaf? es f.table f.name = some v) (value : f.ofToml? v = some x) :
    f.layered env es = x := by
  rw [layered, inEnvironment?, unset, inDocument?, leaf, Option.bind_none, Option.bind_some, value,
    Option.none_or, Option.getD_some]

theorem layered_of_neither (unset : env.override? f = none)
    (missing : Toml.leaf? es f.table f.name = none) : f.layered env es = f.default := by
  rw [layered, inEnvironment?, unset, inDocument?, missing]
  rfl

end Layered

end Setting

def Settings.layered (env : Environment) (es : List (String × Toml.Value)) : Settings :=
  .ofValues fun f => f.layered env es

namespace Setting

theorem isWord_table (f : Setting) : IsWord f.table := by
  cases f <;> exact ⟨by decide, by decide, List.all_eq_true.1 (by decide), by decide⟩

theorem isWord_name (f : Setting) : IsWord f.name := by
  cases f <;> exact ⟨by decide, by decide, List.all_eq_true.1 (by decide), by decide⟩

theorem toList_variableName (f : Setting) :
    f.variableName.toList = variableMark ++ ("__".intercalate [f.table, f.name]).toList := by
  cases f <;> decide

theorem eq_of_place {f g : Setting} (table : f.table = g.table) (name : f.name = g.name) :
    f = g := by
  revert table name
  cases f <;> cases g <;> decide

theorem variableName_injective {f g : Setting} (same : f.variableName = g.variableName) :
    f = g := by
  revert same
  cases f <;> cases g <;> decide

end Setting

namespace Variable

variable {v : Variable} {f : Setting}

theorem Names.unique {g : Setting} (names : v.Names f) (names' : v.Names g) : f = g :=
  Setting.variableName_injective (names.symm.trans names')

theorem Names.toList_eq (names : v.Names f) :
    (Tree.lower v.name).toList =
      variableMark ++ ("__".intercalate [f.table, f.name]).toList := by
  rw [names, f.toList_variableName]

theorem Names.counts (names : v.Names f) : v.Counts :=
  ⟨_, names.toList_eq.symm⟩

end Variable

namespace Environment

variable {env : Environment} {v : Variable}

theorem Overrides.tail (h : Overrides (v :: env)) : env.Overrides where
  named w hw := h.named w (List.mem_cons_of_mem _ hw)
  once := (List.pairwise_cons.1 h.once).2

theorem override?_cons_of_not_names {f : Setting} (other : ¬ v.Names f) :
    override? (v :: env) f = env.override? f := by
  unfold override?
  rw [List.find?_cons_of_neg (by simpa using other)]

theorem override?_eq_none {f : Setting} (others : ∀ w ∈ env, ¬ w.Names f) :
    env.override? f = none := by
  unfold override?
  rw [List.find?_eq_none.2 (by simpa using others), Option.bind_none]

theorem Overrides.override?_cons_of_names (h : Overrides (v :: env)) {f : Setting}
    (names : v.Names f) : override? (v :: env) f = v.value ∧ env.override? f = none := by
  constructor
  · unfold override?
    rw [List.find?_cons_of_pos (by simpa using names), Option.bind_some]
  · exact override?_eq_none fun w hw => (List.pairwise_cons.1 h.once).1 w hw f names

section Unset

variable (unset : ∀ v ∈ env, ¬ v.Counts)

include unset

theorem override?_of_unset (f : Setting) : env.override? f = none :=
  override?_eq_none fun v hv names => unset v hv names.counts

theorem overrides_of_unset : env.Overrides where
  named v hv counts := (unset v hv counts).elim
  once := List.pairwise_of_forall_mem_list fun v hv _ _ _ names =>
    (unset v hv names.counts).elim

end Unset

end Environment

namespace Tree

theorem leaf?_overlayVariable {v : Variable}
    (named : v.Counts → v.value.isSome ∧ ∃ f, v.Names f) (t : Tree) (f : Setting) :
    (t.overlayVariable variableMark v).leaf? f.table f.name =
      if v.Names f then v.value.map fun text => .scalar (scalarOf text) true
      else t.leaf? f.table f.name := by
  by_cases counts : v.Counts
  · obtain ⟨hasText, g, names⟩ := named counts
    obtain ⟨text, value⟩ := Option.isSome_iff_exists.1 hasText
    rw [leaf?_overlayVariable_of_words g.isWord_table g.isWord_name names.toList_eq value, value]
    by_cases same : g = f
    · subst same
      rw [if_pos ⟨rfl, rfl⟩, if_pos names, Option.map_some]
    · rw [if_neg fun place => same (Setting.eq_of_place place.1 place.2),
        if_neg fun names' => same (names.unique names')]
  · rw [overlayVariable_of_unmarked counts, if_neg fun names => counts names.counts]

/-- The environment decides the settings it has a variable for, and leaves the others. -/
theorem leaf?_overlayEnvironment {env : Environment} (overrides : env.Overrides) (t : Tree)
    (f : Setting) :
    (t.overlayEnvironment variableMark env).leaf? f.table f.name =
      ((env.override? f).map fun text => .scalar (scalarOf text) true).or
        (t.leaf? f.table f.name) := by
  induction env generalizing t with
  | nil => rfl
  | cons v env ih =>
    have named := overrides.named v List.mem_cons_self
    change ((t.overlayVariable variableMark v).overlayEnvironment variableMark env).leaf?
      f.table f.name = _
    rw [ih overrides.tail, leaf?_overlayVariable named]
    by_cases names : v.Names f
    · obtain ⟨here, behind⟩ := overrides.override?_cons_of_names names
      obtain ⟨text, value⟩ := Option.isSome_iff_exists.1 (named names.counts).1
      rw [if_pos names, here, behind, value]
      rfl
    · rw [if_neg names, Environment.override?_cons_of_not_names names]

theorem leaf?_ofSettings (f : Setting) :
    ∃ v, (ofSettings {}).leaf? f.table f.name = some v ∧
      ∀ path, f.read ⟨path, some v⟩ = .ok f.default := by
  cases f with
  | level => exact ⟨_, rfl, fun _ => rfl⟩
  | defaultPageSize => exact ⟨_, rfl, fun _ => rfl⟩
  | maxPageSize => exact ⟨_, rfl, fun _ => rfl⟩
  | backend => exact ⟨_, rfl, fun _ => rfl⟩

end Tree

namespace Setting

/-- What a strict reader takes from a value of a document, a loose one takes from its place in the
tree. -/
theorem read_ofToml {f : Setting} {v : Toml.Value} {x : f.Value} (typed : f.ofToml? v = some x)
    (old : Option Tree) (path : String) :
    f.read ⟨path, some ((Tree.ofToml v).layOver old)⟩ = .ok x := by
  cases f with
  | level | backend => exact Loose.text_ofToml typed old path
  | defaultPageSize | maxPageSize => exact Loose.size_ofToml typed old path

theorem read_ofText {f : Setting} {text : String} (accepts : f.Accepts text) :
    ∃ x, f.ofText? text = some x ∧
      ∀ path, f.read ⟨path, some (.scalar (Tree.scalarOf text) true)⟩ = .ok x := by
  cases f with
  | level | backend =>
    rw [Tree.scalarOf_of_plain accepts]
    exact ⟨text, rfl, fun _ => rfl⟩
  | defaultPageSize | maxPageSize =>
    obtain ⟨n, number, nonneg⟩ := accepts
    rw [Tree.scalarOf_of_signedWord? number]
    refine ⟨UInt64.ofNat n.toNat, ?_, fun path => Loose.size_integer nonneg path true⟩
    rw [ofText?, Option.mem_def.1 number, Option.bind_some, Strict.size?, if_pos nonneg]

end Setting

end BrokerAdmin
