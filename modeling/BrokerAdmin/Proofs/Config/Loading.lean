import BrokerAdmin.Proofs.Config.Layers

set_option autoImplicit false

/-!
Loading settings from a file and parsing them from a text. Where all layers are of the right kinds,
loading gives the layered settings, unless these miss a bound, and then it reports that bound. Where
no variable counts, parsing a text does the same as loading a file that holds it.
-/

namespace BrokerAdmin

section Bounds

theorem AdminSettings.validate_eq_ok_iff {s : AdminSettings} :
    s.validate = .ok () ↔ 0 < s.defaultPageSize ∧ s.defaultPageSize ≤ s.maxPageSize := by
  unfold validate
  split
  · rename_i zero
    simp [zero]
  · rename_i nonzero
    have positive : 0 < s.defaultPageSize := UInt64.pos_iff_ne_zero.2 nonzero
    split
    · rename_i above
      simp [positive, above]
    · rename_i within
      simpa [positive] using within

theorem PersistenceSettings.validate_eq_ok_iff {s : PersistenceSettings} :
    s.validate = .ok () ↔ Text.isBlank s.backend = false := by
  unfold validate
  split
  · rename_i blank
    simp [blank]
  · rename_i named
    simpa using named

namespace Settings

def InBounds (s : Settings) : Prop :=
  (0 < s.admin.defaultPageSize ∧ s.admin.defaultPageSize ≤ s.admin.maxPageSize) ∧
    Text.isBlank s.persistence.backend = false

instance : DecidablePred InBounds := fun _ => inferInstanceAs (Decidable (_ ∧ _))

theorem validate_eq_ok_iff {s : Settings} : s.validate = .ok () ↔ s.InBounds := by
  rw [InBounds, ← AdminSettings.validate_eq_ok_iff, ← PersistenceSettings.validate_eq_ok_iff,
    validate]
  cases admin : s.admin.validate with
  | error i => simp [bind, Except.bind]
  | ok u => simp [bind, Except.bind]

theorem checked_cases {s : Settings} :
    (s.validate = .ok () ∧ s.checked = .ok s) ∨
      ∃ i, s.validate = .error i ∧ s.checked = .error (.invalid i) := by
  unfold checked
  cases s.validate with
  | ok u => exact .inl ⟨rfl, rfl⟩
  | error i => exact .inr ⟨i, rfl, rfl⟩

end Settings

end Bounds

section Reading

variable {values : (f : Setting) → f.Value}

/-- The tree has every setting, and a reader takes these values from it. -/
def Tree.Holds (t : Tree) (values : (f : Setting) → f.Value) : Prop :=
  ∀ f : Setting, ∃ v, t.leaf? f.table f.name = some v ∧
    ∀ path, f.read ⟨path, some v⟩ = .ok (values f)

namespace Tree.Holds

open Loose (readSection readSection_of_table orDefault)

variable {t : Tree}

theorem orDefault_eq_ok (holds : t.Holds values) {f : Setting} {es : List (String × Tree)}
    (found : t.child? f.table = some (.table es)) (default : f.Value) (path : String) :
    orDefault f.read default (((table es).child? f.name).map fun v => ⟨path, some v⟩) =
      .ok (values f) := by
  obtain ⟨v, here, read⟩ := holds f
  rw [leaf?, found, Option.bind_some] at here
  rw [here]
  exact read path

theorem exists_table (holds : t.Holds values) (f : Setting) :
    ∃ es, t.child? f.table = some (.table es) := by
  obtain ⟨v, here, -⟩ := holds f
  obtain ⟨inner, found, here⟩ := Option.bind_eq_some_iff.1 here
  obtain ⟨es, rfl⟩ := exists_table_of_child? here
  exact ⟨es, found⟩

theorem log (holds : t.Holds values) :
    readSection t .log {} Loose.log = .ok ⟨values .level⟩ := by
  obtain ⟨es, found⟩ := holds.exists_table .level
  rw [readSection_of_table (s := .log) found]
  exact congrArg (fun level => do return LogSettings.mk (← level))
    (holds.orDefault_eq_ok found _ _)

theorem admin (holds : t.Holds values) :
    readSection t .admin {} Loose.admin = .ok ⟨values .defaultPageSize, values .maxPageSize⟩ := by
  obtain ⟨es, found⟩ := holds.exists_table .defaultPageSize
  rw [readSection_of_table (s := .admin) found]
  have standard := holds.orDefault_eq_ok (f := .defaultPageSize) found
  have limit := holds.orDefault_eq_ok (f := .maxPageSize) found
  calc Loose.admin _
      = do return AdminSettings.mk (← Except.ok (values .defaultPageSize))
            (← Except.ok (values .maxPageSize)) := by
        rw [← standard ({} : AdminSettings).defaultPageSize,
          ← limit ({} : AdminSettings).maxPageSize]
        rfl
    _ = .ok ⟨values .defaultPageSize, values .maxPageSize⟩ := rfl

theorem persistence (holds : t.Holds values) :
    readSection t .persistence {} Loose.persistence = .ok ⟨values .backend⟩ := by
  obtain ⟨es, found⟩ := holds.exists_table .backend
  rw [readSection_of_table (s := .persistence) found]
  exact congrArg (fun backend => do return PersistenceSettings.mk (← backend))
    (holds.orDefault_eq_ok found _ _)

theorem settings (holds : t.Holds values) : Loose.settings t = .ok (.ofValues values) := by
  rw [Loose.settings, holds.log, holds.admin, holds.persistence]
  rfl

end Tree.Holds

namespace Strict

variable {es : List (String × Toml.Value)}

theorem layered_of_no_table {f : Setting} (missing : Toml.lookup? es f.table = none) :
    f.layered [] es = f.default := by
  apply Setting.layered_of_neither rfl
  rw [Toml.leaf?, missing, Option.bind_none]

theorem orDefault_ofToml? (document : Toml.IsSettings es) {f : Setting}
    {inner : List (String × Toml.Value)} (found : Toml.lookup? es f.table = some (.table inner)) :
    orDefault f.ofToml? f.default (Toml.lookup? inner f.name) = some (f.layered [] es) := by
  have leaf : Toml.leaf? es f.table f.name = Toml.lookup? inner f.name := by
    rw [Toml.leaf?, found]
    rfl
  rw [← leaf, orDefault_eq_some (document.typed f)]
  rfl

theorem orDefault_part (document : Toml.IsSettings es) (f : Setting) {α : Type}
    {decode : Toml.Value → Option α} {default x : α}
    (absent : Toml.lookup? es f.table = none → default = x)
    (present : ∀ inner, Toml.lookup? es f.table = some (.table inner) →
      decode (.table inner) = some x) :
    orDefault decode default (Toml.lookup? es f.table) = some x := by
  cases found : Toml.lookup? es f.table with
  | none => rw [orDefault, absent found]
  | some v =>
    obtain ⟨inner, rfl⟩ := document.tables f v found
    exact present inner found

theorem log_eq_some (document : Toml.IsSettings es) :
    orDefault log? {} (Toml.lookup? es "log") = some ⟨Setting.level.layered [] es⟩ := by
  refine orDefault_part document .level (fun missing => ?_) fun inner found => ?_
  · rw [layered_of_no_table missing]
    rfl
  · exact congrArg (fun level => do return LogSettings.mk (← level))
      (orDefault_ofToml? document (f := .level) found)

theorem admin_eq_some (document : Toml.IsSettings es) :
    orDefault admin? {} (Toml.lookup? es "admin") =
      some ⟨Setting.defaultPageSize.layered [] es, Setting.maxPageSize.layered [] es⟩ := by
  refine orDefault_part document .defaultPageSize (fun missing => ?_) fun inner found => ?_
  · rw [layered_of_no_table missing, layered_of_no_table (f := .maxPageSize) missing]
    rfl
  · have standard := orDefault_ofToml? document (f := .defaultPageSize) found
    have limit := orDefault_ofToml? document (f := .maxPageSize) found
    calc admin? (.table inner)
        = do return AdminSettings.mk (← some (Setting.defaultPageSize.layered [] es))
              (← some (Setting.maxPageSize.layered [] es)) := by
          rw [← standard, ← limit]
          rfl
      _ = some ⟨Setting.defaultPageSize.layered [] es, Setting.maxPageSize.layered [] es⟩ := rfl

theorem persistence_eq_some (document : Toml.IsSettings es) :
    orDefault persistence? {} (Toml.lookup? es "persistence") =
      some ⟨Setting.backend.layered [] es⟩ := by
  refine orDefault_part document .backend (fun missing => ?_) fun inner found => ?_
  · rw [layered_of_no_table missing]
    rfl
  · exact congrArg (fun backend => do return PersistenceSettings.mk (← backend))
      (orDefault_ofToml? document (f := .backend) found)

theorem settings?_eq_some (document : Toml.IsSettings es) :
    settings? es = some (.layered [] es) := by
  rw [settings?, log_eq_some document, admin_eq_some document, persistence_eq_some document]
  rfl

end Strict

end Reading

namespace ConfigFile

/-- The document that a file has under an environment. A missing file has an empty one. -/
def Gives (file : ConfigFile) (env : Environment) (es : List (String × Toml.Value)) : Prop :=
  match file.read with
  | .ok none => es = []
  | .ok (some content) => Toml.parse (Template.fill env content) = some es
  | .error _ => False

end ConfigFile

section Layered

variable {env : Environment} {es : List (String × Toml.Value)}

theorem Tree.holds_layers (distinct : (Toml.Value.table es).Distinct)
    (document : Toml.IsSettings es) (overrides : env.Overrides)
    (accepted : ∀ f, ∀ text ∈ env.override? f, f.Accepts text) :
    ((overlayDocument es (ofSettings {})).overlayEnvironment variableMark env).Holds
      fun f => f.layered env es := by
  intro f
  change ∃ v, _ ∧ ∀ path, f.read ⟨path, some v⟩ = .ok (f.layered env es)
  rw [leaf?_overlayEnvironment overrides,
    leaf?_overlayDocument distinct document.plain (document.tables f)]
  cases set : env.override? f with
  | some text =>
    obtain ⟨x, value, read⟩ := Setting.read_ofText (accepted f text set)
    rw [Setting.layered_of_override set value]
    exact ⟨_, rfl, read⟩
  | none =>
    cases leaf : Toml.leaf? es f.table f.name with
    | some v =>
      obtain ⟨x, value⟩ := Option.isSome_iff_exists.1 (document.typed f v leaf)
      rw [Setting.layered_of_leaf set leaf value]
      exact ⟨_, rfl, Setting.read_ofToml value _⟩
    | none =>
      rw [Setting.layered_of_neither set leaf]
      exact leaf?_ofSettings f

theorem ConfigFile.baseTree_of_parse {content : String}
    (parsed : Toml.parse (Template.fill env content) = some es) (document : Toml.IsSettings es) :
    baseTree env (some content) = .ok (Tree.overlayDocument es (.ofSettings {})) := by
  have untagged := Toml.Value.untag?_eq_some
    (document.plain.imp fun names plain tag => (plain _ tag).2.2.2 rfl)
  rw [baseTree, parsed, Option.bind_some, untagged]

theorem ConfigFile.Gives.baseTree {file : ConfigFile} (gives : file.Gives env es)
    (document : Toml.IsSettings es) :
    (Toml.Value.table es).Distinct ∧ ∃ content, file.read = .ok content ∧
      ConfigFile.baseTree env content = .ok (Tree.overlayDocument es (.ofSettings {})) := by
  unfold Gives at gives
  split at gives
  · rename_i read
    subst gives
    exact ⟨.table .nil (by simp), none, read, rfl⟩
  · rename_i content read
    exact ⟨Toml.distinct_of_parse gives, some content, read, baseTree_of_parse gives document⟩
  · exact gives.elim

namespace Settings

theorem load_eq_checked {file : ConfigFile} (gives : file.Gives env es)
    (document : Toml.IsSettings es) (overrides : env.Overrides)
    (accepted : ∀ f, ∀ text ∈ env.override? f, f.Accepts text) :
    load env file = (layered env es).checked := by
  obtain ⟨distinct, content, read, base⟩ := gives.baseTree document
  have holds := Tree.holds_layers distinct document overrides accepted
  unfold load
  rw [read]
  change (ConfigFile.baseTree env content >>= fun t =>
    ofTree (t.overlayEnvironment variableMark env)) = _
  rw [base]
  change ofTree (Tree.overlayEnvironment variableMark env _) = _
  rw [ofTree, holds.settings]
  rfl

theorem parse_eq_checked {content : String}
    (parsed : Toml.parse (Template.fill env content) = some es) (document : Toml.IsSettings es) :
    parse env content = (layered [] es).checked := by
  rw [parse, parsed, Option.bind_some, Strict.settings?_eq_some document]

theorem layered_of_unset (unset : ∀ v ∈ env, ¬ v.Counts) :
    layered env es = layered [] es := by
  have values : (fun f : Setting => f.layered env es) = fun f => f.layered [] es := by
    funext f
    rw [Setting.layered, Setting.inEnvironment?, Environment.override?_of_unset unset]
    rfl
  rw [layered, values, layered]

/-- Where every layer has values of the right kinds, loading looks for each setting by itself. It
gives all of them if they are in bounds, and reports the bound they miss if they are not. -/
theorem load_layered {file : ConfigFile} (gives : file.Gives env es)
    (document : Toml.IsSettings es) (overrides : env.Overrides)
    (accepted : ∀ f, ∀ text ∈ env.override? f, f.Accepts text) :
    (load env file = .ok (layered env es) ↔ (layered env es).InBounds) ∧
      (¬ (layered env es).InBounds → ∃ i, (layered env es).validate = .error i ∧
        load env file = .error (.invalid i)) := by
  rw [load_eq_checked gives document overrides accepted, ← validate_eq_ok_iff]
  rcases checked_cases (s := layered env es) with ⟨valid, checked⟩ | ⟨i, invalid, checked⟩
  · rw [checked, valid]
    exact ⟨⟨fun _ => rfl, fun _ => rfl⟩, fun invalid => (invalid rfl).elim⟩
  · rw [checked, invalid]
    refine ⟨⟨fun done => ?_, fun valid => ?_⟩, fun _ => ⟨i, rfl, rfl⟩⟩
    · cases done
    · cases valid

/-- A variable takes the place of what a file says, a placeholder is filled in, and a limit below
the page size is found in what comes out. -/
theorem load_layered_overridden :
    let content := "[admin]\nmax_page_size = 60\n[persistence]\nbackend = \"$\x7bSTORE\x7d\""
    let env (limit : String) : Environment := [⟨"STORE", some "disk"⟩,
      ⟨"MQLITE_ADMIN__ADMIN__MAX_PAGE_SIZE", some limit⟩, ⟨"Mqlite_Admin__Log__Level", some "on"⟩]
    load (env "500") (.text content) = .ok ⟨⟨"on"⟩, ⟨20, 500⟩, ⟨"disk"⟩⟩ ∧
      load (env "+5") (.text content) = .error (.invalid (.pageSizeAboveMax 20 5)) := by
  intro content env
  let es : List (String × Toml.Value) :=
    [("admin", .table [("max_page_size", .integer 60)]),
      ("persistence", .table [("backend", .string "disk")])]
  have document : Toml.IsSettings es := by
    refine ⟨.table (by decide) ?_, ?_, ?_⟩
    · refine List.forall_mem_cons.2 ⟨.table (by decide) ?_, List.forall_mem_singleton.2
        (.table (by decide) ?_)⟩
      · exact List.forall_mem_singleton.2 (.integer 60)
      · exact List.forall_mem_singleton.2 (.string "disk")
    · rintro f v given
      cases f <;> cases given <;> exact ⟨_, rfl⟩
    · rintro f v given
      cases f <;> cases given <;> rfl
  have gives (limit : String)
      (parsed : Toml.parse (Template.fill (env limit) content) = some es) :
      ConfigFile.Gives (.text content) (env limit) es := parsed
  have large := load_layered (gives "500" (by decide +kernel)) document ⟨by decide, by decide⟩
    (by decide)
  have small := load_layered (gives "+5" (by decide +kernel)) document ⟨by decide, by decide⟩
    (by decide)
  have settings : layered (env "500") es = ⟨⟨"on"⟩, ⟨20, 500⟩, ⟨"disk"⟩⟩ := by decide
  have inBounds : (layered (env "500") es).InBounds := by decide
  refine ⟨settings ▸ large.1.2 inBounds, ?_⟩
  obtain ⟨i, invalid, done⟩ := small.2 (by decide)
  have missed : (layered (env "+5") es).validate = .error (.pageSizeAboveMax 20 5) := by decide
  cases missed.symm.trans invalid
  exact done

/-- Where no variable counts, a text is parsed to the same end as a file that holds it is loaded:
to the same settings, or to the same bound that they miss. -/
theorem load_eq_parse {file : ConfigFile} {content : String} (read : file.read = .ok (some content))
    (parsed : Toml.parse (Template.fill env content) = some es) (document : Toml.IsSettings es)
    (unset : ∀ v ∈ env, ¬ v.Counts) :
    load env file = parse env content ∧
      ((∃ s, parse env content = .ok s) ∨ ∃ i, parse env content = .error (.invalid i)) := by
  have gives : file.Gives env es := by
    rw [ConfigFile.Gives, read]
    exact parsed
  have accepted : ∀ f, ∀ text ∈ env.override? f, f.Accepts text := by
    intro f text set
    rw [Environment.override?_of_unset unset] at set
    cases set
  have loaded := load_eq_checked gives document (Environment.overrides_of_unset unset) accepted
  rw [layered_of_unset unset] at loaded
  have parsed := parse_eq_checked parsed document
  refine ⟨loaded.trans parsed.symm, ?_⟩
  rcases checked_cases (s := layered [] es) with ⟨-, checked⟩ | ⟨i, -, checked⟩
  · exact .inl ⟨_, parsed.trans checked⟩
  · exact .inr ⟨i, parsed.trans checked⟩

/-- Both readers find the default page size above a limit that the text names. -/
theorem load_eq_parse_partial :
    let content := "title = \"x\"\n[admin]\nmax_page_size = 5\nextra = []"
    let env : Environment := [⟨"HOME", some "/"⟩]
    load env (.text content) = .error (.invalid (.pageSizeAboveMax 20 5)) ∧
      parse env content = .error (.invalid (.pageSizeAboveMax 20 5)) := by
  intro content env
  let es : List (String × Toml.Value) :=
    [("title", .string "x"),
      ("admin", .table [("max_page_size", .integer 5), ("extra", .array [])])]
  have parsed : Toml.parse (Template.fill env content) = some es := by decide +kernel
  have document : Toml.IsSettings es := by
    refine ⟨.table (by decide) ?_, ?_, ?_⟩
    · refine List.forall_mem_cons.2 ⟨.string "x", List.forall_mem_singleton.2
        (.table (by decide) ?_)⟩
      exact List.forall_mem_cons.2 ⟨.integer 5, List.forall_mem_singleton.2 (.array (by simp))⟩
    · rintro f v given
      cases f <;> cases given <;> exact ⟨_, rfl⟩
    · rintro f v given
      cases f <;> cases given
      rfl
  have read : (ConfigFile.text content).read = .ok (some content) := rfl
  obtain ⟨same, -⟩ := load_eq_parse read parsed document (by decide)
  have missed : (layered [] es).validate = .error (.pageSizeAboveMax 20 5) := by decide
  have refused : parse env content = .error (.invalid (.pageSizeAboveMax 20 5)) := by
    rw [parse_eq_checked parsed document, checked, missed]
  exact ⟨same.trans refused, refused⟩

end Settings

end Layered

end BrokerAdmin
