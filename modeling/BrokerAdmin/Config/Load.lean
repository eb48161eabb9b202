import BrokerAdmin.Config.Layers
import BrokerAdmin.Config.Loose
import BrokerAdmin.Config.Strict
import BrokerAdmin.Config.Template
import BrokerAdmin.Toml.Document
import BrokerAdmin.Toml.Tagged

set_option autoImplicit false

/-!
Where settings come from. A text alone is read strictly. A file is read loosely: its values lie over
the defaults, and the environment lies over both. Placeholders in a text are filled in first, and
no settings are given that fail to keep their bounds.
-/

namespace BrokerAdmin

inductive ReadFailure where
  | isDirectory
  | notUnicode
  deriving DecidableEq, Repr

def ReadFailure.message : ReadFailure → String
  | .isDirectory => "Is a directory (os error 21)"
  | .notUnicode => "stream did not contain valid UTF-8"

/-- Why there are no settings. `notSettings` is a text that is no document or no settings,
`notDocument` a file that is no document, and `notTable` a file that only carries a date or
time. -/
inductive ConfigError where
  | unreadable (reason : ReadFailure)
  | notDocument
  | notTable (moment : String)
  | mistyped (m : Loose.Mismatch)
  | notSettings
  | invalid (i : InvalidSetting)
  deriving DecidableEq, Repr

namespace ConfigError

/-- The stage at which settings failed: reading a file, putting layers together, or judging the
result. -/
inductive Stage where
  | reading
  | loading
  | judging
  deriving DecidableEq, Repr

def Stage.label : Stage → String
  | .reading => "IO error"
  | .loading => "Config error"
  | .judging => "Validation error"

def stage : ConfigError → Stage
  | .unreadable _ => .reading
  | .notDocument | .notTable _ | .mistyped _ => .loading
  | .notSettings | .invalid _ => .judging

def detail : ConfigError → String
  | .unreadable reason => reason.message
  | .notDocument | .notSettings => "TOML parse error"
  | .notTable moment => "invalid type: string " ++ Text.quote moment ++ ", expected a map"
  | .mistyped m => m.message
  | .invalid i => i.message

def message (e : ConfigError) : String := e.stage.label ++ ": " ++ e.detail

end ConfigError

namespace Settings

def checked (s : Settings) : Except ConfigError Settings :=
  match s.validate with
  | .ok () => .ok s
  | .error i => .error (.invalid i)

def parse (env : Environment) (content : String) : Except ConfigError Settings :=
  match (Toml.parse (Template.fill env content)).bind Strict.settings? with
  | some s => s.checked
  | none => .error .notSettings

end Settings

inductive ConfigFile where
  | missing
  | directory
  | bytes (content : ByteArray)
  | text (content : String)

namespace ConfigFile

def read : ConfigFile → Except ReadFailure (Option String)
  | .missing => .ok none
  | .directory => .error .isDirectory
  | .text content => .ok (some content)
  | .bytes content =>
    match String.fromUTF8? content with
    | some s => .ok (some s)
    | none => .error .notUnicode

def baseTree (env : Environment) : Option String → Except ConfigError Tree
  | none => .ok (.ofSettings {})
  | some content =>
    match (Toml.parse (Template.fill env content)).bind fun es => (Toml.Value.table es).untag? with
    | some (.table es) => .ok (Tree.overlayDocument es (.ofSettings {}))
    | some (.moment t) => .error (.notTable t)
    | _ => .error .notDocument

end ConfigFile

namespace Settings

def ofTree (t : Tree) : Except ConfigError Settings :=
  match Loose.settings t with
  | .ok s => s.checked
  | .error m => .error (.mistyped m)

/-- The settings of a file under an environment. A missing file is an empty one. -/
def load (env : Environment) (file : ConfigFile) : Except ConfigError Settings :=
  match file.read with
  | .error reason => .error (.unreadable reason)
  | .ok content => do
    ofTree ((← ConfigFile.baseTree env content).overlayEnvironment variableMark env)

def ofEnvironment (env : Environment) : Except ConfigError Settings := load env .missing

end Settings

end BrokerAdmin
