import BrokerAdmin.Config.Settings
import BrokerAdmin.Toml.Decode

set_option autoImplicit false

/-!
Settings straight from a TOML document, section by section. Names that no setting has are ignored,
and missing settings take their defaults.
-/

namespace BrokerAdmin.Strict

open Toml (Value)

def log? (v : Value) : Option LogSettings := do
  let field ← section? v
  let level ← orDefault text? ({} : LogSettings).level (field 0 "level")
  return { level }

def admin? (v : Value) : Option AdminSettings := do
  let field ← section? v
  let defaultPageSize ←
    orDefault size? ({} : AdminSettings).defaultPageSize (field 0 "default_page_size")
  let maxPageSize ← orDefault size? ({} : AdminSettings).maxPageSize (field 1 "max_page_size")
  return { defaultPageSize, maxPageSize }

def persistence? (v : Value) : Option PersistenceSettings := do
  let field ← section? v
  let backend ← orDefault text? ({} : PersistenceSettings).backend (field 0 "backend")
  return { backend }

def settings? (entries : List (String × Value)) : Option Settings := do
  let log ← orDefault log? {} (Toml.lookup? entries "log")
  let admin ← orDefault admin? {} (Toml.lookup? entries "admin")
  let persistence ← orDefault persistence? {} (Toml.lookup? entries "persistence")
  return { log, admin, persistence }

end BrokerAdmin.Strict
