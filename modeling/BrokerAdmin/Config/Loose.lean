import BrokerAdmin.Config.Settings
import BrokerAdmin.Layered.Convert

set_option autoImplicit false

/-!
Settings from a tree of layers, section by section. What a section does not say takes its default.
-/

namespace BrokerAdmin.Loose

namespace Section

def log : Section := ⟨"log", "struct LogConfig"⟩

def admin : Section := ⟨"admin", "struct AdminConfig"⟩

def persistence : Section := ⟨"persistence", "struct PersistenceConfig"⟩

end Section

def log (field : Nat → String → Option Place) : Except Mismatch LogSettings := do
  let level ← orDefault text ({} : LogSettings).level (field 0 "level")
  return { level }

def admin (field : Nat → String → Option Place) : Except Mismatch AdminSettings := do
  let defaultPageSize ←
    orDefault size ({} : AdminSettings).defaultPageSize (field 0 "default_page_size")
  let maxPageSize ← orDefault size ({} : AdminSettings).maxPageSize (field 1 "max_page_size")
  return { defaultPageSize, maxPageSize }

def persistence (field : Nat → String → Option Place) : Except Mismatch PersistenceSettings := do
  let backend ← orDefault text ({} : PersistenceSettings).backend (field 0 "backend")
  return { backend }

def settings (t : Tree) : Except Mismatch Settings := do
  let log ← readSection t .log {} log
  let admin ← readSection t .admin {} admin
  let persistence ← readSection t .persistence {} persistence
  return { log, admin, persistence }

end BrokerAdmin.Loose
