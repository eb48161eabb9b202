import BrokerAdmin.Page
import BrokerAdmin.Text.Blank

set_option autoImplicit false

/-!
The settings of the administration and the bounds they have to keep: the page sizes satisfy
`0 < default ≤ max`, and the persistence backend has a name.
-/

namespace BrokerAdmin

structure LogSettings where
  level : String := "info"
  deriving DecidableEq, Repr, Inhabited

/-- Page sizes of the listings: the one used when a request names none, and the largest served. -/
structure AdminSettings where
  defaultPageSize : UInt64 := BrokerAdmin.defaultPageSize
  maxPageSize : UInt64 := BrokerAdmin.defaultMaxPageSize
  deriving DecidableEq, Repr, Inhabited

structure PersistenceSettings where
  backend : String := "memory"
  deriving DecidableEq, Repr, Inhabited

structure Settings where
  log : LogSettings := {}
  admin : AdminSettings := {}
  persistence : PersistenceSettings := {}
  deriving DecidableEq, Repr, Inhabited

inductive InvalidSetting where
  | zeroPageSize
  | pageSizeAboveMax (default max : UInt64)
  | blankBackend
  deriving DecidableEq, Repr

def InvalidSetting.message : InvalidSetting → String
  | .zeroPageSize => "admin.default_page_size must be greater than 0"
  | .pageSizeAboveMax default max =>
    "admin.max_page_size (" ++ toString max.toNat ++
      ") must be at least admin.default_page_size (" ++ toString default.toNat ++ ")"
  | .blankBackend => "persistence.backend must not be empty"

def AdminSettings.validate (s : AdminSettings) : Except InvalidSetting Unit :=
  if s.defaultPageSize = 0 then .error .zeroPageSize
  else if s.maxPageSize < s.defaultPageSize then
    .error (.pageSizeAboveMax s.defaultPageSize s.maxPageSize)
  else .ok ()

def PersistenceSettings.validate (s : PersistenceSettings) : Except InvalidSetting Unit :=
  if Text.isBlank s.backend then .error .blankBackend else .ok ()

/-- The first bound that is not kept, page sizes before the backend. -/
def Settings.validate (s : Settings) : Except InvalidSetting Unit := do
  s.admin.validate
  s.persistence.validate

end BrokerAdmin
