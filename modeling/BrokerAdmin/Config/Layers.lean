import BrokerAdmin.Config.Settings
import BrokerAdmin.Layered.Tree

set_option autoImplicit false

/-!
The layers that settings are put together from: the defaults at the bottom, and at the top the
variables whose names begin with a mark of their own.
-/

namespace BrokerAdmin

def Tree.ofSettings (s : Settings) : Tree :=
  .table [
    ("log", .table [("level", .scalar (.text s.log.level) false)]),
    ("admin", .table [
      ("default_page_size", .scalar (.integer s.admin.defaultPageSize.toNat) false),
      ("max_page_size", .scalar (.integer s.admin.maxPageSize.toNat) false)]),
    ("persistence", .table [("backend", .scalar (.text s.persistence.backend) false)])]

/-- What the names of variables begin with that count as settings, in lower case. -/
def variableMark : List Char := "mqlite_admin__".toList

end BrokerAdmin
