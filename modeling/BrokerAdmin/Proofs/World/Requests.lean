import BrokerAdmin.World.Basic

set_option autoImplicit false

/-!
Requests for pages as numbers without a bound: which page is meant, and how large it is.
-/

namespace BrokerAdmin

/-- The page size that a request gets. -/
def AdminSettings.effectivePageSize (s : AdminSettings) (pageSize : UInt32) : Nat :=
  if pageSize = 0 then s.defaultPageSize.toNat else min pageSize.toNat s.maxPageSize.toNat

theorem toNat_min (a b : UInt64) : (min a b).toNat = min a.toNat b.toNat := by
  change (if a ≤ b then a else b).toNat = _
  split
  · rename_i le
    exact (Nat.min_eq_left le).symm
  · rename_i gt
    exact (Nat.min_eq_right (Nat.le_of_not_le gt)).symm

namespace World

variable (w : World) (page pageSize : UInt32)

theorem toNat_page_request : (w.request page pageSize).page.toNat = max page.toNat 1 := by
  unfold request PageRequest.normalize
  by_cases zero : page = 0
  · simp [zero]
  · have : page.toNat ≠ 0 := fun eq => zero (UInt32.toNat.inj eq)
    rw [if_neg zero, UInt32.toNat_toUInt64]
    omega

theorem toNat_pageSize_request :
    (w.request page pageSize).pageSize.toNat = w.settings.effectivePageSize pageSize := by
  unfold request PageRequest.normalize AdminSettings.effectivePageSize
  by_cases zero : pageSize = 0
  · rw [if_pos zero, if_pos zero]
  · rw [if_neg zero, if_neg zero, toNat_min, UInt32.toNat_toUInt64]

end World

end BrokerAdmin
