set_option autoImplicit false

/-!
Pages of a listing. A page is numbered from one; its window is the part of the listing it shows.
Window arithmetic is on 64-bit words and saturates, so an absurd page number lies past every
listing instead of wrapping around to its beginning.
-/

namespace BrokerAdmin

/-- The entries at positions `start`, `start + 1`, …, at most `size` of them. -/
structure Window where
  start : UInt64
  size : UInt64
  deriving DecidableEq, Repr

def saturatingMul (a b : UInt64) : UInt64 :=
  UInt64.ofNat (min (a.toNat * b.toNat) (UInt64.size - 1))

/-- The number of pages before `page`, where page zero counts as the first. -/
def pagesBefore (page : UInt64) : UInt64 := if page = 0 then 0 else page - 1

def Window.ofPage (page size : UInt64) : Window := ⟨saturatingMul (pagesBefore page) size, size⟩

/-- Size of a page when a request names none. -/
def defaultPageSize : UInt64 := 20

/-- Largest size of a page unless configured otherwise. -/
def defaultMaxPageSize : UInt64 := 1000

structure PageRequest where
  page : UInt64
  pageSize : UInt64
  deriving DecidableEq, Repr

namespace PageRequest

instance : Inhabited PageRequest := ⟨⟨1, defaultPageSize⟩⟩

/-- The request a caller means: page zero is the first page, page size zero asks for `standard`,
and a page size above `limit` is cut down to it. -/
def normalize (page pageSize : UInt32) (standard limit : UInt64) : PageRequest where
  page := if page = 0 then 1 else page.toUInt64
  pageSize := if pageSize = 0 then standard else min pageSize.toUInt64 limit

def window (r : PageRequest) : Window := Window.ofPage r.page r.pageSize

end PageRequest

structure Page (α : Type) where
  items : List α
  totalCount : Nat
  deriving DecidableEq, Repr

def Page.empty {α : Type} (totalCount : Nat) : Page α := ⟨[], totalCount⟩

def Page.map {α β : Type} (f : α → β) (p : Page α) : Page β := ⟨p.items.map f, p.totalCount⟩

theorem saturatingMul_toNat (a b : UInt64) :
    (saturatingMul a b).toNat = min (a.toNat * b.toNat) (UInt64.size - 1) := by
  unfold saturatingMul
  rw [UInt64.toNat_ofNat_of_lt']
  exact Nat.lt_of_le_of_lt (Nat.min_le_right _ _) (by decide)

theorem pagesBefore_toNat (page : UInt64) : (pagesBefore page).toNat = page.toNat - 1 := by
  unfold pagesBefore
  split
  · simp_all
  · rename_i h
    have : 1 ≤ page := by
      rw [UInt64.le_iff_toNat_le]
      have : page.toNat ≠ 0 := fun e => h (UInt64.toNat.inj e)
      simpa using Nat.one_le_iff_ne_zero.2 this
    simp [UInt64.toNat_sub_of_le _ _ this]

end BrokerAdmin
