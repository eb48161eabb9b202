import BrokerAdmin.Metrics.Counters
import Mathlib.Algebra.BigOperators.Group.List.Basic
import Mathlib.Algebra.GroupWithZero.Nat
import Mathlib.Data.List.Induction
import Mathlib.Order.Bounds.Basic

set_option autoImplicit false

/-!
What counters say about the updates that made them. A total is a sum, so the order of the updates
does not matter to it, and a level is what was set last. The number of current subscriptions is how
far the balance of subscriptions begun and ended stands above the lowest it has been. No counter
listens to updates that are meant for others.
-/

namespace BrokerAdmin.Counters

/-- The counters that add up what they are told. -/
inductive Total where
  | packetsReceived
  | bytesReceived
  | packetsSent
  | bytesSent
  | messagesDropped
  | subscriptions
  deriving DecidableEq, Repr

/-- The counters that hold what they were told last. -/
inductive Level where
  | inflight
  | queued
  deriving DecidableEq, Repr

/-- All counters. The gauge is the number of current subscriptions. -/
inductive Counter where
  | total (t : Total)
  | level (l : Level)
  | gauge
  deriving DecidableEq, Repr

def total (c : Counters) : Total → UInt64
  | .packetsReceived => c.packetsReceived
  | .bytesReceived => c.bytesReceived
  | .packetsSent => c.packetsSent
  | .bytesSent => c.bytesSent
  | .messagesDropped => c.messagesDropped
  | .subscriptions => c.subscriptionsTotal

def level (c : Counters) : Level → UInt64
  | .inflight => c.inflightCurrent
  | .queued => c.queuedCurrent

def get (c : Counters) : Counter → UInt64
  | .total t => c.total t
  | .level l => c.level l
  | .gauge => c.subscriptionsCurrent

namespace Update

def adds (u : Update) (t : Total) : Nat :=
  match u with
  | packetReceived bytes =>
    match t with
    | .packetsReceived => 1
    | .bytesReceived => bytes.toNat
    | _ => 0
  | packetSent bytes =>
    match t with
    | .packetsSent => 1
    | .bytesSent => bytes.toNat
    | _ => 0
  | messagesDropped count => if t = .messagesDropped then count.toNat else 0
  | subscribed => if t = .subscriptions then 1 else 0
  | unsubscribed | inflight _ | queued _ => 0

def sets? (u : Update) (l : Level) : Option UInt64 :=
  match u with
  | inflight count => if l = .inflight then some count else none
  | queued count => if l = .queued then some count else none
  | _ => none

/-- What an update makes of the number of current subscriptions. It counts up as words do, and down
as far as zero. -/
def shifts (u : Update) (n : Nat) : Nat :=
  match u with
  | subscribed => (n + 1) % UInt64.size
  | unsubscribed => n - 1
  | _ => n

end Update

def Total.hears : Total → Update → Bool
  | packetsReceived, u | bytesReceived, u => (u matches .packetReceived _)
  | packetsSent, u | bytesSent, u => (u matches .packetSent _)
  | messagesDropped, u => (u matches .messagesDropped _)
  | subscriptions, u => (u matches .subscribed)

def Level.hears : Level → Update → Bool
  | inflight, u => (u matches .inflight _)
  | queued, u => (u matches .queued _)

def Counter.hears : Counter → Update → Bool
  | total t => t.hears
  | level l => l.hears
  | gauge => fun u => (u matches .subscribed | .unsubscribed)

/-- The subscriptions begun less the subscriptions ended. -/
def balance (us : List Update) : Int := us.count .subscribed - us.count .unsubscribed

/-- The number of current subscriptions after the updates, none being current at first. -/
def gauged (us : List Update) : Nat := us.foldl (fun n u => u.shifts n) 0

/-- The balances from the beginning up to the last update. -/
def balances (us : List Update) : Set Int := {d | ∃ i ≤ us.length, balance (us.take i) = d}

section Steps

variable (c : Counters) (u : Update)

theorem total_apply (t : Total) : (c.apply u).total t = c.total t + .ofNat (u.adds t) := by
  cases u with
  | unsubscribed =>
    rw [apply]
    cases t <;> split <;> simp [total, Update.adds]
  | _ => cases t <;> simp [total, apply, Update.adds]

theorem level_apply (l : Level) : (c.apply u).level l = (u.sets? l).getD (c.level l) := by
  cases u with
  | unsubscribed =>
    rw [apply]
    cases l <;> split <;> rfl
  | _ => cases l <;> rfl

theorem get_apply_of_not_hears {k : Counter} (other : k.hears u = false) :
    (c.apply u).get k = c.get k := by
  cases k with
  | total t =>
    have nothing : u.adds t = 0 := by
      cases u <;> cases t <;> simp_all [Counter.hears, Total.hears, Update.adds]
    rw [get, get, total_apply, nothing]
    exact UInt64.add_zero _
  | level l =>
    have nothing : u.sets? l = none := by
      cases u <;> cases l <;> simp_all [Counter.hears, Level.hears, Update.sets?]
    rw [get, get, level_apply, nothing, Option.getD_none]
  | gauge => cases u <;> simp_all [Counter.hears, get, apply]

variable {c} in
theorem get_apply_congr {d : Counters} {k : Counter} (same : c.get k = d.get k) :
    (c.apply u).get k = (d.apply u).get k := by
  cases k with
  | total t =>
    simp only [get] at same ⊢
    rw [total_apply, total_apply, same]
  | level l =>
    simp only [get] at same ⊢
    rw [level_apply, level_apply, same]
  | gauge =>
    simp only [get] at same ⊢
    cases u with
    | unsubscribed =>
      simp only [apply, same]
      split
      · exact same
      · rfl
    | _ => simp only [apply, same]

end Steps

variable {us vs : List Update}

/-- A counter can be told from the updates that it listens to. -/
theorem get_ofUpdates_filter (k : Counter) (us : List Update) :
    (ofUpdates (us.filter k.hears)).get k = (ofUpdates us).get k := by
  induction us using List.reverseRecOn with
  | nil => rfl
  | append_singleton us u ih =>
    rw [List.filter_append, ofUpdates_concat]
    by_cases own : k.hears u = true
    · rw [List.filter_cons_of_pos own, List.filter_nil, ofUpdates_concat]
      exact get_apply_congr u ih
    · rw [List.filter_cons_of_neg own, List.filter_nil, List.append_nil, ih]
      exact (get_apply_of_not_hears _ u (Bool.eq_false_iff.2 own)).symm

theorem total_ofUpdates (t : Total) (us : List Update) :
    (ofUpdates us).total t = .ofNat (us.map (·.adds t)).sum := by
  induction us using List.reverseRecOn with
  | nil => cases t <;> rfl
  | append_singleton us u ih =>
    rw [ofUpdates_concat, total_apply, ih, List.map_append, List.sum_append, List.map_singleton,
      List.sum_singleton, UInt64.ofNat_add]

theorem toNat_total_ofUpdates (t : Total) (us : List Update) :
    ((ofUpdates us).total t).toNat = (us.map (·.adds t)).sum % UInt64.size := by
  rw [total_ofUpdates, UInt64.toNat_ofNat']

theorem sum_adds_subscriptions (us : List Update) :
    (us.map (·.adds .subscriptions)).sum = us.count .subscribed := by
  induction us with
  | nil => rfl
  | cons u us ih =>
    rw [List.map_cons, List.sum_cons, ih, List.count_cons, Nat.add_comm]
    cases u <;> rfl

theorem level_ofUpdates (l : Level) (us : List Update) :
    (ofUpdates us).level l = ((us.filterMap (·.sets? l)).getLast?).getD 0 := by
  induction us using List.reverseRecOn with
  | nil => cases l <;> rfl
  | append_singleton us u ih =>
    rw [ofUpdates_concat, level_apply, ih, List.filterMap_append]
    cases set : u.sets? l with
    | none => simp [set]
    | some n => simp [set]

section Gauge

theorem balance_concat (us : List Update) (u : Update) :
    balance (us ++ [u]) = balance us + balance [u] := by
  simp only [balance, List.count_append]
  omega

theorem balance_singleton_of_not_hears {u : Update} (other : Counter.gauge.hears u = false) :
    balance [u] = 0 := by
  cases u <;> simp_all [Counter.hears, balance]

theorem balances_concat (us : List Update) (u : Update) :
    balances (us ++ [u]) = insert (balance (us ++ [u])) (balances us) := by
  ext d
  have last : (us ++ [u]).take (us.length + 1) = us ++ [u] := List.take_of_length_le (by simp)
  simp only [balances, List.length_append, List.length_singleton, Set.mem_ofPred_eq,
    Set.mem_insert_iff]
  constructor
  · rintro ⟨i, hi, rfl⟩
    rcases Nat.le_succ_iff.1 hi with earlier | rfl
    · exact .inr ⟨i, earlier, by rw [List.take_append_of_le_length earlier]⟩
    · exact .inl (by rw [last])
  · rintro (rfl | ⟨i, hi, rfl⟩)
    · exact ⟨_, Nat.le_refl _, by rw [last]⟩
    · exact ⟨i, Nat.le_succ_of_le hi, by rw [List.take_append_of_le_length hi]⟩

variable {c : Counters}

theorem toNat_gauge_unsubscribed :
    (c.apply .unsubscribed).subscriptionsCurrent.toNat = c.subscriptionsCurrent.toNat - 1 := by
  rw [apply]
  split
  · rename_i none
    rw [none]
    rfl
  · rename_i some
    have begun : 1 ≤ c.subscriptionsCurrent := by
      rw [UInt64.le_iff_toNat_le]
      exact Nat.pos_of_ne_zero fun none => some (UInt64.toNat_inj.1 none)
    exact UInt64.toNat_sub_of_le _ _ begun

theorem toNat_gauge_apply (c : Counters) (u : Update) :
    (c.apply u).subscriptionsCurrent.toNat = u.shifts c.subscriptionsCurrent.toNat := by
  cases u with
  | subscribed => exact UInt64.toNat_add ..
  | unsubscribed => exact toNat_gauge_unsubscribed
  | _ => rfl

theorem toNat_gauge_ofUpdates (us : List Update) :
    (ofUpdates us).subscriptionsCurrent.toNat = gauged us := by
  induction us using List.reverseRecOn with
  | nil => rfl
  | append_singleton us u ih =>
    rw [ofUpdates_concat, toNat_gauge_apply, ih, gauged, gauged, List.foldl_concat]

/-- The gauge stands above the lowest balance. It counts up only with new subscriptions, so it does
not overflow before there are more of these than a word holds. -/
theorem exists_gauge (few : us.count .subscribed < UInt64.size) :
    ∃ least, IsLeast (balances us) least ∧
      (ofUpdates us).subscriptionsCurrent.toNat = balance us - least ∧
      (ofUpdates us).subscriptionsCurrent.toNat ≤ us.count .subscribed := by
  induction us using List.reverseRecOn with
  | nil =>
    refine ⟨0, ⟨⟨0, Nat.le_refl _, rfl⟩, ?_⟩, rfl, Nat.le_refl _⟩
    rintro d ⟨i, -, rfl⟩
    rw [List.take_nil]
    exact Int.le_refl _
  | append_singleton us u ih =>
    rw [List.count_append] at few ⊢
    obtain ⟨least, isLeast, above, bounded⟩ := ih (Nat.lt_of_le_of_lt (Nat.le_add_right ..) few)
    have next := isLeast.insert (balance (us ++ [u]))
    rw [← balances_concat, balance_concat] at next
    refine ⟨_, next, ?_⟩
    rw [ofUpdates_concat, balance_concat]
    cases u with
    | subscribed =>
      have up : balance [.subscribed] = 1 := rfl
      have one : [Update.subscribed].count .subscribed = 1 := rfl
      rw [one] at few ⊢
      have room := Nat.lt_of_le_of_lt (Nat.succ_le_succ bounded) few
      rw [toNat_gauge_apply, Update.shifts, Nat.mod_eq_of_lt room, up]
      omega
    | unsubscribed =>
      have down : balance [.unsubscribed] = -1 := rfl
      rw [toNat_gauge_unsubscribed, down]
      omega
    | _ =>
      have same (v : Update) (other : Counter.gauge.hears v = false) :
          ((ofUpdates us).apply v).subscriptionsCurrent = (ofUpdates us).subscriptionsCurrent :=
        get_apply_of_not_hears _ v (k := .gauge) other
      rw [same _ rfl, balance_singleton_of_not_hears rfl]
      omega

end Gauge

/-- What the updates come to when they are counted from zero: a sum for each total, the latest value
for each level, and the number of current subscriptions. The latter is how far the balance stands
above its lowest, as long as a word can count the subscriptions begun. -/
structure Counts (us : List Update) (c : Counters) : Prop where
  totals : ∀ t, (c.total t).toNat = (us.map (·.adds t)).sum % UInt64.size
  levels : ∀ l, c.level l = ((us.filterMap (·.sets? l)).getLast?).getD 0
  gauge : c.subscriptionsCurrent.toNat = gauged us
  balanced : us.count .subscribed < UInt64.size →
    ∃ least, IsLeast (balances us) least ∧ c.subscriptionsCurrent.toNat = balance us - least

theorem counts_ofUpdates (us : List Update) : Counts us (ofUpdates us) where
  totals t := toNat_total_ofUpdates t us
  levels l := level_ofUpdates l us
  gauge := toNat_gauge_ofUpdates us
  balanced few := by
    obtain ⟨least, isLeast, above, -⟩ := exists_gauge few
    exact ⟨least, isLeast, above⟩

theorem eq_of_get {c d : Counters} (same : ∀ k, c.get k = d.get k) : c = d := by
  cases c
  cases d
  have totals (t : Total) := same (.total t)
  have levels (l : Level) := same (.level l)
  congr
  exacts [same .gauge, totals .subscriptions, totals .bytesReceived, totals .packetsReceived,
    totals .bytesSent, totals .packetsSent, totals .messagesDropped, levels .inflight,
    levels .queued]

theorem counts_iff {c : Counters} : Counts us c ↔ c = ofUpdates us := by
  constructor
  · intro counts
    refine eq_of_get fun k => ?_
    cases k with
    | total t =>
      exact UInt64.toNat_inj.1 ((counts.totals t).trans (toNat_total_ofUpdates t us).symm)
    | level l => exact (counts.levels l).trans (level_ofUpdates l us).symm
    | gauge => exact UInt64.toNat_inj.1 (counts.gauge.trans (toNat_gauge_ofUpdates us).symm)
  · rintro rfl
    exact counts_ofUpdates us

/-- What counters that were made by the updates say about them. -/
structure Tells (us : List Update) (c : Counters) : Prop where
  gauge : ∃ least, IsLeast (balances us) least ∧ c.subscriptionsCurrent.toNat = balance us - least
  bounded : c.subscriptionsCurrent ≤ c.subscriptionsTotal
  begun : c.subscriptionsTotal.toNat = us.count .subscribed
  totals : ∀ t, (c.total t).toNat = (us.map (·.adds t)).sum % UInt64.size
  reordered : ∀ vs, vs.Perm us → ∀ t, (ofUpdates vs).total t = c.total t
  levels : ∀ l, c.level l = ((us.filterMap (·.sets? l)).getLast?).getD 0
  separate : ∀ (k : Counter) (vs : List Update), vs.filter k.hears = us.filter k.hears →
    (ofUpdates vs).get k = c.get k

theorem ofUpdates_tells (few : us.count .subscribed < UInt64.size) : Tells us (ofUpdates us) := by
  obtain ⟨least, isLeast, above, bounded⟩ := exists_gauge few
  have begun : (ofUpdates us).subscriptionsTotal.toNat = us.count .subscribed := by
    have sum := toNat_total_ofUpdates .subscriptions us
    rwa [sum_adds_subscriptions, Nat.mod_eq_of_lt few] at sum
  constructor
  case gauge => exact ⟨least, isLeast, above⟩
  case bounded =>
    rw [UInt64.le_iff_toNat_le, begun]
    exact bounded
  case begun => exact begun
  case totals => exact fun t => toNat_total_ofUpdates t us
  case reordered =>
    intro vs order t
    rw [total_ofUpdates, total_ofUpdates, (order.map _).sum_eq]
  case levels => exact fun l => level_ofUpdates l us
  case separate =>
    intro k vs same
    rw [← get_ofUpdates_filter, same, get_ofUpdates_filter]

/-- A total that overflows, and a subscription that ends before any began. -/
theorem ofUpdates_tells_overflow :
    let us : List Update := [.unsubscribed, .packetReceived 0xffffffffffffffff, .subscribed,
      .inflight 3, .subscribed, .packetReceived 6, .unsubscribed, .inflight 2]
    us.count .subscribed < UInt64.size ∧ Tells us {
      subscriptionsCurrent := 1
      subscriptionsTotal := 2
      packetsReceived := 2
      bytesReceived := 5
      inflightCurrent := 2 } :=
  ⟨by decide, ofUpdates_tells (by decide)⟩

end BrokerAdmin.Counters
