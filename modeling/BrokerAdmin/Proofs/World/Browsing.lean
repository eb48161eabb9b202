import BrokerAdmin.Proofs.Listing.Walk
import BrokerAdmin.Proofs.World.ClientHistory
import BrokerAdmin.Proofs.World.SubscriptionHistory

set_option autoImplicit false

/-!
Readers that turn page after page of a listing while the world goes on. Between two readings any
history may run. Both listings are read in the same way and differ only in what is listed, so
everything is said once, of a directory.
-/

namespace BrokerAdmin

/-- A listing of the world as its readers know it. -/
structure Directory (α κ : Type) where
  keys : World → Except Fault (List κ)
  contains : World → κ → Bool
  page : World → UInt64 → UInt64 → Except Fault (Page α)
  key : α → κ

namespace Directory

def clients : Directory ClientRecord String where
  keys w := do return (← w.clients.records.toList).map (·.1)
  contains w := w.clients.records.contains
  page w := w.clients.list w.metrics.clientStats
  key := ClientRecord.clientId

def subscriptions : Directory SubscriptionRecord SubscriptionKey where
  keys w := do return (← w.subscriptions.records.toList).map (·.1)
  contains w := w.subscriptions.records.contains
  page w := w.subscriptions.list
  key r := ⟨r.clientId, r.topicFilter⟩

variable {α κ : Type}

/-- Reads page after page, the first of them numbered `n`, and lets a history run after each
reading but the last. -/
def browse (d : Directory α κ) (control : SessionControl) (size : UInt64) :
    (n : UInt64) → List History → World → Except Fault (List (Page α))
  | n, [], w => do return [← d.page w n size]
  | n, h :: hs, w => do
    let page ← d.page w n size
    let o ← h.perform control w
    return page :: (← d.browse control size (n + 1) hs o.state)

/-- The keys of all records on the pages, in the order in which they were read. -/
def shown (d : Directory α κ) (pages : List (Page α)) : List κ :=
  pages.flatMap fun p => p.items.map d.key

def ListedAfter (d : Directory α κ) (control : SessionControl) (w : World) (h : History) (n : Nat)
    (k : κ) : Prop :=
  ∃ o, History.perform control (h.take n) w = .ok o ∧ d.contains o.state k = true

/-- No operation of the history removes a key. -/
def Keeps (d : Directory α κ) (control : SessionControl) (w : World) (h : History) : Prop :=
  ∀ k n, d.ListedAfter control w h n k → d.ListedAfter control w h (n + 1) k

/-- A key that an operation of the history removes is never listed again. -/
def Retires (d : Directory α κ) (control : SessionControl) (w : World) (h : History) : Prop :=
  ∀ k m n, m < n → d.ListedAfter control w h m k → ¬d.ListedAfter control w h (m + 1) k →
    ¬d.ListedAfter control w h n k

/-- What holds of the pages that a reader gets, `first` being the keys listed when the first of
them is read. -/
structure Steady (d : Directory α κ) (control : SessionControl) (w : World) (h : History)
    (size : UInt64) (first : List κ) (pages : List (Page α)) : Prop where
  once : d.Retires control w h → (d.shown pages).Nodup
  complete : d.Keeps control w h → (d.shown pages).Nodup ∧
    (first.length ≤ pages.length * size.toNat → first <+: d.shown pages)

/-- A reader who turns the pages from the first one on, with these histories in between, gets them
all. They are steady as long as no listing is longer than a word can count. -/
def SteadyUnder (d : Directory α κ) (control : SessionControl) (w : World) (hs : List History)
    (size : UInt64) : Prop :=
  ∃ first pages, d.keys w = .ok first ∧ d.browse control size 1 hs w = .ok pages ∧
    pages.length = hs.length + 1 ∧
    ((∀ p ∈ pages, p.totalCount < UInt64.size) →
      d.Steady control w hs.flatten size first pages)

/-- The keys that events call for are what the world's readers find, and operations only take keys
out or add new ones behind. -/
structure Follows (d : Directory α κ)
    (listed : List ClientEvent → List SubscriptionEvent → List κ) : Prop where
  keys : ∀ w cs ss, World.Shows w cs ss → d.keys w = .ok (listed cs ss)
  contains : ∀ w cs ss, World.Shows w cs ss → ∀ k, d.contains w k = true ↔ k ∈ listed cs ss
  page : ∀ w cs ss, World.Shows w cs ss → ∀ n size, ∃ p, d.page w n size = .ok p ∧
    p.totalCount = (listed cs ss).length ∧ p.items.map d.key =
      ((listed cs ss).drop (Window.ofPage n size).start.toNat).take
        (Window.ofPage n size).size.toNat
  nodup : ∀ cs ss, (listed cs ss).Nodup
  advances : ∀ control now (op : Operation) cs ss, Listing.Advances (listed cs ss)
    (listed (cs ++ op.clientEvents control now) (ss ++ op.subscriptionEvents control))

end Directory

theorem Operation.clientEvents_eq_or (control : SessionControl) (now : Timestamp) (op : Operation) :
    (∃ c, op.clientEvents control now = [.opened c]) ∨
      ∀ e ∈ op.clientEvents control now, ∀ c, e ≠ .opened c := by
  have cleanup : ∀ id (c : Cleanup), ∀ e ∈ c.clientEvents now id, ∀ c', e ≠ .opened c' := by
    intro id c e he c'
    cases c <;> simp [Cleanup.clientEvents] at he <;> simp [he]
  cases op with
  | event e =>
    cases e with
    | created c => exact .inl ⟨c, rfl⟩
    | resumed c => exact .inl ⟨c, rfl⟩
    | closed id => exact .inr (by simp [clientEvents, Event.clientEvents])
    | terminated id reason =>
      refine .inr ?_
      simp only [clientEvents, Event.clientEvents]
      split <;> simp
    | subscribed id sub => exact .inr (by simp [clientEvents, Event.clientEvents])
    | unsubscribed id filter => exact .inr (by simp [clientEvents, Event.clientEvents])
  | addClient c => exact .inl ⟨c, rfl⟩
  | deleteClient id clean =>
    refine .inr fun e he => ?_
    obtain ⟨c, -, hc⟩ := List.mem_flatMap.1 he
    exact cleanup id c e hc
  | _ => exact .inr (by simp [clientEvents])

theorem Operation.subscriptionEvents_eq_or (control : SessionControl) (op : Operation) :
    (∃ id sub, op.subscriptionEvents control = [.subscribed id sub]) ∨
      ∀ e ∈ op.subscriptionEvents control, ∀ id sub, e ≠ .subscribed id sub := by
  have cleanup : ∀ id (c : Cleanup), ∀ e ∈ c.subscriptionEvents id, ∀ a sub,
      e ≠ .subscribed a sub := by
    intro id c e he a sub
    cases c <;> simp [Cleanup.subscriptionEvents] at he
    simp [he]
  cases op with
  | event e =>
    cases e with
    | subscribed id sub => exact .inl ⟨id, sub, rfl⟩
    | _ => exact .inr (by simp [subscriptionEvents, Event.subscriptionEvents])
  | addSubscription id sub => exact .inl ⟨id, sub, rfl⟩
  | deleteClient id clean =>
    refine .inr fun e he => ?_
    obtain ⟨c, -, hc⟩ := List.mem_flatMap.1 he
    exact cleanup id c e hc
  | _ => exact .inr (by simp [subscriptionEvents])

namespace Directory

theorem clients_follows :
    clients.Follows fun cs _ => Listing.keys (Listing.after (cs.map ClientEvent.change)) where
  keys w cs ss h := by
    simp only [clients, h.clients.toList]
    rfl
  contains w cs ss h k := by
    rw [← Listing.contains_iff_mem_keys, ← h.clients.contains]
    rfl
  page w cs ss h n size := by
    obtain ⟨l, lists, values⟩ := h.exists_clients
    have keys_eq : Listing.keys (Listing.after (cs.map ClientEvent.change)) =
        l.map ClientRecord.clientId := by
      rw [values.after_eq, Listing.keys, List.map_map]
      rfl
    refine ⟨_, lists.list _ n size, by rw [keys_eq, List.length_map], ?_⟩
    rw [keys_eq, ← List.map_drop, ← List.map_take, List.map_map]
    exact List.map_congr_left fun r _ => r.clientId_enrich _
  nodup cs ss := Listing.nodup_keys_after _
  advances control now op cs ss := by
    simp only [List.map_append]
    rcases op.clientEvents_eq_or control now with ⟨c, eq⟩ | others
    · rw [eq]
      exact Listing.advances_put _ _ _
    · apply Listing.advances_of_no_put
      rintro _ hc k v rfl
      obtain ⟨e, he, put⟩ := List.mem_map.1 hc
      obtain ⟨c, rfl, -⟩ := ClientEvent.change_eq_put_iff.1 put
      exact others _ he c rfl

theorem subscriptions_follows : subscriptions.Follows fun _ ss =>
    Listing.keys (Listing.after (ss.map SubscriptionEvent.change)) where
  keys w cs ss h := by
    simp only [subscriptions, h.subscriptions.toList]
    rfl
  contains w cs ss h k := by
    rw [← Listing.contains_iff_mem_keys, ← h.subscriptions.contains]
    rfl
  page w cs ss h n size := by
    obtain ⟨l, lists, -⟩ := h.exists_subscriptions
    have after_eq := Except.ok.inj (h.subscriptions.toList.symm.trans lists.toList)
    have keys_eq : Listing.keys (Listing.after (ss.map SubscriptionEvent.change)) =
        l.map subscriptions.key := by
      rw [after_eq, Listing.keys, List.map_map]
      rfl
    refine ⟨_, lists.list n size, by rw [keys_eq, List.length_map], ?_⟩
    rw [keys_eq, ← List.map_drop, ← List.map_take]
  nodup cs ss := Listing.nodup_keys_after _
  advances control now op cs ss := by
    simp only [List.map_append]
    rcases op.subscriptionEvents_eq_or control with ⟨id, sub, eq⟩ | others
    · rw [eq]
      exact Listing.advances_put _ _ _
    · apply Listing.advances_of_no_put
      rintro _ hc ⟨id, filter⟩ v rfl
      obtain ⟨e, he, put⟩ := List.mem_map.1 hc
      obtain ⟨sub, rfl, -⟩ := SubscriptionEvent.change_eq_put_iff.1 put
      exact others _ he id sub rfl

section Reading

variable {α κ : Type} {d : Directory α κ}
  {listed : List ClientEvent → List SubscriptionEvent → List κ} {w : World}
  {cs : List ClientEvent} {ss : List SubscriptionEvent}

def listedBehind (listed : List ClientEvent → List SubscriptionEvent → List κ)
    (cs : List ClientEvent) (ss : List SubscriptionEvent) (control : SessionControl)
    (h : History) : List κ :=
  listed (cs ++ h.clientEvents control) (ss ++ h.subscriptionEvents control)

theorem listedBehind_nil (listed : List ClientEvent → List SubscriptionEvent → List κ)
    (cs : List ClientEvent) (ss : List SubscriptionEvent) (control : SessionControl) :
    listedBehind listed cs ss control [] = listed cs ss := by
  simp [listedBehind, History.clientEvents, History.subscriptionEvents]

theorem listedBehind_append (listed : List ClientEvent → List SubscriptionEvent → List κ)
    (cs : List ClientEvent) (ss : List SubscriptionEvent) (control : SessionControl)
    (h h' : History) : listedBehind listed cs ss control (h ++ h') =
      listedBehind listed (cs ++ h.clientEvents control) (ss ++ h.subscriptionEvents control)
        control h' := by
  simp [listedBehind, History.clientEvents, History.subscriptionEvents]

theorem listedBehind_singleton (listed : List ClientEvent → List SubscriptionEvent → List κ)
    (cs : List ClientEvent) (ss : List SubscriptionEvent) (control : SessionControl)
    (s : Timestamp × Operation) : listedBehind listed cs ss control [s] =
      listed (cs ++ s.2.clientEvents control s.1) (ss ++ s.2.subscriptionEvents control) := by
  simp [listedBehind, History.clientEvents, History.subscriptionEvents]

theorem Follows.listedAfter_iff (f : d.Follows listed) (shows : w.Shows cs ss)
    (control : SessionControl) (h : History) (n : Nat) (k : κ) :
    d.ListedAfter control w h n k ↔ k ∈ listedBehind listed cs ss control (h.take n) := by
  obtain ⟨o, done, after⟩ := History.perform_adds control (h.take n) w cs ss shows
  rw [listedBehind, ← f.contains _ _ _ after]
  constructor
  · rintro ⟨o', done', there⟩
    cases done.symm.trans done'
    exact there
  · intro there
    exact ⟨o, done, there⟩

theorem Follows.keeps_iff (f : d.Follows listed) (shows : w.Shows cs ss) (control : SessionControl)
    (h : History) : d.Keeps control w h ↔
      ∀ n < h.length, ∀ k ∈ listedBehind listed cs ss control (h.take n),
        k ∈ listedBehind listed cs ss control (h.take (n + 1)) := by
  simp only [Keeps, f.listedAfter_iff shows]
  constructor
  · intro keeps n _ k
    exact keeps k n
  · intro keeps k n there
    rcases Nat.lt_or_ge n h.length with lt | ge
    · exact keeps n lt k there
    · rw [List.take_of_length_le ge] at there
      rwa [List.take_of_length_le (Nat.le_succ_of_le ge)]

theorem Follows.retires_iff (f : d.Follows listed) (shows : w.Shows cs ss)
    (control : SessionControl) (h : History) : d.Retires control w h ↔
      ∀ n ≤ h.length, ∀ m < n, ∀ k ∈ listedBehind listed cs ss control (h.take m),
        k ∉ listedBehind listed cs ss control (h.take (m + 1)) →
        k ∉ listedBehind listed cs ss control (h.take n) := by
  simp only [Retires, f.listedAfter_iff shows]
  constructor
  · intro retires n _ m lt k
    exact retires k m n lt
  · intro retires k m n lt there gone
    rcases Nat.lt_or_ge m h.length with inside | outside
    · rcases Nat.le_total n h.length with le | ge
      · exact retires n le m lt k there gone
      · rw [List.take_of_length_le ge, ← List.take_length (l := h)]
        exact retires h.length (Nat.le_refl _) m inside k there gone
    · rw [List.take_of_length_le outside] at there
      rw [List.take_of_length_le (Nat.le_succ_of_le outside)] at gone
      exact absurd there gone

theorem Follows.advances_take (f : d.Follows listed) (cs : List ClientEvent)
    (ss : List SubscriptionEvent) (control : SessionControl) (h : History) (n : Nat) :
    Listing.Advances (listedBehind listed cs ss control (h.take n))
      (listedBehind listed cs ss control (h.take (n + 1))) := by
  rw [List.take_add_one]
  cases h[n]? with
  | none =>
    rw [Option.toList_none, List.append_nil]
    exact .refl _
  | some s =>
    rw [Option.toList_some, listedBehind_append, listedBehind_singleton]
    exact f.advances control s.1 s.2 _ _

theorem Follows.browse_eq_ok (f : d.Follows listed) (shows : w.Shows cs ss)
    (control : SessionControl) (size n : UInt64) (hs : List History) :
    ∃ pages, d.browse control size n hs w = .ok pages ∧ pages.length = hs.length + 1 ∧
      ∀ i p, pages[i]? = some p →
        p.totalCount = (listedBehind listed cs ss control (hs.take i).flatten).length ∧
        p.items.map d.key = ((listedBehind listed cs ss control (hs.take i).flatten).drop
          (Window.ofPage (n + .ofNat i) size).start.toNat).take
          (Window.ofPage (n + .ofNat i) size).size.toNat := by
  induction hs generalizing w cs ss n with
  | nil =>
    obtain ⟨p, done, first⟩ := f.page w cs ss shows n size
    refine ⟨[p], by simp only [browse, done]; rfl, rfl, fun i q hq => ?_⟩
    cases i with
    | zero =>
      cases hq
      simpa [listedBehind_nil] using first
    | succ i => cases hq
  | cons h hs ih =>
    obtain ⟨p, done, first⟩ := f.page w cs ss shows n size
    obtain ⟨o, ran, after⟩ := h.perform_adds control w cs ss shows
    obtain ⟨pages, rest, length, each⟩ := ih after (n + 1)
    refine ⟨p :: pages, ?_, by rw [List.length_cons, List.length_cons, length], fun i q hq => ?_⟩
    · simp only [browse, done, bind, Except.bind, ran, rest]
      rfl
    · cases i with
      | zero =>
        cases hq
        simpa [listedBehind_nil] using first
      | succ i =>
        have number : n + .ofNat (i + 1) = n + 1 + .ofNat i := by
          rw [Nat.add_comm, UInt64.ofNat_add, ← UInt64.add_assoc]
          rfl
        rw [List.take_succ_cons, List.flatten_cons, listedBehind_append, number]
        exact each i q hq

theorem Follows.counted (f : d.Follows listed) (shows : w.Shows cs ss) {control : SessionControl}
    {size n : UInt64} {hs : List History} {pages : List (Page α)}
    (done : d.browse control size n hs w = .ok pages) (limit : Nat)
    (short : ∀ i ≤ hs.length,
      (listedBehind listed cs ss control (hs.take i).flatten).length < limit) :
    ∀ p ∈ pages, p.totalCount < limit := by
  obtain ⟨pages', done', length, each⟩ := f.browse_eq_ok shows control size n hs
  cases done.symm.trans done'
  intro p hp
  obtain ⟨i, bound, rfl⟩ := List.mem_iff_getElem.1 hp
  rw [(each i _ (List.getElem?_eq_getElem bound)).1]
  rw [length] at bound
  exact short i (Nat.le_of_lt_succ bound)

theorem shown_eq_pagesRead {L : Nat → List κ} {t : Nat → Nat} {s : Nat} {pages : List (Page α)}
    (each : ∀ i p, pages[i]? = some p → p.items.map d.key = ((L (t i)).drop (i * s)).take s) :
    d.shown pages = Listing.pagesRead L t s pages.length := by
  have eq : pages.map (fun p => p.items.map d.key) =
      (List.range pages.length).map fun i => ((L (t i)).drop (i * s)).take s := by
    refine List.ext_getElem? fun i => ?_
    rw [List.getElem?_map, List.getElem?_map]
    cases hp : pages[i]? with
    | none =>
      rw [List.getElem?_eq_none (by simpa using hp)]
      rfl
    | some p =>
      rw [List.getElem?_range (List.getElem?_eq_some_iff.1 hp).1, Option.map_some, Option.map_some,
        each i p hp]
  rw [shown, Listing.pagesRead, List.flatMap_def, eq, List.flatMap_def]

theorem flatten_take_isPrefix {β : Type} (ls : List (List β)) (i : Nat) :
    (ls.take i).flatten <+: ls.flatten := by
  conv_rhs => rw [← List.take_append_drop i ls, List.flatten_append]
  exact List.prefix_append ..

theorem monotone_length_flatten_take {β : Type} (ls : List (List β)) :
    Monotone fun i => (ls.take i).flatten.length := by
  intro i j le
  have inside := flatten_take_isPrefix (ls.take j) i
  rw [List.take_take, Nat.min_eq_left le] at inside
  exact inside.length_le

theorem Follows.shown_eq [DecidableEq κ] (f : d.Follows listed) (shows : w.Shows cs ss)
    (control : SessionControl) (size : UInt64) {hs : List History}
    (numbered : hs.length + 1 < UInt64.size) :
    ∃ pages, d.browse control size 1 hs w = .ok pages ∧ pages.length = hs.length + 1 ∧
      ((∀ p ∈ pages, p.totalCount < UInt64.size) → d.shown pages = Listing.pagesRead
        (fun n => listedBehind listed cs ss control (hs.flatten.take n))
        (fun i => (hs.take i).flatten.length) size.toNat pages.length) := by
  obtain ⟨pages, done, length, each⟩ := f.browse_eq_ok shows control size 1 hs
  refine ⟨pages, done, length, fun counted => shown_eq_pagesRead fun i p hp => ?_⟩
  obtain ⟨count, items⟩ := each i p hp
  have bound : i < pages.length := (List.getElem?_eq_some_iff.1 hp).1
  have number : (1 + UInt64.ofNat i).toNat - 1 = i := by
    rw [UInt64.toNat_add, UInt64.toNat_ofNat_of_lt' (by omega), UInt64.toNat_one,
      Nat.mod_eq_of_lt (show 1 + i < UInt64.size by omega), Nat.add_sub_cancel_left]
  rw [items, Listing.window_ofPage (count ▸ counted p (List.mem_of_getElem? hp)), number,
    ← List.prefix_iff_eq_take.1 (flatten_take_isPrefix hs i)]

theorem Follows.steadyUnder [DecidableEq κ] (f : d.Follows listed) (shows : w.Shows cs ss)
    (control : SessionControl) (size : UInt64) {hs : List History}
    (numbered : hs.length + 1 < UInt64.size) : d.SteadyUnder control w hs size := by
  obtain ⟨pages, done, length, shown_eq⟩ := f.shown_eq shows control size numbered
  refine ⟨listed cs ss, pages, f.keys _ _ _ shows, done, length, fun counted => ?_⟩
  have advances := f.advances_take cs ss control hs.flatten
  have once : d.Retires control w hs.flatten → (d.shown pages).Nodup := by
    intro retires
    simp only [Retires, f.listedAfter_iff shows] at retires
    rw [shown_eq counted]
    exact Listing.nodup_pagesRead (fun n => f.nodup _ _) advances retires
      (monotone_length_flatten_take hs) _ _
  refine ⟨once, fun keeps => ⟨once ?_, fun enough => ?_⟩⟩
  · intro k m n lt there gone
    exact absurd (keeps k m there) gone
  · simp only [Keeps, f.listedAfter_iff shows] at keeps
    have prefixes : ∀ n,
        listed cs ss <+: listedBehind listed cs ss control (hs.flatten.take n) := by
      intro n
      have grown := Listing.isPrefix_of_advances advances keeps (Nat.zero_le n)
      rwa [List.take_zero, listedBehind_nil] at grown
    rw [shown_eq counted]
    exact Listing.isPrefix_pagesRead prefixes enough

end Reading

end Directory

/-- Whoever turns the pages of a listing while histories run in between meets no key twice unless
a removed one comes back, and misses no key of the first reading unless one is removed. -/
theorem History.pages_steady (control : SessionControl) (settings : AdminSettings) (h : History)
    (size : UInt64) (hs : List History) (numbered : hs.length + 1 < UInt64.size) :
    ∃ o, h.perform control { settings } = .ok o ∧
      Directory.clients.SteadyUnder control o.state hs size ∧
      Directory.subscriptions.SteadyUnder control o.state hs size := by
  obtain ⟨o, done, shows⟩ := h.perform_eq_ok control settings
  exact ⟨o, done, Directory.clients_follows.steadyUnder shows control size numbered,
    Directory.subscriptions_follows.steadyUnder shows control size numbered⟩

/-- Between the readings one client goes and another one comes, and subscriptions are added. -/
theorem History.pages_steady_removed :
    let control := SessionControl.passive true
    let opened (id : String) : Operation :=
      .addClient ⟨id, none, .v5, 0, 0, 0, 0, 0, "local", "remote", ⟨1⟩⟩
    let subscribed (id filter : String) : Operation := .addSubscription id (.plain filter {})
    let h : History := [(⟨1⟩, opened "a"), (⟨2⟩, opened "b"), (⟨3⟩, subscribed "b" "t")]
    let hs : List History := [[(⟨4⟩, .removeClient "a"), (⟨5⟩, opened "c")],
      [(⟨6⟩, subscribed "b" "t"), (⟨7⟩, subscribed "c" "u")]]
    hs.length + 1 < UInt64.size ∧
    ∃ o ps qs first, h.perform control {} = .ok o ∧
      Directory.clients.browse control 1 1 hs o.state = .ok ps ∧
      (∀ p ∈ ps, p.totalCount < UInt64.size) ∧
      Directory.clients.Retires control o.state hs.flatten ∧
      (Directory.clients.shown ps).Nodup ∧
      Directory.subscriptions.keys o.state = .ok first ∧
      Directory.subscriptions.browse control 1 1 hs o.state = .ok qs ∧
      (∀ q ∈ qs, q.totalCount < UInt64.size) ∧
      Directory.subscriptions.Keeps control o.state hs.flatten ∧
      first.length ≤ qs.length * (1 : UInt64).toNat ∧
      first <+: Directory.subscriptions.shown qs := by
  intro control opened subscribed h hs
  have numbered : hs.length + 1 < UInt64.size := by decide
  obtain ⟨o, done, ⟨_, ps, -, browsed, -, steady⟩, first, qs, keys, browsed', length', steady'⟩ :=
    History.pages_steady control {} h 1 hs numbered
  obtain ⟨o', done', shows⟩ := h.perform_eq_ok control {}
  cases done.symm.trans done'
  have counted := Directory.clients_follows.counted shows browsed UInt64.size (by decide)
  have counted' := Directory.subscriptions_follows.counted shows browsed' UInt64.size (by decide)
  have retires : Directory.clients.Retires control o.state hs.flatten := by
    rw [Directory.clients_follows.retires_iff shows]
    decide
  have keeps : Directory.subscriptions.Keeps control o.state hs.flatten := by
    rw [Directory.subscriptions_follows.keeps_iff shows]
    decide
  cases keys.symm.trans (Directory.subscriptions_follows.keys _ _ _ shows)
  have enough : (Listing.keys (Listing.after ((h.subscriptionEvents control).map
      SubscriptionEvent.change))).length ≤ qs.length * (1 : UInt64).toNat := by
    rw [length']
    decide
  exact ⟨numbered, o, ps, qs, _, done, browsed, counted, retires, (steady counted).once retires,
    keys, browsed', counted', keeps, enough, ((steady' counted').complete keeps).2 enough⟩

end BrokerAdmin
