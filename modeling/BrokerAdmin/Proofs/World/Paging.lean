import BrokerAdmin.Proofs.Config.Loading
import BrokerAdmin.Proofs.World.Logging
import BrokerAdmin.Proofs.World.SubscriptionHistory
import Mathlib.Algebra.Order.Floor.Div

set_option autoImplicit false

/-!
Pages as requests get them under accepted settings. The standard page size is never cut down to the
limit, so that no page is longer than the limit, and that the pages of a listing come to an end, is
owed to the bounds that all accepted settings keep.
-/

namespace BrokerAdmin

namespace Settings

/-- A text, a file or the environment alone gives these settings. -/
def Accepted (s : Settings) : Prop :=
  (∃ env content, parse env content = .ok s) ∨ (∃ env file, load env file = .ok s) ∨
    ∃ env, ofEnvironment env = .ok s

theorem validate_of_checked {s t : Settings} (done : t.checked = .ok s) :
    s.validate = .ok () := by
  unfold checked at done
  split at done
  · cases done
    assumption
  · cases done

theorem validate_of_parse {s : Settings} {env : Environment} {content : String}
    (done : parse env content = .ok s) : s.validate = .ok () := by
  unfold parse at done
  split at done
  · exact validate_of_checked done
  · cases done

theorem validate_of_ofTree {s : Settings} {t : Tree} (done : ofTree t = .ok s) :
    s.validate = .ok () := by
  unfold ofTree at done
  split at done
  · exact validate_of_checked done
  · cases done

theorem validate_of_load {s : Settings} {env : Environment} {file : ConfigFile}
    (done : load env file = .ok s) : s.validate = .ok () := by
  unfold load at done
  split at done
  · cases done
  · obtain ⟨t, -, rest⟩ := exists_of_bind_eq_ok done
    exact validate_of_ofTree rest

theorem Accepted.validate {s : Settings} (h : s.Accepted) : s.validate = .ok () := by
  rcases h with ⟨env, content, done⟩ | ⟨env, file, done⟩ | ⟨env, done⟩
  · exact validate_of_parse done
  · exact validate_of_load done
  · exact validate_of_load done

end Settings

namespace AdminSettings

theorem bounds_of_validate {s : AdminSettings} (valid : s.validate = .ok ()) :
    1 ≤ s.defaultPageSize.toNat ∧ s.defaultPageSize.toNat ≤ s.maxPageSize.toNat := by
  obtain ⟨positive, within⟩ := validate_eq_ok_iff.1 valid
  exact ⟨UInt64.lt_iff_toNat_lt.1 positive, UInt64.le_iff_toNat_le.1 within⟩

theorem effectivePageSize_bounds {s : AdminSettings} (valid : s.validate = .ok ())
    (pageSize : UInt32) :
    1 ≤ s.effectivePageSize pageSize ∧ s.effectivePageSize pageSize ≤ s.maxPageSize.toNat := by
  obtain ⟨positive, within⟩ := bounds_of_validate valid
  unfold effectivePageSize
  split
  · exact ⟨positive, within⟩
  · rename_i nonzero
    have : pageSize.toNat ≠ 0 := fun zero => nonzero (UInt32.toNat.inj zero)
    omega

end AdminSettings

section Serving

variable {α κ : Type}

/-- The items of all pages up to number `k`, one page read after the other. -/
def readPages (list : UInt32 → UInt32 → Except Fault (Page α)) (pageSize : UInt32) :
    (k : Nat) → Except Fault (List α)
  | 0 => .ok []
  | k + 1 => do
    let earlier ← readPages list pageSize k
    let page ← list (.ofNat (k + 1)) pageSize
    return earlier ++ page.items

/-- How requests for pages are served when `all` is listed: page sizes stay within the limit, every
page is full as long as there is enough to show, and all pages together are the listing. -/
structure Served (s : AdminSettings) (list : UInt32 → UInt32 → Except Fault (Page α))
    (all : List α) (key : α → κ) : Prop where
  size : ∀ pageSize, 1 ≤ s.effectivePageSize pageSize ∧
    s.effectivePageSize pageSize ≤ s.maxPageSize.toNat
  page : ∀ page pageSize, ∃ p, list page pageSize = .ok p ∧ p.totalCount = all.length ∧
    p.items.length = min (s.effectivePageSize pageSize)
      (all.length - (max page.toNat 1 - 1) * s.effectivePageSize pageSize) ∧
    p.items.length ≤ s.maxPageSize.toNat
  whole : ∀ pageSize, all.length ⌈/⌉ s.effectivePageSize pageSize < UInt32.size →
    readPages list pageSize (all.length ⌈/⌉ s.effectivePageSize pageSize) = .ok all
  once : (all.map key).Nodup

variable {s : AdminSettings} {list : UInt32 → UInt32 → Except Fault (Page α)} {all : List α}

/-- Every page shows its window of the listing. -/
def ShowsWindows (s : AdminSettings) (list : UInt32 → UInt32 → Except Fault (Page α))
    (all : List α) : Prop :=
  ∀ page pageSize, list page pageSize =
    .ok ⟨(all.drop ((max page.toNat 1 - 1) * s.effectivePageSize pageSize)).take
      (s.effectivePageSize pageSize), all.length⟩

theorem readPages_eq_ok (windows : ShowsWindows s list all) (pageSize : UInt32) {k : Nat}
    (numbered : k < UInt32.size) :
    readPages list pageSize k = .ok (all.take (k * s.effectivePageSize pageSize)) := by
  induction k with
  | zero => rw [readPages, Nat.zero_mul, List.take_zero]
  | succ k ih =>
    have number : max (UInt32.ofNat (k + 1)).toNat 1 - 1 = k := by
      rw [UInt32.toNat_ofNat_of_lt' numbered]
      omega
    simp only [readPages, ih (Nat.lt_of_succ_lt numbered), windows _ pageSize, number, bind,
      Except.bind]
    rw [Nat.succ_mul, List.take_add]
    rfl

theorem served_of_windows (valid : s.validate = .ok ()) (windows : ShowsWindows s list all)
    {key : α → κ} (once : (all.map key).Nodup) : Served s list all key := by
  have size := s.effectivePageSize_bounds valid
  refine ⟨size, fun page pageSize => ?_, fun pageSize numbered => ?_, once⟩
  · refine ⟨_, windows page pageSize, rfl, ?_, ?_⟩
    · rw [List.length_take, List.length_drop]
    · exact Nat.le_trans (List.length_take_le ..) (size pageSize).2
  · have enough : all.length ≤ all.length ⌈/⌉ s.effectivePageSize pageSize *
        s.effectivePageSize pageSize := by
      rw [Nat.mul_comm]
      exact (ceilDiv_le_iff_le_mul (size pageSize).1).1 le_rfl
    rw [readPages_eq_ok windows pageSize numbered, List.take_of_length_le enough]

end Serving

namespace World

variable {w : World}

theorem listClients_showsWindows {l : List ClientRecord} (lists : w.clients.Lists l)
    (counted : l.length < UInt64.size) :
    ShowsWindows w.settings w.listClients (l.map (·.enrich w.metrics.clientStats)) := by
  intro page pageSize
  have read := lists.list w.metrics.clientStats (w.request page pageSize).page
    (w.request page pageSize).pageSize
  rw [Listing.window_ofPage counted, toNat_page_request, toNat_pageSize_request] at read
  rw [listClients, read, List.map_take, List.map_drop, List.length_map]

theorem listSubscriptions_showsWindows {l : List SubscriptionRecord}
    (lists : w.subscriptions.Lists l) (counted : l.length < UInt64.size) :
    ShowsWindows w.settings w.listSubscriptions l := by
  intro page pageSize
  have read := lists.list (w.request page pageSize).page (w.request page pageSize).pageSize
  rw [Listing.window_ofPage counted, toNat_page_request, toNat_pageSize_request] at read
  rw [listSubscriptions, read]

end World

/-- Under accepted settings the pages of both listings are bounded and, read one after the other,
show the whole listing. -/
theorem History.pages_served {s : Settings} (accepted : s.Accepted) (control : SessionControl)
    (h : History) :
    ∃ o l m, h.perform control { settings := s.admin } = .ok o ∧
      o.state.clients.Lists l ∧ o.state.subscriptions.Lists m ∧
      (l.length < UInt64.size → Served s.admin o.state.listClients
        (l.map (·.enrich o.state.metrics.clientStats)) ClientRecord.clientId) ∧
      (m.length < UInt64.size → Served s.admin o.state.listSubscriptions m
        fun r => SubscriptionKey.mk r.clientId r.topicFilter) := by
  obtain ⟨o, done, shows⟩ := h.perform_eq_ok control s.admin
  obtain ⟨l, lists, values⟩ := shows.exists_clients
  obtain ⟨m, lists', recorded⟩ := shows.exists_subscriptions
  have valid : s.admin.validate = .ok () := by
    obtain ⟨a, admin, -⟩ := exists_of_bind_eq_ok accepted.validate
    exact admin
  have logged := (h.perform_logs control).logged _ [] [] o (.empty s.admin) done
  have settings : o.state.settings = s.admin := logged.settings
  refine ⟨o, l, m, done, lists, lists', fun counted => ?_, fun counted => ?_⟩
  · apply served_of_windows valid
    · rw [← settings]
      exact World.listClients_showsWindows lists counted
    · have clientIds : (l.map (·.enrich o.state.metrics.clientStats)).map ClientRecord.clientId =
          l.map ClientRecord.clientId := by
        simp [Function.comp_def]
      rw [clientIds]
      exact values.nodup
  · apply served_of_windows valid
    · rw [← settings]
      exact World.listSubscriptions_showsWindows lists' counted
    · apply List.pairwise_map.2
      apply recorded.distinct.imp
      intro r r' differ same
      cases differ with
      | inl clients => exact clients (congrArg SubscriptionKey.clientId same)
      | inr filters => exact filters (congrArg SubscriptionKey.topicFilter same)

/-- A text sets both page sizes, and two pages show three clients. -/
theorem History.pages_served_three :
    let s : Settings := { admin := ⟨2, 3⟩ }
    let control := SessionControl.passive true
    let opened (id : String) : Operation :=
      .addClient ⟨id, none, .v5, 0, 0, 0, 0, 0, "local", "remote", ⟨1⟩⟩
    let h : History := [(⟨1⟩, opened "a"), (⟨2⟩, opened "b"), (⟨3⟩, opened "c"),
      (⟨4⟩, .addSubscription "c" (.plain "t" {}))]
    s.Accepted ∧ ∃ o l m, h.perform control { settings := s.admin } = .ok o ∧
      o.state.clients.Lists l ∧ l.length < UInt64.size ∧
      o.state.subscriptions.Lists m ∧ m.length < UInt64.size ∧
      (∃ p, o.state.listClients 2 0 = .ok p ∧ p.totalCount = 3 ∧ p.items.length = 1) ∧
      (l.map (·.enrich o.state.metrics.clientStats)).length ⌈/⌉ s.admin.effectivePageSize 0 <
        UInt32.size ∧
      readPages o.state.listClients 0 2 = .ok (l.map (·.enrich o.state.metrics.clientStats)) ∧
      ∃ p, o.state.listSubscriptions 0 4294967295 = .ok p ∧ p.totalCount = 1 ∧
        p.items.length = 1 := by
  intro s control opened h
  let content := "admin.default_page_size = 2\nadmin.max_page_size = 3"
  have accepted : s.Accepted := by
    have read : (Settings.parse [] content).toOption = some s := by decide +kernel
    cases parsed : Settings.parse [] content with
    | error e =>
      rw [parsed] at read
      cases read
    | ok t =>
      rw [parsed] at read
      cases read
      exact .inl ⟨[], content, parsed⟩
  obtain ⟨o, l, m, done, lists, lists', served, served'⟩ :=
    History.pages_served accepted control h
  obtain ⟨o', done', shows⟩ := h.perform_eq_ok control s.admin
  cases done.symm.trans done'
  have three : l.length = 3 := by
    rw [← List.length_map ClientRecord.clientId, shows.clientIds_eq lists]
    decide
  have one : m.length = 1 := by
    have eq := congrArg List.length
      (Except.ok.inj (lists'.toList.symm.trans shows.subscriptions.toList))
    rw [List.length_map] at eq
    rw [eq]
    decide
  have counted : l.length < UInt64.size := by rw [three]; decide
  have counted' : m.length < UInt64.size := by rw [one]; decide
  obtain ⟨p, second, total, items, -⟩ := (served counted).page 2 0
  obtain ⟨p', first, total', items', -⟩ := (served' counted').page 0 4294967295
  have size : s.admin.effectivePageSize 0 = 2 := rfl
  have size' : s.admin.effectivePageSize 4294967295 = 3 := rfl
  have numbered : (l.map (·.enrich o.state.metrics.clientStats)).length ⌈/⌉
      s.admin.effectivePageSize 0 < UInt32.size := by
    rw [List.length_map, three, size]
    decide
  have whole := (served counted).whole 0 numbered
  rw [List.length_map, three] at total items whole
  rw [size] at items whole
  rw [one] at total' items'
  rw [size'] at items'
  exact ⟨accepted, o, l, m, done, lists, counted, lists', counted', ⟨p, second, total, items⟩,
    numbered, whole, p', first, total', items'⟩

end BrokerAdmin
