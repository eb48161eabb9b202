import BrokerAdmin.Protocol

set_option autoImplicit false

/-!
Subscriptions. A client names a subscription by its full filter; a full filter of the form
`$share/<group>/<filter>` with a non-empty group puts the client into a share group, every other
one is a plain topic filter.
-/

namespace BrokerAdmin

/-- Options of a subscription. Retain handling 0 sends retained messages on every subscribe, 1 only
on a new one, 2 never. -/
structure SubscriptionOptions where
  qos : QoS := .atMostOnce
  noLocal : Bool := false
  retainAsPublished : Bool := false
  retainHandling : UInt8 := 0
  deriving DecidableEq, Repr, Inhabited

/-- Options from the byte that carries them: two bits of QoS, two flags, two bits of retain
handling. The QoS is judged first, and the two highest bits carry nothing. -/
def SubscriptionOptions.ofByte (byte : UInt8) : Except DecodeError SubscriptionOptions := do
  let qos ← QoS.ofCode (byte &&& 0x03)
  let retainHandling := (byte >>> 4) &&& 0x03
  if retainHandling = 3 then
    .error (.invalidRetainHandling retainHandling)
  else
    return {
      qos
      noLocal := byte &&& 0x04 != 0
      retainAsPublished := byte &&& 0x08 != 0
      retainHandling
    }

/-- A subscription of one client, its filter without the share group. -/
structure Subscription where
  shareGroup : Option String
  topicFilter : String
  id : UInt32
  options : SubscriptionOptions
  deriving DecidableEq, Repr

namespace Subscription

/-- What follows the mark that every shared filter starts with. -/
def afterShareMark? : List Char → Option (List Char)
  | '$' :: 's' :: 'h' :: 'a' :: 'r' :: 'e' :: '/' :: rest => some rest
  | _ => none

def splitAtSlash : List Char → Option (List Char × List Char)
  | [] => none
  | c :: cs =>
    if c = '/' then some ([], cs)
    else (splitAtSlash cs).map fun (before, after) => (c :: before, after)

/-- Group and filter of a shared full filter. A group is never empty. -/
def splitShared? (full : List Char) : Option (List Char × List Char) :=
  match (afterShareMark? full).bind splitAtSlash with
  | some ([], _) => none
  | some (group, filter) => some (group, filter)
  | none => none

def parse (full : String) (id : UInt32) (options : SubscriptionOptions) : Subscription :=
  match splitShared? full.toList with
  | some (group, filter) => ⟨some (String.ofList group), String.ofList filter, id, options⟩
  | none => ⟨none, full, id, options⟩

/-- A subscription outside any share group and without an identifier. -/
def plain (topicFilter : String) (options : SubscriptionOptions) : Subscription :=
  ⟨none, topicFilter, 0, options⟩

/-- The filter with its share group, which names the subscription within its client's session. -/
def fullFilter (s : Subscription) : String :=
  match s.shareGroup with
  | some group => "$share/" ++ group ++ "/" ++ s.topicFilter
  | none => s.topicFilter

end Subscription

structure SubscriptionRecord where
  topicFilter : String
  id : UInt32
  options : SubscriptionOptions
  clientId : String
  deriving DecidableEq, Repr

def SubscriptionRecord.ofSubscription (clientId : String) (s : Subscription) :
    SubscriptionRecord :=
  ⟨s.fullFilter, s.id, s.options, clientId⟩

end BrokerAdmin
