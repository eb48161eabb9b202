set_option autoImplicit false

/-!
Codes of the messaging protocol. Each code is decoded from one byte; a byte without a meaning is
refused and named in the refusal.
-/

namespace BrokerAdmin

inductive DecodeError where
  | unsupportedVersion (value : UInt8)
  | invalidQoS (value : UInt8)
  | invalidRetainHandling (value : UInt8)
  deriving DecidableEq, Repr

def DecodeError.message : DecodeError → String
  | .unsupportedVersion value => "Unsupported protocol version: " ++ toString value.toNat
  | .invalidQoS value => "Invalid QoS: " ++ toString value.toNat
  | .invalidRetainHandling value => "Invalid retain handling: " ++ toString value.toNat

inductive ProtocolVersion where
  | v31
  | v311
  | v5
  deriving DecidableEq, Repr

namespace ProtocolVersion

def code : ProtocolVersion → UInt8
  | .v31 => 3
  | .v311 => 4
  | .v5 => 5

def ofCode (value : UInt8) : Except DecodeError ProtocolVersion :=
  if value = 3 then .ok .v31
  else if value = 4 then .ok .v311
  else if value = 5 then .ok .v5
  else .error (.unsupportedVersion value)

def name : ProtocolVersion → String
  | .v31 => "V31"
  | .v311 => "V311"
  | .v5 => "V5"

@[simp] theorem ofCode_code (v : ProtocolVersion) : ofCode v.code = .ok v := by
  cases v <;> rfl

end ProtocolVersion

inductive QoS where
  | atMostOnce
  | atLeastOnce
  | exactlyOnce
  deriving DecidableEq, Repr, Inhabited

namespace QoS

def code : QoS → UInt8
  | .atMostOnce => 0
  | .atLeastOnce => 1
  | .exactlyOnce => 2

def ofCode (value : UInt8) : Except DecodeError QoS :=
  if value = 0 then .ok .atMostOnce
  else if value = 1 then .ok .atLeastOnce
  else if value = 2 then .ok .exactlyOnce
  else .error (.invalidQoS value)

def name : QoS → String
  | .atMostOnce => "AtMostOnce"
  | .atLeastOnce => "AtLeastOnce"
  | .exactlyOnce => "ExactlyOnce"

@[simp] theorem ofCode_code (q : QoS) : ofCode q.code = .ok q := by
  cases q <;> rfl

end QoS

end BrokerAdmin
