import BrokerAdmin.World.Event

set_option autoImplicit false

/-!
The broker's sessions as the administration reaches them. A request to force a client off becomes
exactly one call; what the call does to the listings is up to the broker. A broker may clean up
after the session within the call, or leave the listings to the events that follow.
-/

namespace BrokerAdmin

inductive Cleanup where
  | reportClosed
  | dropSubscriptions
  | dropCounters
  | reportTerminated
  deriving DecidableEq, Repr

namespace Cleanup

def perform (now : Timestamp) (id : String) : Cleanup → Action Unit
  | reportClosed => Event.track now (.closed id)
  | dropSubscriptions => fun w => do
    let o ← World.onSubscriptions (·.removeClient id) w
    return { o with answer := () }
  | dropCounters => World.onMetrics fun t => ((), (t.deregister id).2)
  | reportTerminated => Event.track now (.terminated id .normal)

def performAll (now : Timestamp) (id : String) : List Cleanup → Action Unit
  | [] => World.reading fun _ => .ok ()
  | c :: cs => fun w => do
    let first ← c.perform now id w
    let rest ← performAll now id cs first.state
    return { rest with log := first.log ++ rest.log }

/-- Everything a session owns goes, its connection first and its record last. -/
def endSession : List Cleanup :=
  [.reportClosed, .dropSubscriptions, .dropCounters, .reportTerminated]

end Cleanup

/-- The broker's side of session calls: what it does within a call to terminate a session or to
close its connection, and whether it finds an open connection to close. -/
structure SessionControl where
  onTerminate : List Cleanup := []
  onClose : List Cleanup := []
  hadConnection : Bool := true
  deriving DecidableEq, Repr

namespace SessionControl

/-- A broker that leaves the listings to later events. -/
def passive (hadConnection : Bool) : SessionControl := { hadConnection }

/-- A broker that cleans up within the call. -/
def acting (hadConnection : Bool) : SessionControl where
  onTerminate := Cleanup.endSession
  onClose := [.reportClosed]
  hadConnection := hadConnection

end SessionControl

namespace World

def noteCall (w : World) (c : SessionCall) : World := { w with calls := w.calls.push c }

/-- Forces a client off. A clean session is terminated; otherwise only its connection is closed
and the session stays listed. The empty text names no client. -/
def deleteClient (control : SessionControl) (now : Timestamp) (id : String) (clean : Bool) :
    Action (Except AdminError Unit) := fun w => do
  if id.isEmpty then
    return ⟨.error (.invalidArgument "client_id" id), w, []⟩
  else if clean then
    let o ← Cleanup.performAll now id control.onTerminate (w.noteCall (.terminate id))
    return ⟨.ok (), o.state, .sessionTerminating id :: o.log⟩
  else
    let o ← Cleanup.performAll now id control.onClose (w.noteCall (.close id))
    let found := if control.hadConnection then .connectionClosed id else .noConnection id
    return ⟨.ok (), o.state, o.log ++ [found]⟩

end World

end BrokerAdmin
