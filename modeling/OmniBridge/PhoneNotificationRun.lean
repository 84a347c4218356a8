import OmniBridge.Run
import OmniBridge.PhoneNotifications

/-! The notification source among the threads that feed it: the platform's
listener, the settings, the sessions and the one producer that drains the queue
and handles its events one after the other. -/

namespace OmniBridge.Notifications

open Trust (NotificationPolicy)

variable {Peer : Type}

/-- `shade` is the platform's own list; `bound` says whether the platform calls
the listener. `offered` is every event offered to the queue so far. -/
structure Phone (Peer : Type) where
  source : Source Peer := {}
  queue : NotificationOutboundQueue Peer := {}
  batch : List (NotificationEvent Peer) := []
  shade : List PlatformNotification := []
  bound : Bool := false
  policies : Peer → NotificationPolicy := fun _ => .DENIED
  locked : Bool := true
  now : Int := 0
  closed : List Nat := []
  offered : List (NotificationEvent Peer) := []

inductive Action (Peer : Type) where
  | post (notification : PlatformNotification)
  | remove (platformKey : String) (listenerCancelled : Bool)
  | createService
  | connectListener
  | disconnectListener
  | destroyService
  | setPolicy (peer : Peer) (policy : NotificationPolicy)
  | refreshPolicy
  | attachSession (peer : Peer) (sender : Nat)
  | detachSession (peer : Peer)
  | receive (peer : Peer) (control : Control)
  | setLocked (locked : Bool)
  | elapse (ms : Nat)
  | closeSender (sender : Nat)
  | drain
  | handle (cancels : Bool)

namespace Phone

def offer (event : NotificationEvent Peer) (s : Phone Peer) : Phone Peer :=
  { s with queue := s.queue.offer event, offered := s.offered ++ [event] }

def pending (s : Phone Peer) : List (NotificationEvent Peer) := s.batch ++ s.queue.events

def view (cancels : Bool) (s : Phone Peer) : View Peer where
  active := if s.bound then some s.shade else none
  policyFor := s.policies
  locked := s.locked
  now := s.now
  alive := fun sender => !s.closed.contains sender
  cancels := cancels

def withListener (control : Bool) (s : Phone Peer) : Phone Peer :=
  { s with source := { s.source with listenerControl := control } }

def event (s : Phone Peer) : Action Peer → Option (NotificationEvent Peer)
  | .post n => if s.bound then some (.posted n) else none
  | .remove key listenerCancelled => if s.bound then some (.removed key listenerCancelled) else none
  | .connectListener => some .listenerConnected
  | .disconnectListener | .destroyService => some .listenerDisconnected
  | .setPolicy _ _ | .refreshPolicy => some .policyChanged
  | .attachSession peer sender => some (.sessionAttached peer sender)
  | .detachSession peer => some (.sessionDetached peer)
  | .receive peer control => some (.inbound peer control)
  | .createService | .setLocked _ | .elapse _ | .closeSender _ | .drain | .handle _ => none

variable [DecidableEq Peer]

def world (s : Phone Peer) : Action Peer → Phone Peer
  | .post n => { s with shade := s.shade.filter (·.platformKey ≠ n.platformKey) ++ [n] }
  | .remove key _ => { s with shade := s.shade.filter (·.platformKey ≠ key) }
  | .createService => s.withListener true
  | .connectListener => { s with bound := true }.withListener true
  | .disconnectListener => { s with bound := false }
  | .destroyService => { s with bound := false }.withListener false
  | .setPolicy peer policy => { s with policies := Function.update s.policies peer policy }
  | .setLocked locked => { s with locked := locked }
  | .elapse ms => { s with now := s.now + ms }
  | .closeSender sender => { s with closed := sender :: s.closed }
  | .refreshPolicy | .attachSession _ _ | .detachSession _ | .receive _ _ | .drain | .handle _ => s

def step (x : Device) (s : Phone Peer) : Action Peer → Option (Phone Peer)
  | .drain =>
    match s.batch with
    | [] => some { s with batch := s.queue.events, queue := { s.queue with events := [] } }
    | _ :: _ => none
  | .handle cancels =>
    match s.batch with
    | [] => none
    | event :: rest =>
      some { s with batch := rest, source := s.source.handle x (s.view cancels) event }
  | a => some ((s.event a).elim (s.world a) (s.world a).offer)

end Phone

end OmniBridge.Notifications
