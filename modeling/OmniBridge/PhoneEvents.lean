import OmniBridge.PhoneTrustStore

/-! What reaches the phone's notification source: the platform's notifications,
the events its threads offer, and the bounded queue those events wait in. -/

namespace OmniBridge.Notifications

open Trust (NotificationPolicy LockPolicy Chars)

scoped instance lawfulBEqBytes : LawfulBEq (List UInt8) := inferInstance

def EVENT_QUEUE_CAPACITY : Nat := 256

structure PlatformNotification where
  platformKey : String
  packageName : String
  secondaryProfile : Bool := false
  postedAtUnixMs : Int := 0
  ongoing : Bool := false
  clearable : Bool := true
  visibility : Int := 0
  androidImportance : Int := 3
  category : Option String := none
  groupKey : Option String := none
  groupSummary : Bool := false
  title : String := ""
  body : String := ""
  hasProgress : Bool := false
  progressCurrent : Int := 0
  progressMax : Int := 0
  progressIndeterminate : Bool := false
deriving DecidableEq

inductive NotificationRole where
  | UNSPECIFIED | SOURCE | SINK | DISMISS_TARGET | DISMISS_REPORTER | UNRECOGNIZED
deriving DecidableEq

inductive Control where
  | roles (roles : List NotificationRole) (epoch : UInt32)
  | result
  | dismiss (notificationId : List UInt8) (originDeviceId : Chars)
  | upsert (notificationId : List UInt8)
  | remove (notificationId : List UInt8)
  | sync
  | unset
deriving DecidableEq

inductive NotificationEvent (Peer : Type) where
  | posted (notification : PlatformNotification)
  | removed (platformKey : String) (listenerCancelled : Bool)
  | listenerConnected
  | listenerDisconnected
  | sessionAttached (peer : Peer) (sender : Nat)
  | sessionDetached (peer : Peer)
  | policyChanged
  | inbound (peer : Peer) (control : Control)
deriving DecidableEq

variable {Peer : Type}

namespace NotificationEvent

def isTerminal : NotificationEvent Peer → Bool
  | removed _ _ | listenerDisconnected | sessionDetached _ => true
  | _ => false

def isPostedOf (key : String) : NotificationEvent Peer → Bool
  | posted n => n.platformKey = key
  | _ => false

end NotificationEvent

def replaceFirst {α : Type} (p : α → Bool) (b : α) : List α → Option (List α)
  | [] => none
  | a :: l => if p a then some (b :: l) else (replaceFirst p b l).map (a :: ·)

/-- `NotificationOutboundQueue`; its counters are read by nothing but a log line. -/
structure NotificationOutboundQueue (Peer : Type) where
  events : List (NotificationEvent Peer) := []
  droppedNonTerminal : Nat := 0
  droppedTerminal : Nat := 0
  coalesced : Nat := 0
deriving DecidableEq

namespace NotificationOutboundQueue

variable (event : NotificationEvent Peer)

variable (events : List (NotificationEvent Peer))

def coalesce : Option (List (NotificationEvent Peer)) :=
  match event with
  | .posted n => replaceFirst (NotificationEvent.isPostedOf n.platformKey) event events
  | _ => none

/-- A removal supersedes the posts of its key that are still waiting. -/
def purge : List (NotificationEvent Peer) :=
  match event with
  | .removed key _ => events.filter (fun e => !e.isPostedOf key)
  | _ => events

variable (q : NotificationOutboundQueue Peer)

def offer : NotificationOutboundQueue Peer :=
  match coalesce event q.events with
  | some events => { q with events := events, coalesced := q.coalesced + 1 }
  | none =>
    let events := purge event q.events
    if events.length < EVENT_QUEUE_CAPACITY then { q with events := events ++ [event] }
    else if events.any (fun e => !e.isTerminal) then
      { q with events := events.eraseP (fun e => !e.isTerminal) ++ [event]
               droppedNonTerminal := q.droppedNonTerminal + 1 }
    else if event.isTerminal then
      { q with events := events.tail ++ [event], droppedTerminal := q.droppedTerminal + 1 }
    else { q with events := events, droppedNonTerminal := q.droppedNonTerminal + 1 }

/-- The event an offer throws out, if any, and the events behind it in the queue,
the offered one last. -/
def thrownOut : List (NotificationEvent Peer) :=
  match coalesce event q.events with
  | some _ => []
  | none =>
    let events := purge event q.events
    if events.length < EVENT_QUEUE_CAPACITY then []
    else
      match events.dropWhile NotificationEvent.isTerminal with
      | e :: behind => e :: behind ++ [event]
      | [] => if event.isTerminal then events ++ [event] else [event]

end NotificationOutboundQueue

inductive DropReason where
  | OWN_PACKAGE | SECRET_VISIBILITY | IMPORTANCE_NONE | NOT_GRANTED | MIRRORING_OFF
  | SECONDARY_PROFILE | ONGOING | NOT_ALLOWED_APP | LOCK_SUPPRESSED | NOT_A_SOURCE
deriving DecidableEq

inductive FilterVerdict where
  | allow
  | drop (reason : DropReason)
deriving DecidableEq

def VISIBILITY_SECRET : Int := -1

def ANDROID_IMPORTANCE_NONE : Int := 0

def screen (notification : PlatformNotification) (ownPackage : String) : FilterVerdict :=
  if notification.packageName = ownPackage then .drop .OWN_PACKAGE
  else if notification.visibility = VISIBILITY_SECRET then .drop .SECRET_VISIBILITY
  else if notification.androidImportance = ANDROID_IMPORTANCE_NONE then .drop .IMPORTANCE_NONE
  else .allow

def allowsApp (policy : NotificationPolicy) (packageName : String) : Bool :=
  policy.allowMirror && decide (packageName ∈ policy.allowedApps)

def decideForPeer (notification : PlatformNotification) (policy : NotificationPolicy)
    (sourceLocked : Bool) : FilterVerdict :=
  if !policy.allowMirror then
    .drop (if policy = NotificationPolicy.DENIED then .NOT_GRANTED else .MIRRORING_OFF)
  else if notification.secondaryProfile && !policy.includeWorkProfile then .drop .SECONDARY_PROFILE
  else if notification.ongoing && !policy.includeOngoing then .drop .ONGOING
  else if !allowsApp policy notification.packageName then .drop .NOT_ALLOWED_APP
  else if sourceLocked && policy.whenSourceLocked = .SUPPRESS then .drop .LOCK_SUPPRESSED
  else .allow

theorem ite_drop_eq_allow {c} [Decidable c] {reason verdict} :
    (if c then FilterVerdict.drop reason else verdict) = .allow ↔ ¬c ∧ verdict = .allow := by
  by_cases hc : c <;> simp [hc]

variable {policy : NotificationPolicy} {n : PlatformNotification} {locked : Bool}

theorem decideForPeer_eq_allow :
    decideForPeer n policy locked = .allow ↔ policy.allowMirror ∧
      (n.secondaryProfile → policy.includeWorkProfile) ∧ (n.ongoing → policy.includeOngoing) ∧
      n.packageName ∈ policy.allowedApps ∧ (locked → policy.whenSourceLocked ≠ .SUPPRESS) := by
  simp only [decideForPeer, allowsApp, ite_drop_eq_allow, Bool.and_eq_true, Bool.not_eq_true',
    decide_eq_true_eq, not_and, Bool.not_eq_false, Bool.and_eq_false_iff, decide_eq_false_iff_not,
    not_or, not_not, and_true]
  tauto

theorem decideForPeer_unlocked (h : decideForPeer n policy locked = .allow) :
    decideForPeer n policy false = .allow := by
  obtain ⟨hmir, hwork, hong, happ, -⟩ := decideForPeer_eq_allow.mp h
  exact decideForPeer_eq_allow.mpr ⟨hmir, hwork, hong, happ, nofun⟩

end OmniBridge.Notifications
