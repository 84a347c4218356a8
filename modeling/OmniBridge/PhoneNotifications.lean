import OmniBridge.Bounded
import OmniBridge.LinkedMap
import OmniBridge.PhoneEvents
import OmniBridge.Traverse

/-! The phone's notification source: one coroutine that handles the queued
events in order, keeps a session for each connected computer, and says what each
of them may see. -/

namespace OmniBridge.Notifications

open Linked

open Trust (NotificationPolicy LockPolicy Chars)

def NOTIFICATION_ID_LENGTH : Nat := 16

def DEVICE_ID_HEX_LENGTH : Nat := 32

def MAX_TITLE_BYTES : Nat := 512

def MAX_BODY_BYTES : Nat := 4096

def MAX_SNAPSHOT_ENTRIES : Nat := 100

def MAX_TRACKED_NOTIFICATIONS : Nat := 512

def ECHO_CAPACITY : Nat := 64

def ECHO_TTL_MS : Int := 10000

inductive NotificationOutcome where
  | REMOVED | NOT_AUTHORIZED | REJECTED_POLICY | REJECTED_ROLE | NOT_DISMISSIBLE
  | UNKNOWN_NOTIFICATION | INVALID | UNAVAILABLE | FAILED
deriving DecidableEq

structure ReducedNotification where
  title : String
  body : String
  redacted : Bool
deriving DecidableEq

/-- What the source is constructed with, and the text, digest and keyed-hash
functions it calls. `derive` is the id under this phone's notification secret. -/
structure Device where
  ownPackage : String
  localDeviceId : Chars
  accessGranted : Bool
  secretAvailable : Bool
  derive : String → List UInt8
  labelFor : String → String
  reduceText : String → Nat → String
  contentHash : PlatformNotification → String → ReducedNotification → List UInt8
  withinCeiling : PlatformNotification → String → ReducedNotification → Bool

def NotificationReduction.reduce (x : Device) (n : PlatformNotification)
    (policy : NotificationPolicy) (sourceLocked : Bool) : Option ReducedNotification :=
  match if sourceLocked then policy.whenSourceLocked else .FULL with
  | .SUPPRESS => none
  | .APP_ONLY => some ⟨"", "", true⟩
  | .FULL => some ⟨x.reduceText n.title MAX_TITLE_BYTES, x.reduceText n.body MAX_BODY_BYTES, false⟩

/-- A message to a computer. Both markers of a bracket carry its one sync id. -/
inductive Message where
  | roles (roles : List NotificationRole) (epoch : Nat)
  | upsert (notificationId : List UInt8) (notification : PlatformNotification) (appLabel : String)
      (reduced : ReducedNotification)
  | remove (notificationId : List UInt8)
  | syncBegin
  | syncEnd
  | result (notificationId : List UInt8) (outcome : NotificationOutcome)
deriving DecidableEq

structure SnapshotShape where
  allowMirror : Bool
  allowedApps : Finset String
  includeOngoing : Bool
  includeWorkProfile : Bool
deriving DecidableEq

def shapeOf (policy : NotificationPolicy) : SnapshotShape :=
  ⟨policy.allowMirror, policy.allowedApps, policy.includeOngoing, policy.includeWorkProfile⟩

def SOURCING : List NotificationRole := [.SOURCE, .DISMISS_TARGET]

def rolesWhen (sourcing : Bool) : List NotificationRole := if sourcing then SOURCING else []

structure Session (Peer : Type) where
  peer : Peer
  sender : Nat
  announced : Option (List NotificationRole) := none
  epoch : Nat := 0
  peerEpoch : UInt32 := 0
  peerRoles : List NotificationRole := []
  sent : Linked (List UInt8) (List UInt8) := []
  snapshotShape : Option SnapshotShape := none
  log : List Message := []
deriving DecidableEq

structure SourceIdMap where
  byId : Linked (List UInt8) String := []
  byKey : Linked String (List UInt8) := []
deriving DecidableEq

structure EchoEntry (Peer : Type) where
  peer : Peer
  armedAtMs : Int
deriving DecidableEq

/-- A call of the listener's `cancel`, with what it was made on. -/
structure Cancel (Peer : Type) where
  peer : Peer
  notificationId : List UInt8
  platformKey : String
deriving DecidableEq

inductive BindRequest where
  | bind | unbind
deriving DecidableEq

structure Source (Peer : Type) where
  sessions : List (Session Peer) := []
  idMap : SourceIdMap := {}
  echo : Linked (List UInt8) (EchoEntry Peer) := []
  listenerControl : Bool := false
  listenerConnected : Bool := false
  requests : List BindRequest := []
  cancels : List (Cancel Peer) := []

/-- What handling an event reads of the world: the shade as the listener sees
it, the policies, the lock, the clock, which senders still work, and whether the
platform accepts a cancel. -/
structure View (Peer : Type) where
  active : Option (List PlatformNotification)
  policyFor : Peer → NotificationPolicy
  locked : Bool
  now : Int
  alive : Nat → Bool
  cancels : Bool

variable {Peer : Type}

namespace SourceIdMap

def trim (m : SourceIdMap) : SourceIdMap :=
  ⟨keepLast MAX_TRACKED_NOTIFICATIONS m.byId,
    (m.byId.take (m.byId.length - MAX_TRACKED_NOTIFICATIONS)).foldl
      (fun byKey p => remove p.2 byKey) m.byKey⟩

def remember (id : List UInt8) (key : String) (m : SourceIdMap) : SourceIdMap :=
  trim ⟨putLast id key m.byId, putLast key id m.byKey⟩

def platformKey (id : List UInt8) (m : SourceIdMap) : Option String := get id m.byId

def notificationId (key : String) (m : SourceIdMap) : Option (List UInt8) := get key m.byKey

def forgetKey (key : String) (m : SourceIdMap) : SourceIdMap :=
  match get key m.byKey with
  | none => m
  | some id => ⟨remove id m.byId, remove key m.byKey⟩

def retainOnly (keys : List String) (m : SourceIdMap) : SourceIdMap :=
  (m.byKey.map Prod.fst).foldl (fun m key => if key ∈ keys then m else m.forgetKey key) m

end SourceIdMap

namespace EchoSuppression

def expire (now : Int) (m : Linked (List UInt8) (EchoEntry Peer)) :
    Linked (List UInt8) (EchoEntry Peer) :=
  m.dropWhile (fun p => p.2.armedAtMs ≤ now - ECHO_TTL_MS)

def arm (now : Int) (id : List UInt8) (peer : Peer) (m : Linked (List UInt8) (EchoEntry Peer)) :
    Linked (List UInt8) (EchoEntry Peer) :=
  keepLast ECHO_CAPACITY (putLast id ⟨peer, now⟩ (expire now m))

def consume (now : Int) (id : List UInt8) (m : Linked (List UInt8) (EchoEntry Peer)) :
    Option Peer × Linked (List UInt8) (EchoEntry Peer) :=
  let m := expire now m
  ((get id m).map EchoEntry.peer, remove id m)

end EchoSuppression

namespace Session

/-- A message to a session whose channel is closed is lost, and the handler goes on. -/
def emit (alive : Bool) (m : Message) (s : Session Peer) : Session Peer :=
  if alive then { s with log := s.log ++ [m] } else s

def remember (id hash : List UInt8) (s : Session Peer) : Session Peer :=
  { s with sent := keepLast MAX_TRACKED_NOTIFICATIONS (putLast id hash s.sent) }

@[simp] theorem remember_peer (id hash : List UInt8) (s : Session Peer) :
    (s.remember id hash).peer = s.peer := by
  dsimp only [remember]

@[simp] theorem remember_sender (id hash : List UInt8) (s : Session Peer) :
    (s.remember id hash).sender = s.sender := by
  dsimp only [remember]

@[simp] theorem remember_announced (id hash : List UInt8) (s : Session Peer) :
    (s.remember id hash).announced = s.announced := by
  dsimp only [remember]

@[simp] theorem remember_snapshotShape (id hash : List UInt8) (s : Session Peer) :
    (s.remember id hash).snapshotShape = s.snapshotShape := by
  dsimp only [remember]

@[simp] theorem remember_log (id hash : List UInt8) (s : Session Peer) :
    (s.remember id hash).log = s.log := by
  dsimp only [remember]

def announceRoles (sourcing alive : Bool) (s : Session Peer) : Session Peer :=
  if s.announced = some (rolesWhen sourcing) then s
  else emit alive (.roles (rolesWhen sourcing) (s.epoch + 1))
    { s with announced := some (rolesWhen sourcing), epoch := s.epoch + 1 }

def applyRoles (roles : List NotificationRole) (epoch : UInt32) (s : Session Peer) :
    Option (Session Peer) :=
  if epoch = 0 ∨ epoch ≤ s.peerEpoch then none
  else some { s with
    peerEpoch := epoch
    peerRoles := roles.filter (fun r => r ≠ .UNRECOGNIZED ∧ r ≠ .UNSPECIFIED) }

def post (x : Device) (v : View Peer) (n : PlatformNotification) (s : Session Peer) :
    Session Peer :=
  let policy := v.policyFor s.peer
  match decideForPeer n policy v.locked with
  | .drop _ => s
  | .allow =>
    if .SINK ∉ s.peerRoles then s
    else
      match NotificationReduction.reduce x n policy v.locked with
      | none => s
      | some reduced =>
        let label := x.labelFor n.packageName
        let hash := x.contentHash n label reduced
        if !x.withinCeiling n label reduced then s
        else if get (x.derive n.platformKey) s.sent = some hash then s
        else emit (v.alive s.sender) (.upsert (x.derive n.platformKey) n label reduced)
          (s.remember (x.derive n.platformKey) hash)

variable [DecidableEq Peer]

def unpost (v : View Peer) (id : List UInt8) (asked : Option Peer) (s : Session Peer) :
    Session Peer :=
  if (get id s.sent).isNone then s
  else
    let s := { s with sent := remove id s.sent }
    if asked = some s.peer then s else emit (v.alive s.sender) (.remove id) s

end Session

def snapshotItem (x : Device) (v : View Peer) (policy : NotificationPolicy)
    (n : PlatformNotification) : Option ReducedNotification :=
  match screen n x.ownPackage, decideForPeer n policy v.locked with
  | .allow, .allow => NotificationReduction.reduce x n policy v.locked
  | _, _ => none

def snapshotItems (x : Device) (v : View Peer) (policy : NotificationPolicy) :
    List PlatformNotification → Nat → SourceIdMap → Session Peer → SourceIdMap × Session Peer
  | [], _, m, s => (m, s)
  | n :: rest, sent, m, s =>
    if MAX_SNAPSHOT_ENTRIES ≤ sent then (m, s)
    else
      match snapshotItem x v policy n with
      | none => snapshotItems x v policy rest sent m s
      | some reduced =>
        let id := x.derive n.platformKey
        let label := x.labelFor n.packageName
        let m := m.remember id n.platformKey
        if !x.withinCeiling n label reduced then snapshotItems x v policy rest sent m s
        else
          snapshotItems x v policy rest (sent + 1) m
            ((s.remember id (x.contentHash n label reduced)).emit (v.alive s.sender)
              (.upsert id n label reduced))

/-- `sendSnapshot` past its guards; an unreadable shade leaves the session as it was. -/
def sendSnapshot (x : Device) (v : View Peer) (m : SourceIdMap) (s : Session Peer) :
    SourceIdMap × Session Peer :=
  match v.active with
  | none => (m, s)
  | some active =>
    let policy := v.policyFor s.peer
    let sorted := active.insertionSort (fun a b => b.postedAtUnixMs ≤ a.postedAtUnixMs)
    let shown := snapshotItems x v policy sorted 0 m (s.emit (v.alive s.sender) .syncBegin)
    (shown.1, { shown.2.emit (v.alive s.sender) .syncEnd with
      snapshotShape := some (shapeOf policy) })

namespace Session

theorem announceRoles_cases (sourcing alive) (s : Session Peer) :
    s.announced = some (rolesWhen sourcing) ∧ s.announceRoles sourcing alive = s ∨
      s.announced ≠ some (rolesWhen sourcing) ∧
      s.announceRoles sourcing alive = emit alive (.roles (rolesWhen sourcing) (s.epoch + 1))
      { s with announced := some (rolesWhen sourcing), epoch := s.epoch + 1 } := by
  by_cases h : s.announced = some (rolesWhen sourcing)
  · exact .inl ⟨h, if_pos h⟩
  · exact .inr ⟨h, if_neg h⟩

theorem post_cases (x) (v : View Peer) (n : PlatformNotification) (s : Session Peer) :
    s.post x v n = s ∨ ∃ reduced hash, decideForPeer n (v.policyFor s.peer) v.locked = .allow ∧
      s.post x v n = emit (v.alive s.sender)
      (.upsert (x.derive n.platformKey) n (x.labelFor n.packageName) reduced)
      (s.remember (x.derive n.platformKey) hash) := by
  unfold post
  dsimp only
  split
  · exact .inl rfl
  · next hdec =>
    split
    · exact .inl rfl
    split
    · exact .inl rfl
    · next reduced _ =>
      split
      · exact .inl rfl
      · split
        · exact .inl rfl
        · exact .inr ⟨reduced, _, hdec, rfl⟩

theorem unpost_cases [DecidableEq Peer] (v) (id : List UInt8) (asked : Option Peer)
    (s : Session Peer) :
    get id s.sent = none ∧ s.unpost v id asked = s ∨ asked = some s.peer ∧
      s.unpost v id asked = { s with sent := remove id s.sent } ∨
      s.unpost v id asked = emit (v.alive s.sender) (.remove id) { s with
      sent := remove id s.sent } := by
  unfold unpost
  split
  · next h => exact .inl ⟨Option.isNone_iff_eq_none.mp h, rfl⟩
  dsimp only
  split
  · next h => exact .inr (.inl ⟨h, rfl⟩)
  · exact .inr (.inr rfl)

end Session

variable {policy : NotificationPolicy} {t : Session Peer} {v : View Peer} {x : Device}

theorem snapshotItems_rule {Q : SourceIdMap → Session Peer → Prop} {items}
    (hitem : ∀ m t n reduced hash, n ∈ items → snapshotItem x v policy n = some reduced → Q m t →
      Q (m.remember (x.derive n.platformKey) n.platformKey) t ∧
      Q (m.remember (x.derive n.platformKey) n.platformKey)
      ((t.remember (x.derive n.platformKey) hash).emit (v.alive t.sender)
      (.upsert (x.derive n.platformKey) n (x.labelFor n.packageName) reduced))) (sent : Nat) {m}
    (h : Q m t) :
    Q (snapshotItems x v policy items sent m t).1 (snapshotItems x v policy items sent m t).2 := by
  induction items generalizing sent m t with
  | nil => exact h
  | cons n rest ih =>
    have hrest := fun m t k reduced hash (hk : k ∈ rest) =>
      hitem m t k reduced hash (List.mem_cons_of_mem n hk)
    unfold snapshotItems
    split
    · exact h
    split
    · exact ih hrest sent h
    · next reduced hred =>
      have hn := hitem m t n reduced (x.contentHash n (x.labelFor n.packageName) reduced)
        List.mem_cons_self hred h
      dsimp only
      split
      · exact ih hrest sent hn.1
      · exact ih hrest (sent + 1) hn.2

theorem sendSnapshot_cases (x) (v : View Peer) (m : SourceIdMap) (t : Session Peer) :
    v.active = none ∧ sendSnapshot x v m t = (m, t) ∨ ∃ active ∈ v.active, ∃ items,
      (∀ n ∈ items, n ∈ active) ∧ ∃ r, r = snapshotItems x v (v.policyFor t.peer) items 0 m
      (t.emit (v.alive t.sender) .syncBegin) ∧
      sendSnapshot x v m t = (r.1,
      { r.2.emit (v.alive t.sender) .syncEnd with
      snapshotShape := some (shapeOf (v.policyFor t.peer)) }) := by
  unfold sendSnapshot
  cases hact : v.active with
  | none => exact .inl ⟨rfl, rfl⟩
  | some active =>
    refine .inr ⟨active, rfl, active.insertionSort (fun a b => b.postedAtUnixMs ≤ a.postedAtUnixMs),
      fun n hn => (List.perm_insertionSort _ _).mem_iff.mp hn, _, rfl, rfl⟩

namespace Source

section

variable (x : Device)

def isSourcing (s : Source Peer) : Bool :=
  s.listenerControl && s.listenerConnected && x.accessGranted && x.secretAvailable

def mirroringIsLive (sourcing : Bool) (v : View Peer) (s : Session Peer) : Bool :=
  sourcing && decide (.SINK ∈ s.peerRoles) && (v.policyFor s.peer).allowMirror

variable (v : View Peer)

def converge (sourcing : Bool) (m : SourceIdMap) (s : Session Peer) : SourceIdMap × Session Peer :=
  let s := s.announceRoles sourcing (v.alive s.sender)
  if !mirroringIsLive sourcing v s then (m, { s with snapshotShape := none })
  else if s.snapshotShape ≠ some (shapeOf (v.policyFor s.peer)) then sendSnapshot x v m s
  else (m, s)

theorem converge_cases (x) (v : View Peer) (sourcing : Bool) (m : SourceIdMap) (t) :
    ∃ a, a = t.announceRoles sourcing (v.alive t.sender) ∧
      (mirroringIsLive sourcing v a = false ∧
      converge x v sourcing m t = (m, { a with snapshotShape := none }) ∨
      mirroringIsLive sourcing v a ∧ a.snapshotShape ≠ some (shapeOf (v.policyFor a.peer)) ∧
      converge x v sourcing m t = sendSnapshot x v m a ∨ mirroringIsLive sourcing v a ∧
      a.snapshotShape = some (shapeOf (v.policyFor a.peer)) ∧
      converge x v sourcing m t = (m, a)) := by
  refine ⟨_, rfl, ?_⟩
  unfold converge
  dsimp only
  generalize t.announceRoles sourcing (v.alive t.sender) = a
  cases hlive : mirroringIsLive sourcing v a with
  | false => simp
  | true =>
    by_cases hshape : a.snapshotShape = some (shapeOf (v.policyFor a.peer))
    all_goals simp [hshape]

variable (s : Source Peer)

def convergeAll : Source Peer :=
  let r := each (converge x v (s.isSourcing x)) s.idMap s.sessions
  { s with idMap := r.1, sessions := r.2 }

def updateBinding : Source Peer :=
  if !x.accessGranted then s
  else
    let eligible := s.sessions.any (fun t => (v.policyFor t.peer).allowMirror)
    if eligible && !s.listenerConnected then { s with requests := s.requests ++ [.bind] }
    else if !eligible && s.listenerConnected && s.listenerControl then
      { s with requests := s.requests ++ [.unbind] }
    else s

def rebuildIdMap : Source Peer :=
  match x.secretAvailable, s.listenerControl, v.active with
  | true, true, some active =>
    let remembered := (active.filter (fun n => screen n x.ownPackage = .allow)).foldl
      (fun m n => m.remember (x.derive n.platformKey) n.platformKey) s.idMap
    { s with idMap := remembered.retainOnly (active.map PlatformNotification.platformKey) }
  | _, _, _ => s

def handlePosted (n : PlatformNotification) (s : Source Peer) : Source Peer :=
  match screen n x.ownPackage, s.isSourcing x with
  | .allow, true =>
    { s with
      idMap := s.idMap.remember (x.derive n.platformKey) n.platformKey
      sessions := s.sessions.map (fun t => t.post x v n) }
  | _, _ => s

end

variable [DecidableEq Peer]

def find (peer : Peer) (s : Source Peer) : Option (Session Peer) := s.sessions.find? (·.peer = peer)

def put (t : Session Peer) (s : Source Peer) : Source Peer :=
  if s.sessions.any (·.peer = t.peer) then
    { s with sessions := s.sessions.map (fun u => if u.peer = t.peer then t else u) }
  else { s with sessions := s.sessions ++ [t] }

def handleRemoved (v : View Peer) (key : String) (listenerCancelled : Bool) (s : Source Peer) :
    Source Peer :=
  match s.idMap.notificationId key with
  | none => { s with idMap := s.idMap.forgetKey key }
  | some id =>
    let asked := if listenerCancelled then EchoSuppression.consume v.now id s.echo
      else (none, s.echo)
    { s with
      idMap := s.idMap.forgetKey key
      sessions := s.sessions.map (fun t => t.unpost v id asked.1)
      echo := asked.2 }

def answer (v : View Peer) (id : List UInt8) (outcome : NotificationOutcome) (t : Session Peer)
    (s : Source Peer) : Source Peer :=
  if id.length ≠ NOTIFICATION_ID_LENGTH then s
  else s.put (t.emit (v.alive t.sender) (.result id outcome))

def isDeviceId (value : Chars) : Bool :=
  value.length = DEVICE_ID_HEX_LENGTH && value.all (fun c => (Trust.hexValue c).isSome)

variable (x : Device)

/-- `NotificationDismissRules.screen` for an id of the right width: the outcome
it refuses with, or none to go on. -/
def screenDismiss (origin : Chars) (policy : NotificationPolicy) (canDismiss : Bool) :
    Option NotificationOutcome :=
  if !isDeviceId origin then some .INVALID
  else if policy = .DENIED then some .NOT_AUTHORIZED
  else if !canDismiss then some .REJECTED_ROLE
  else if !policy.allowMirror || !policy.allowDismissSync then some .REJECTED_POLICY
  else if origin ≠ x.localDeviceId then some .INVALID
  else none

def decideClearable (current : Option PlatformNotification) : NotificationOutcome :=
  match current with
  | none => .UNKNOWN_NOTIFICATION
  | some n => if !n.clearable || n.ongoing then .NOT_DISMISSIBLE else .REMOVED

def handleDismiss (v : View Peer) (t : Session Peer) (id : List UInt8) (origin : Chars)
    (s : Source Peer) : Source Peer :=
  if id.length ≠ NOTIFICATION_ID_LENGTH then s
  else
    match screenDismiss x origin (v.policyFor t.peer) (s.isSourcing x) with
    | some outcome => s.answer v id outcome t
    | none =>
      match s.idMap.platformKey id with
      | none => s.answer v id .UNKNOWN_NOTIFICATION t
      | some key =>
        if !s.listenerControl then s.answer v id .UNAVAILABLE t
        else
          let current := v.active.bind (fun active => active.find? (·.platformKey = key))
          match decideClearable current with
          | .REMOVED =>
            let s : Source Peer := { s with
              echo := EchoSuppression.arm v.now id t.peer s.echo
              cancels := s.cancels ++ [⟨t.peer, id, key⟩] }
            if v.cancels then s.answer v id .REMOVED t
            else answer v id .FAILED t { s with echo := remove id s.echo }
          | .UNKNOWN_NOTIFICATION =>
            answer v id .UNKNOWN_NOTIFICATION t { s with idMap := s.idMap.forgetKey key }
          | outcome => s.answer v id outcome t

def handleInbound (v : View Peer) (peer : Peer) (control : Control) (s : Source Peer) :
    Source Peer :=
  match s.find peer with
  | none => s
  | some t =>
    match control with
    | .roles roles epoch =>
      match t.applyRoles roles epoch with
      | none => s
      | some t =>
        let r := converge x v (s.isSourcing x) s.idMap t
        put r.2 { s with idMap := r.1 }
    | .dismiss id origin =>
      if v.policyFor peer = .DENIED then s.answer v id .NOT_AUTHORIZED t
      else s.handleDismiss x v t id origin
    | .upsert id | .remove id =>
      s.answer v id (if v.policyFor peer = .DENIED then .NOT_AUTHORIZED else .REJECTED_ROLE) t
    | .result | .sync | .unset => s

def handle (v : View Peer) (s : Source Peer) : NotificationEvent Peer → Source Peer
  | .sessionAttached peer sender =>
    let t := Session.announceRoles (s.isSourcing x) (v.alive sender)
      ({ peer := peer, sender := sender } : Session Peer)
    let s := (s.put t).updateBinding x v
    let c := converge x v (s.isSourcing x) s.idMap t
    put c.2 { s with idMap := c.1 }
  | .sessionDetached peer =>
    updateBinding x v { s with sessions := s.sessions.filter (·.peer ≠ peer) }
  | .listenerConnected =>
    convergeAll x v (rebuildIdMap x v (updateBinding x v { s with listenerConnected := true }))
  | .listenerDisconnected =>
    { convergeAll x v { s with listenerConnected := false } with idMap := {}, echo := [] }
  | .policyChanged => convergeAll x v (s.updateBinding x v)
  | .posted n => s.handlePosted x v n
  | .removed key listenerCancelled => s.handleRemoved v key listenerCancelled
  | .inbound peer control => s.handleInbound x v peer control

end Source

end OmniBridge.Notifications
