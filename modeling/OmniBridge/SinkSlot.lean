import OmniBridge.SinkQueue
import OmniBridge.SinkTable

/-! Everything the sink holds for one peer, and its program cut at every point
where a task gives way to another: the sessions that attach and detach, the
reconnect timers, the messages of the peer, the platform's signals and the one
worker that drains the queue. What a step reads from outside the slot comes with
the action. -/

namespace OmniBridge.Sink

open List Option

inductive SinkError where
  | unavailable | failed | timedOut
deriving DecidableEq

inductive CloseReason where
  | expired | dismissed | closed | undefined
deriving DecidableEq

def CloseReason.isHumanDismissal (r : CloseReason) : Bool := r = .dismissed

structure Mirror where
  appName : String
  summary : String
  body : String
  urgency : Urgency
  redacted : Bool
deriving DecidableEq

/-- The sanitizers of `text.rs` and what the notification server renders. -/
structure Texts where
  appName : String → String → String
  presented : String → String → Bool → String × String
  bodyMarkup : Bool
  body : Bool

def Texts.buildMirror (x : Texts) (message : NotificationUpsert) : Presentation → Mirror
  | .full =>
    let appName := x.appName message.appLabel message.appId
    let text := x.presented message.title message.body x.bodyMarkup
    { appName := appName
      summary := if text.1 = "" then appName else text.1
      body := if x.body then text.2 else ""
      urgency := urgencyFor message.importance
      redacted := message.redacted }
  | .appOnly | .suppress =>
    let appName := x.appName message.appLabel message.appId
    { appName := appName, summary := appName, body := "",
      urgency := urgencyFor message.importance, redacted := true }

def Texts.plain : Texts := ⟨fun label _ => label, fun title body _ => (title, body), false, true⟩

def SYNC_TIMEOUT : Nat := 30

structure PeerState (Id : Type) [LinearOrder Id] where
  localRoles : LocalRoles := {}
  peerRoles : PeerRoles := {}
  mirrors : MirrorTable Id := {}
  snapshot : Snapshot Id := none
  snapshotDeadline : Option Nat := none
  connected : Bool := false
  locked : Bool := false
  dismissalsSent : Nat := 0
  dismissalsRefused : Nat := 0
  supersededSessions : Nat := 0
deriving DecidableEq

inductive Stage where
  | opened | stored | attached | passed
  | cleared (generation : Nat)
  | over
deriving DecidableEq

inductive Timer where
  | armed (generation : Nat)
  | checked
  | done
deriving DecidableEq

inductive Control (Id : Type) where
  | roles (announcement : NotificationRoles)
  | upsert (incoming : Incoming Id)
  | remove (id : Id)
  | sync (marker : SyncMarker)
  | dismiss (id : Id)
  | result (declined : Bool)
deriving DecidableEq

/-- What is put on the outbound channel of a session. The mark of a dismissal
counts the closed mirror it reports. -/
inductive Outgoing (Id : Type) where
  | roles (announcement : NotificationRoles)
  | dismiss (id : Id) (originDeviceId : String) (mark : Nat)
deriving DecidableEq

inductive Rest (Id : Type) where
  | done
  | reduce (affected : List (Id × MirrorEntry))
  | sweep (stale : List Id) (mark : Nat)

/-- Where the worker stands in the item it is processing. In `closing`, the server
ids are those of entries that are already out of the table, and the identities
those whose entries are still to be taken out. -/
inductive Task (Id : Type) where
  | idle
  | announcing (session : Nat) (available reporting : Bool)
  | announced (session : Nat) (announcement : NotificationRoles)
  | upsertGranted (incoming : Incoming Id) (policy : NotificationPolicy)
  | upsertSourced (incoming : Incoming Id) (policy : NotificationPolicy)
  | upsertPresented (incoming : Incoming Id) (presentation : Presentation)
  | displaying (incoming : Incoming Id) (presentation : Presentation) (replaces : Option ServerId)
  | displayed (incoming : Incoming Id) (presentation : Presentation)
    (answer : Except SinkError ServerId)
  | removeGranted (id : Id)
  | removeSourced (id : Id)
  | dismissing (session : Nat) (id : Id) (originDeviceId : String) (mark : Nat)
  | reconciling (named : Finset Id) (mark : Nat)
  | sweeping (stale : List Id) (mark : Nat)
  | lockStored (locked : Bool)
  | lockNoted
  | lockResolved (presentation : Presentation)
  | reducing (affected : List (Id × MirrorEntry))
  | redisplaying (id : Id) (mirror : Mirror) (replaces : ServerId) (rest : List (Id × MirrorEntry))
  | redisplayed (id : Id) (answer : Except SinkError ServerId) (rest : List (Id × MirrorEntry))
  | closing (serverIds : List ServerId) (ids : List Id) (rest : Rest Id)

def Task.outgoing {Id : Type} : Task Id → Option (Nat × Outgoing Id)
  | .announced session announcement => some (session, .roles announcement)
  | .dismissing session id originDeviceId mark => some (session, .dismiss id originDeviceId mark)
  | _ => none

def Rest.task {Id : Type} : Rest Id → Task Id
  | .done => .idle
  | .reduce affected => .reducing affected
  | .sweep stale mark => .sweeping stale mark

/-- A mirror the desktop closed: the signal's server id and reason, and what the
slot held for it and had attached at that moment. -/
structure ClosedMirror (Id : Type) where
  serverId : ServerId
  reason : CloseReason
  id : Id
  originDeviceId : String
  session : Option Nat
deriving DecidableEq

/-- A human dismissal on its way through `maybe_request_dismissal`; `allowed`
says that the policy has been asked. -/
structure Asking (Id : Type) where
  id : Id
  originDeviceId : String
  mark : Nat
  allowed : Bool
deriving DecidableEq

/-- `sessions` and `timers` say where each call stands, `batch` and `task` where
the worker stands. `received`, `closes`, `sent` and `swept` are the history: the
messages of each session, the mirrors the desktop closed, what was put on each
session and the mirrors a completed snapshot closed, with the marker that
completed it. -/
structure Slot (Id : Type) [LinearOrder Id] where
  generation : Nat := 0
  outbound : Option Nat := none
  state : PeerState Id := {}
  queue : WorkQueue Id Nat := {}
  batch : List (Item Id Nat) := []
  task : Task Id := .idle
  asking : Option (Asking Id) := none
  sessions : List Stage := []
  timers : List Timer := []
  received : List (Nat × Control Id) := []
  closes : List (ClosedMirror Id) := []
  sent : List (Nat × Outgoing Id) := []
  swept : List (Id × Nat) := []

structure Reading where
  policy : NotificationPolicy := {}
  locked : Bool := false
  available : Bool := true
  reporting : Bool := true
  shown : Except SinkError ServerId := .ok 0
  now : Nat := 0

inductive Action (Id : Type) where
  | attachGeneration
  | attachSender (session : Nat)
  | attachState (session : Nat)
  | detachCheck (session : Nat)
  | detachSender (session : Nat)
  | detachState (session : Nat)
  | timerGeneration (timer : Nat)
  | timerConnected (timer : Nat)
  | receive (session : Nat) (policy : NotificationPolicy) (control : Control Id)
  | work (reading : Reading)
  | syncTimeout (now : Nat)
  | serverGone
  | serverBack
  | lockSignal (locked : Bool)
  | noteClosed (serverId : ServerId) (reason : CloseReason)
  | askPolicy (policy : NotificationPolicy)
  | askRoles
  | revoke

section State

variable {Id : Type} [LinearOrder Id]

namespace PeerState

variable (p : PeerState Id)

def attach : PeerState Id :=
  { p with
    supersededSessions := if p.connected then bump u32Max p.supersededSessions
      else p.supersededSessions
    connected := true
    localRoles := .reset
    peerRoles := {}
    snapshot := none
    snapshotDeadline := none }

def spend : PeerState Id := { p with supersededSessions := p.supersededSessions - 1 }

def detach : PeerState Id :=
  { p with
    connected := false
    snapshot := none
    snapshotDeadline := none
    localRoles := .reset
    peerRoles := {} }

def isDuplicate (entry : MirrorEntry) (message : NotificationUpsert) (presentation : Presentation) :
    Bool :=
  (message.contentHash ≠ [] && entry.contentHash = message.contentHash) &&
    entry.reduced = presentation.isReduced && entry.serverId.isSome

def record (id : Id) : PeerState Id := { p with snapshot := (p.snapshot.upsert id).1 }

def withMirrors (mirrors : MirrorTable Id) : PeerState Id := { p with mirrors := mirrors }

def mark (marker : SyncMarker) (now : Nat) : PeerState Id :=
  { p with
    snapshot := (p.snapshot.marker marker).1
    snapshotDeadline :=
      match (p.snapshot.marker marker).2 with
      | .opened | .restarted => some (now + SYNC_TIMEOUT)
      | .complete _ => none
      | _ => p.snapshotDeadline }

def clear : PeerState Id :=
  { p with snapshot := none, snapshotDeadline := none, mirrors := p.mirrors.drain.1 }

def abandon : PeerState Id := { p with snapshot := none, snapshotDeadline := none }

end PeerState

namespace Slot

def offer (s : Slot Id) (work : Work Id) (mark : Nat) : Slot Id :=
  { s with queue := (s.queue.offer ⟨work, mark⟩).1 }

section

variable (s : Slot Id)

def withState (p : PeerState Id) : Slot Id := { s with state := p }

def withTask (t : Task Id) : Slot Id := { s with task := t }

variable (session : Nat)

def withStage (stage : Stage) : Slot Id :=
  { s with sessions := s.sessions.set session stage }

def attachGeneration : Slot Id :=
  { s with generation := (s.generation + 1) % 2 ^ 64, sessions := s.sessions ++ [.opened] }

def attachSender : Slot Id :=
  { s with outbound := some session }.withStage session .stored

def attachState : Slot Id :=
  ((s.withState s.state.attach).withStage session .attached).offer .announceRoles 0

def detachCheck : Slot Id :=
  if 0 < s.state.supersededSessions then
    (s.withState s.state.spend).withStage session .over
  else s.withStage session .passed

def detachSender : Slot Id :=
  { s with outbound := none }.withStage session (.cleared s.generation)

def detachState (session generation : Nat) : Slot Id :=
  { (s.withState s.state.detach).withStage session .over with
    timers := s.timers ++ [.armed generation] }

def timerGeneration (timer generation : Nat) : Slot Id :=
  { s with timers := s.timers.set timer (if s.generation ≠ generation then .done else .checked) }

def timerConnected (timer : Nat) : Slot Id :=
  if s.state.connected then { s with timers := s.timers.set timer .done }
  else { s with timers := s.timers.set timer .done }.offer (.closeAll .graceExpired) 0

def applyPeerRoles (announcement : NotificationRoles) : Slot Id :=
  match s.state.peerRoles.apply announcement with
  | .error _ => s
  | .ok roles =>
    if s.state.peerRoles.has .source && !roles.has .source then
      (s.withState { s.state with peerRoles := roles }).offer (.closeAll .roleNarrowed) 0
    else s.withState { s.state with peerRoles := roles }

def handleControl (policy : NotificationPolicy) (control : Control Id) (mark : Nat) : Slot Id :=
  match control with
  | .roles announcement => s.applyPeerRoles announcement
  | .upsert incoming => if policy.isDenied then s else s.offer (.upsert incoming) mark
  | .remove id => if policy.isDenied then s else s.offer (.remove id) mark
  | .sync marker => if policy.isDenied then s else s.offer (.sync marker) mark
  -- a request to dismiss is answered and changes nothing
  | .dismiss _ => s
  | .result declined =>
    if declined then s.withState { s.state with dismissalsRefused := s.state.dismissalsRefused + 1 }
      else s

def receive (policy : NotificationPolicy) (control : Control Id) : Slot Id :=
  { s with received := s.received ++ [(session, control)] }.handleControl policy control
    s.received.length

def noteClosed (serverId : ServerId) (reason : CloseReason) : Slot Id :=
  match s.state.mirrors.forgetServerId serverId with
  | (_, none) => s
  | (mirrors, some (id, entry)) =>
    { s.withState (s.state.withMirrors mirrors) with
      closes := s.closes ++ [⟨serverId, reason, id, entry.originDeviceId, s.outbound⟩]
      asking :=
        if reason.isHumanDismissal then some ⟨id, entry.originDeviceId, s.closes.length, false⟩
          else none }

def askRoles (a : Asking Id) : Slot Id :=
  if s.state.peerRoles.has .dismissTarget && s.state.localRoles.hasAnnounced .dismissReporter then
    { s with asking := none }.offer (.dismiss a.id a.originDeviceId) a.mark
  else { s with asking := none }

/-- The first step of `process`, with the item already out of the batch. -/
def start (e : Reading) (item : Item Id Nat) : Slot Id :=
  match item.work with
  | .announceRoles =>
    match s.outbound with
    | none => s
    | some session => s.withTask (.announcing session e.available e.reporting)
  | .upsert incoming =>
    if e.policy.isDenied then s else s.withTask (.upsertGranted incoming e.policy)
  | .remove id => if e.policy.isDenied then s else s.withTask (.removeGranted id)
  | .dismiss id originDeviceId =>
    match s.outbound with
    | none => s
    | some session => s.withTask (.dismissing session id originDeviceId item.mark)
  | .sync marker =>
    match (s.state.snapshot.marker marker).2 with
    | .complete named =>
      (s.withState (s.state.mark marker e.now)).withTask (.reconciling named item.mark)
    | _ => s.withState (s.state.mark marker e.now)
  | .lockChanged locked => s.withTask (.lockStored locked)
  | .closeAll _ =>
    (s.withState s.state.clear).withTask
      (.closing (s.state.mirrors.drain.2.filterMap (·.2.serverId)) [] .done)

variable (x : Texts)

/-- The locked part of `apply_upsert` after the backend answered. -/
def insertMirror (s : Slot Id) (incoming : Incoming Id) (presentation : Presentation)
    (serverId : Option ServerId) (contentHash : List UInt8) :
    MirrorTable Id × Option (Id × MirrorEntry) :=
  let mirror := x.buildMirror incoming.message presentation
  s.state.mirrors.insert incoming.id serverId contentHash mirror.appName mirror.urgency
    presentation.isReduced incoming.message.originDeviceId

def dropMirror (id : Id) (ids : List Id) (rest : Rest Id) : Slot Id :=
  (s.withState (s.state.withMirrors (s.state.mirrors.remove id).1)).withTask
    (.closing ((s.state.mirrors.get id).bind (·.serverId)).toList ids rest)

def reducedMirror (entry : MirrorEntry) : Mirror :=
  ⟨entry.appName, entry.appName, "", entry.urgency, true⟩

def proceed (e : Reading) (s : Slot Id) : Task Id → Slot Id
  | .idle => s
  | .announcing session available reporting =>
    (s.withState { s.state with
      localRoles := (s.state.localRoles.announce available reporting).1 }).withTask
      (match (s.state.localRoles.announce available reporting).2 with
        | none => .idle
        | some announcement => .announced session announcement)
  | .announced session announcement =>
    { s with sent := s.sent ++ [(session, .roles announcement)], task := .idle }
  | .upsertGranted incoming policy =>
    s.withTask
      (if !s.state.peerRoles.has .source then .idle
      else if privacyOrDefault incoming.message.privacy = .isSecret then
        .closing [] [incoming.id] .done
      else .upsertSourced incoming policy)
  | .upsertSourced incoming policy =>
    s.withTask
      (if Presentation.resolve policy e.locked = .suppress then .closing [] [incoming.id] .done
      else .upsertPresented incoming (Presentation.resolve policy e.locked))
  | .upsertPresented incoming presentation =>
    (s.withState (s.state.record incoming.id)).withTask
      (if (s.state.mirrors.get incoming.id).any
          (fun entry => PeerState.isDuplicate entry incoming.message presentation) then .idle
      else .displaying incoming presentation ((s.state.mirrors.get incoming.id).bind (·.serverId)))
  | .displaying incoming presentation _ => s.withTask (.displayed incoming presentation e.shown)
  | .displayed incoming presentation (.ok serverId) =>
    let r := s.insertMirror x incoming presentation (some serverId) incoming.message.contentHash
    (s.withState (s.state.withMirrors r.1)).withTask
      (match r.2 with
        | none => .idle
        | some (_, entry) => .closing entry.serverId.toList [] .done)
  -- an entry evicted here is not closed
  | .displayed incoming presentation (.error _) =>
    (s.withState
      (s.state.withMirrors (s.insertMirror x incoming presentation none []).1)).withTask .idle
  | .removeGranted id =>
    s.withTask (if s.state.peerRoles.has .source then .removeSourced id else .idle)
  | .removeSourced id => s.dropMirror id [] .done
  | .dismissing session id originDeviceId mark =>
    { s.withState { s.state with dismissalsSent := s.state.dismissalsSent + 1 } with
      sent := s.sent ++ [(session, .dismiss id originDeviceId mark)], task := .idle }
  | .reconciling named mark => s.withTask (.sweeping (s.state.mirrors.notNamedIn named) mark)
  | .sweeping [] _ => s.withTask .idle
  | .sweeping (id :: stale) mark =>
    { s.dropMirror id [] (.sweep stale mark) with
      swept := s.swept ++ (s.state.mirrors.get id).toList.map (fun _ => (id, mark)) }
  | .lockStored locked =>
    (s.withState { s.state with locked := locked }).withTask (if locked then .lockNoted else .idle)
  | .lockNoted =>
    s.withTask
      (if Presentation.resolve e.policy true = .full then .idle
      else .lockResolved (Presentation.resolve e.policy true))
  | .lockResolved .suppress => s.withTask (.closing [] (s.state.mirrors.iter.map Prod.fst) .done)
  | .lockResolved _ => s.withTask (.reducing s.state.mirrors.iter)
  | .reducing [] => s.withTask .idle
  | .reducing ((id, entry) :: rest) =>
    if entry.reduced then s.withTask (.reducing rest)
    else match entry.serverId with
      | none =>
        (s.withState (s.state.withMirrors
          (s.state.mirrors.modify id ({ · with reduced := true })))).withTask (.reducing rest)
      | some serverId => s.withTask (.redisplaying id (reducedMirror entry) serverId rest)
  | .redisplaying id _ _ rest => s.withTask (.redisplayed id e.shown rest)
  | .redisplayed id (.ok serverId) rest =>
    (s.withState (s.state.withMirrors (s.state.mirrors.modify id
      ({ · with serverId := some serverId, reduced := true, contentHash := [] })))).withTask
        (.reducing rest)
  | .redisplayed id (.error _) rest => s.withTask (.closing [] [id] (.reduce rest))
  | .closing [] [] rest => s.withTask rest.task
  | .closing [] (id :: ids) rest => s.dropMirror id ids rest
  | .closing (_ :: serverIds) ids rest => s.withTask (.closing serverIds ids rest)

def advance (e : Reading) (s : Slot Id) : Option (Slot Id) :=
  match s.task with
  | .idle =>
    match s.batch with
    | [] =>
      if s.queue.items.isEmpty then none
      else some { s with batch := s.queue.drain.1, queue := s.queue.drain.2 }
    | item :: rest => some ({ s with batch := rest }.start e item)
  | task => some (s.proceed x e task)

def step (s : Slot Id) : Action Id → Option (Slot Id)
  | .attachGeneration => some s.attachGeneration
  | .attachSender session =>
    if s.sessions[session]? = some .opened then some (s.attachSender session) else none
  | .attachState session =>
    if s.sessions[session]? = some .stored then some (s.attachState session) else none
  | .detachCheck session =>
    if s.sessions[session]? = some .attached then some (s.detachCheck session) else none
  | .detachSender session =>
    if s.sessions[session]? = some .passed then some (s.detachSender session) else none
  | .detachState session =>
    match s.sessions[session]? with
    | some (.cleared generation) => some (s.detachState session generation)
    | _ => none
  | .timerGeneration timer =>
    match s.timers[timer]? with
    | some (.armed generation) => some (s.timerGeneration timer generation)
    | _ => none
  | .timerConnected timer =>
    if s.timers[timer]? = some .checked then some (s.timerConnected timer) else none
  | .receive session policy control =>
    if s.sessions[session]? = some .attached then some (s.receive session policy control) else none
  | .work e => s.advance x e
  | .syncTimeout now =>
    match s.task, s.batch, s.state.snapshotDeadline with
    | .idle, [], some deadline =>
      if deadline ≤ now then some (s.withState s.state.abandon) else none
    | _, _, _ => none
  | .serverGone => some (s.offer .announceRoles 0)
  | .serverBack =>
    some ((s.withState (s.state.withMirrors s.state.mirrors.invalidateServerIds)).offer
      .announceRoles 0)
  | .lockSignal locked => some (s.offer (.lockChanged locked) 0)
  | .noteClosed serverId reason =>
    match s.asking with
    | none => some (s.noteClosed serverId reason)
    | some _ => none
  | .askPolicy policy =>
    match s.asking with
    | some a =>
      if a.allowed then none
      else some { s with
        asking := if policy.maySyncDismissals then some { a with allowed := true } else none }
    | none => none
  | .askRoles =>
    match s.asking with
    | some a => if a.allowed then some (s.askRoles a) else none
    | none => none
  | .revoke => some (s.offer (.closeAll .revoked) 0)

inductive Steps (x : Texts) (s : Slot Id) : Action Id → Slot Id → Prop
  | attachGeneration : Steps x s .attachGeneration s.attachGeneration
  | attachSender (i : Nat) : s.sessions[i]? = some .opened →
    Steps x s (.attachSender i) (s.attachSender i)
  | attachState (i : Nat) : s.sessions[i]? = some .stored →
    Steps x s (.attachState i) (s.attachState i)
  | detachCheck (i : Nat) : s.sessions[i]? = some .attached →
    Steps x s (.detachCheck i) (s.detachCheck i)
  | detachSender (i : Nat) : s.sessions[i]? = some .passed →
    Steps x s (.detachSender i) (s.detachSender i)
  | detachState (i generation : Nat) :
      s.sessions[i]? = some (.cleared generation) →
      Steps x s (.detachState i) (s.detachState i generation)
  | timerGeneration (i generation : Nat) :
      s.timers[i]? = some (.armed generation) →
      Steps x s (.timerGeneration i) (s.timerGeneration i generation)
  | timerConnected (i : Nat) : s.timers[i]? = some .checked →
    Steps x s (.timerConnected i) (s.timerConnected i)
  | receive (i : Nat) (policy : NotificationPolicy) (control : Control Id) :
      s.sessions[i]? = some .attached →
      Steps x s (.receive i policy control) (s.receive i policy control)
  | drain (e : Reading) : s.task = .idle → s.batch = [] →
      Steps x s (.work e) { s with batch := s.queue.items, queue := s.queue.drain.2 }
  | start (e : Reading) (item : Item Id Nat) (rest : List (Item Id Nat)) : s.task = .idle →
      s.batch = item :: rest → Steps x s (.work e) ({ s with batch := rest }.start e item)
  | proceed (e : Reading) : s.task ≠ .idle → Steps x s (.work e) (s.proceed x e s.task)
  | syncTimeout (now : Nat) : s.task = .idle → s.batch = [] →
      Steps x s (.syncTimeout now) (s.withState s.state.abandon)
  | serverGone : Steps x s .serverGone (s.offer .announceRoles 0)
  | serverBack : Steps x s .serverBack
      ((s.withState (s.state.withMirrors s.state.mirrors.invalidateServerIds)).offer
        .announceRoles 0)
  | lockSignal (locked : Bool) : Steps x s (.lockSignal locked) (s.offer (.lockChanged locked) 0)
  | noteClosed (serverId : ServerId) (reason : CloseReason) : s.asking = none →
      Steps x s (.noteClosed serverId reason) (s.noteClosed serverId reason)
  | askPolicy (policy : NotificationPolicy) (a : Asking Id) : s.asking = some a →
    a.allowed = false → Steps x s (.askPolicy policy)
        { s with
          asking := if policy.maySyncDismissals then some { a with allowed := true } else none }
  | askRoles (a : Asking Id) : s.asking = some a → a.allowed → Steps x s .askRoles (s.askRoles a)
  | revoke : Steps x s .revoke (s.offer (.closeAll .revoked) 0)

def Drained : Prop := s.queue.items = [] ∧ s.batch = [] ∧ s.task = .idle

theorem start_frame (e) (item : Item Id Nat) :
    (s.start e item).queue = s.queue ∧ (s.start e item).batch = s.batch ∧
      (s.start e item).sent = s.sent := by
  fun_cases Slot.start s e item <;> exact ⟨rfl, rfl, rfl⟩

end

theorem proceed_frame (x : Texts) (e) (s : Slot Id) (task : Task Id) :
    (s.proceed x e task).queue = s.queue ∧ (s.proceed x e task).batch = s.batch := by
  fun_cases Slot.proceed x e s task <;> exact ⟨rfl, rfl⟩

theorem proceed_sent (x : Texts) (e) (s : Slot Id) (task : Task Id) :
    (s.proceed x e task).sent = s.sent ++ task.outgoing.toList := by
  fun_cases Slot.proceed x e s task
  all_goals first
    | exact (append_nil _).symm
    | rfl

variable {x : Texts} {s t : Slot Id} {a : Action Id}

theorem advance_cases {e} (h : s.advance x e = some t) : Steps x s (.work e) t := by
  unfold advance at h
  split at h
  · rename_i htask
    split at h
    · rename_i hbat
      simp only [ite_none_left_eq_some, some.injEq] at h
      obtain ⟨-, rfl⟩ := h
      exact .drain e htask hbat
    · rename_i hbat
      cases h
      exact .start e _ _ htask hbat
  · rename_i htask
    cases h
    exact .proceed e htask

theorem step_cases (h : s.step x a = some t) : Steps x s a t := by
  cases a with
  | work => exact advance_cases h
  | attachGeneration =>
    cases h
    exact .attachGeneration
  | attachSender session =>
    simp only [step, ite_none_right_eq_some, some.injEq] at h
    obtain ⟨hs, rfl⟩ := h
    exact .attachSender session hs
  | attachState session =>
    simp only [step, ite_none_right_eq_some, some.injEq] at h
    obtain ⟨hs, rfl⟩ := h
    exact .attachState session hs
  | detachCheck session =>
    simp only [step, ite_none_right_eq_some, some.injEq] at h
    obtain ⟨hs, rfl⟩ := h
    exact .detachCheck session hs
  | detachSender session =>
    simp only [step, ite_none_right_eq_some, some.injEq] at h
    obtain ⟨hs, rfl⟩ := h
    exact .detachSender session hs
  | detachState session =>
    simp only [step] at h
    split at h
    · cases h
      exact .detachState session _ ‹_›
    · cases h
  | timerGeneration timer =>
    simp only [step] at h
    split at h
    · cases h
      exact .timerGeneration timer _ ‹_›
    · cases h
  | timerConnected timer =>
    simp only [step, ite_none_right_eq_some, some.injEq] at h
    obtain ⟨hs, rfl⟩ := h
    exact .timerConnected timer hs
  | receive session policy control =>
    simp only [step, ite_none_right_eq_some, some.injEq] at h
    obtain ⟨hs, rfl⟩ := h
    exact .receive session policy control hs
  | syncTimeout now =>
    simp only [step] at h
    split at h
    · rename_i htask hbat _
      simp only [ite_none_right_eq_some, some.injEq] at h
      obtain ⟨-, rfl⟩ := h
      exact .syncTimeout now htask hbat
    · cases h
  | serverGone =>
    cases h
    exact .serverGone
  | serverBack =>
    cases h
    exact .serverBack
  | lockSignal locked =>
    cases h
    exact .lockSignal locked
  | noteClosed serverId reason =>
    simp only [step] at h
    split at h
    · cases h
      exact .noteClosed serverId reason ‹_›
    · cases h
  | askPolicy policy =>
    simp only [step] at h
    split at h
    · simp only [ite_none_left_eq_some, some.injEq] at h
      obtain ⟨ha, rfl⟩ := h
      exact .askPolicy policy _ ‹_› (by simpa using ha)
    · cases h
  | askRoles =>
    simp only [step] at h
    split at h
    · simp only [ite_none_right_eq_some, some.injEq] at h
      obtain ⟨ha, rfl⟩ := h
      exact .askRoles _ ‹_› ha
    · cases h
  | revoke =>
    cases h
    exact .revoke

theorem handleControl_eq (s : Slot Id) (policy) (control : Control Id) (mark) :
    ∃ roles refused queue, s.handleControl policy control mark =
      { s with state := { s.state with peerRoles := roles, dismissalsRefused := refused }
               queue := queue } := by
  fun_cases Slot.handleControl s policy control mark
  case case1 announcement =>
    unfold applyPeerRoles
    split
    · exact ⟨_, _, _, rfl⟩
    · split <;> exact ⟨_, _, _, rfl⟩
  all_goals exact ⟨_, _, _, rfl⟩

theorem receive_eq (s : Slot Id) (i : Nat) (policy) (control : Control Id) :
    ∃ roles refused queue, s.receive i policy control =
      { s with state := { s.state with peerRoles := roles, dismissalsRefused := refused }
               queue := queue
               received := s.received ++ [(i, control)] } :=
  handleControl_eq _ policy control _

theorem step_worker (h : s.step x a = some t) (ha : ∀ e, a ≠ .work e) :
    t.task = s.task ∧ t.batch = s.batch ∧ t.sent = s.sent ∧ t.swept = s.swept := by
  cases step_cases h with
  | drain e | start e | proceed e => exact absurd rfl (ha e)
  | receive i policy control =>
    obtain ⟨_, _, _, heq⟩ := s.receive_eq i policy control
    rw [heq]
    exact ⟨rfl, rfl, rfl, rfl⟩
  | detachCheck =>
    unfold detachCheck
    split <;> exact ⟨rfl, rfl, rfl, rfl⟩
  | timerConnected =>
    unfold timerConnected
    split <;> exact ⟨rfl, rfl, rfl, rfl⟩
  | noteClosed =>
    unfold noteClosed
    split <;> exact ⟨rfl, rfl, rfl, rfl⟩
  | askRoles =>
    unfold askRoles
    split <;> exact ⟨rfl, rfl, rfl, rfl⟩
  | _ => exact ⟨rfl, rfl, rfl, rfl⟩

theorem step_mirrors (h : s.step x a = some t) (ha : ∀ e, a ≠ .work e) :
    t.state.mirrors = s.state.mirrors ∨
      (∃ serverId reason id entry, a = .noteClosed serverId reason ∧
      s.state.mirrors.get id = some entry ∧ entry.serverId = some serverId ∧
      t.state.mirrors = (s.state.mirrors.remove id).1) ∨ a = .serverBack ∧
      t.state.mirrors = s.state.mirrors.invalidateServerIds := by
  cases step_cases h with
  | drain e | start e | proceed e => exact absurd rfl (ha e)
  | receive i policy control =>
    obtain ⟨_, _, _, heq⟩ := s.receive_eq i policy control
    rw [heq]
    exact .inl rfl
  | serverBack => exact .inr (.inr ⟨rfl, rfl⟩)
  | noteClosed serverId reason =>
    unfold noteClosed
    rcases s.state.mirrors.forgetServerId_cases serverId with ⟨hf, -⟩ | ⟨id, entry, hget, hserv, hf⟩
    · rw [hf]
      exact .inl rfl
    · rw [hf]
      exact .inr (.inl ⟨serverId, reason, id, entry, rfl, hget, hserv, rfl⟩)
  | detachCheck =>
    unfold detachCheck
    split <;> exact .inl rfl
  | timerConnected =>
    unfold timerConnected
    split <;> exact .inl rfl
  | askRoles =>
    unfold askRoles
    split <;> exact .inl rfl
  | _ => exact .inl rfl

theorem handleControl_keeps_pending (hlt : s.queue.items.length < MAX_QUEUED_WORK) {policy}
    {control mark y} (hy : y ∈ s.queue.items) (hup : ∀ incoming, y.work ≠ .upsert incoming) :
    y ∈ (s.handleControl policy control mark).queue.items := by
  fun_cases Slot.handleControl s policy control mark
  case case1 announcement =>
    unfold applyPeerRoles
    split
    · exact hy
    · split
      · exact WorkQueue.mem_offer_of_lt hlt hy hup
      · exact hy
  all_goals first
    | exact hy
    | exact WorkQueue.mem_offer_of_lt hlt hy hup

theorem step_keeps_pending (h : s.step x a = some t) (hlt : s.queue.items.length < MAX_QUEUED_WORK)
    (ha : ∀ e, a ≠ .work e) {y} (hy : y ∈ s.queue.items)
    (hup : ∀ incoming, y.work ≠ .upsert incoming) : y ∈ t.queue.items := by
  have hoff : ∀ item, y ∈ (s.queue.offer item).1.items := fun item =>
    WorkQueue.mem_offer_of_lt hlt hy hup
  cases step_cases h with
  | drain e | start e | proceed e => exact absurd rfl (ha e)
  | receive i _ control =>
    have hlt' : ({ s with received := s.received ++ [(i, control)] } : Slot Id).queue.items.length <
      MAX_QUEUED_WORK := hlt
    exact handleControl_keeps_pending hlt' hy hup
  | detachCheck =>
    unfold detachCheck
    split <;> exact hy
  | timerConnected =>
    unfold timerConnected
    split
    · exact hy
    · exact hoff _
  | noteClosed =>
    unfold noteClosed
    split <;> exact hy
  | askRoles =>
    unfold askRoles
    split
    · exact hoff _
    · exact hy
  | attachState | serverGone | serverBack | lockSignal | revoke => exact hoff _
  | _ => exact hy

end Slot

end State

end OmniBridge.Sink
