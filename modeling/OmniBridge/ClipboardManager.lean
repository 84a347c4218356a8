import OmniBridge.ClipboardCache

/-! The clipboard manager: what it holds, how it decides about one inbound
update, and how a remote clip is armed, written and released. The SHA-256 of a
text is a parameter; a session's outbound channel is named by its session. -/

namespace OmniBridge.Clipboard

open Function

def EVENT_ID_LEN : Nat := 16
def MAX_CLIPBOARD_TEXT_BYTES : Nat := 32 * 1024
def PENDING_CLIP_TTL : Nat := 300000
def MAX_DEVICE_NAME_LEN : Nat := 64

abbrev Digest := List UInt8

structure ClipboardPolicy where
  allowSend : Bool := true
  allowReceive : Bool := true
  autoSend : Bool := false
  autoReceive : Bool := false
deriving DecidableEq

namespace ClipboardPolicy

def DENIED : ClipboardPolicy := ⟨false, false, false, false⟩

variable (p : ClipboardPolicy)

def isDenied : Bool := !p.allowSend && !p.allowReceive

def mayAutoSend : Bool := p.allowSend && p.autoSend

def mayAutoReceive : Bool := p.allowReceive && p.autoReceive

end ClipboardPolicy

inductive TextRejection where
  | empty
  | tooLarge (bytes : Nat)
  | containsNul
deriving DecidableEq

/-- Text that may be sent or written: validation is the only way to build one. -/
structure ClipboardText where
  text : String
  nonempty : text ≠ ""
  bounded : text.utf8ByteSize ≤ MAX_CLIPBOARD_TEXT_BYTES
  noNul : '\x00' ∉ text.toList
deriving DecidableEq

def ClipboardText.validate (text : String) : Except TextRejection ClipboardText :=
  if he : text = "" then .error .empty
  else if hl : text.utf8ByteSize ≤ MAX_CLIPBOARD_TEXT_BYTES then
    if hn : '\x00' ∈ text.toList then .error .containsNul
    else .ok ⟨text, he, hl, hn⟩
  else .error (.tooLarge text.utf8ByteSize)

inductive Outcome where
  | applied | pendingUser | duplicate | notAuthorized | rejectedPolicy
  | rejectedSensitive | tooLarge | invalidText | failed
deriving DecidableEq

inductive SendError where
  | notPermitted | notConnected | nothingToSend | rejected (why : TextRejection) | backend
  | sessionBusy
deriving DecidableEq

structure ClipboardUpdate where
  eventId : List UInt8
  originDeviceId : String
  textUtf8 : String
  contentHash : Digest
  sensitiveHint : Bool

structure PendingClip where
  text : ClipboardText
  sensitive : Bool
  originDeviceId : String
  receivedAt : Nat
deriving DecidableEq

structure Manager (Peer : Type) where
  localDeviceId : String := ""
  events : EventCache := {}
  suppression : SuppressionCache Digest := {}
  sessions : Peer → Option Nat := fun _ => none
  pending : Peer → Option PendingClip := fun _ => none
  lastResults : Peer → Option Outcome := fun _ => none

def isControl (c : Char) : Bool := c.toNat < 32 || (127 ≤ c.toNat && c.toNat < 160)

def sanitizeDeviceName (name : String) : String :=
  String.ofList ((name.toList.filter (fun c => !isControl c)).take MAX_DEVICE_NAME_LEN)

namespace Manager

variable {Peer : Type} [DecidableEq Peer] (contentHash : String → Digest)

def attachSession (peer : Peer) (session : Nat) (m : Manager Peer) : Manager Peer :=
  { m with sessions := update m.sessions peer (some session) }

/-! `detach_session` takes three locks one after the other. -/

def detachSender (peer : Peer) (m : Manager Peer) : Manager Peer :=
  { m with sessions := update m.sessions peer none }

def detachPending (peer : Peer) (m : Manager Peer) : Manager Peer :=
  { m with pending := update m.pending peer none }

def detachResults (peer : Peer) (m : Manager Peer) : Manager Peer :=
  { m with lastResults := update m.lastResults peer none }

inductive Decision where
  | answer (outcome : Outcome)
  | apply (text : ClipboardText) (sensitive : Bool) (origin : String)

section

variable (policy : ClipboardPolicy)

/-- The checks of `handle_update` that look at the policy and the message alone, in its order. -/
def checkUpdate (update : ClipboardUpdate) : Except Outcome ClipboardText :=
  if policy.isDenied then .error .notAuthorized
  else if !policy.allowReceive then .error .rejectedPolicy
  else if update.eventId.length ≠ EVENT_ID_LEN then .error .invalidText
  else if MAX_CLIPBOARD_TEXT_BYTES < update.textUtf8.utf8ByteSize then .error .tooLarge
  else
    match ClipboardText.validate update.textUtf8 with
    | .error (.tooLarge _) => .error .tooLarge
    | .error _ => .error .invalidText
    | .ok text =>
      if update.contentHash ≠ [] ∧ update.contentHash ≠ contentHash text.text then
        .error .invalidText
      else .ok text

variable (now : Nat)

def acceptUpdate (peer : Peer) (peerDeviceId : String) (update : ClipboardUpdate)
    (text : ClipboardText) (m : Manager Peer) : Manager Peer × Decision :=
  let admitted := m.events.admitEvent now update.eventId
  let origin := if update.originDeviceId = "" then peerDeviceId
    else sanitizeDeviceName update.originDeviceId
  if !admitted.1 then ({ m with events := admitted.2 }, .answer .duplicate)
  else if !policy.mayAutoReceive then
    ({ m with events := admitted.2
              pending := Function.update m.pending peer
                (some ⟨text, update.sensitiveHint, origin, now⟩) }, .answer .pendingUser)
  else ({ m with events := admitted.2 }, .apply text update.sensitiveHint origin)

def handleUpdate (peer : Peer) (peerDeviceId : String) (update : ClipboardUpdate)
    (m : Manager Peer) : Manager Peer × Decision :=
  match checkUpdate contentHash policy update with
  | .error outcome => (m, .answer outcome)
  | .ok text => m.acceptUpdate policy now peer peerDeviceId update text

def armFor (text : ClipboardText) (origin : String) (m : Manager Peer) : Manager Peer :=
  { m with suppression := m.suppression.arm now (contentHash text.text) origin }

/-- Consumes the entry of a text: the watcher's check, and the release after a failed write. -/
def takeFor (text : ClipboardText) (m : Manager Peer) : Option String × Manager Peer :=
  let (origin, suppression) := m.suppression.take now (contentHash text.text)
  (origin, { m with suppression := suppression })

/-- The first half of `apply_pending`: the held clip is taken out, if it may be applied. -/
def takePending (peer : Peer) (m : Manager Peer) : Manager Peer × Except SendError PendingClip :=
  if !policy.allowReceive then (m, .error .notPermitted)
  else
    let m' := { m with pending := update m.pending peer none }
    match m.pending peer with
    | some clip => if now - clip.receivedAt < PENDING_CLIP_TTL then (m', .ok clip)
      else (m', .error .nothingToSend)
    | none => (m', .error .nothingToSend)

end

/-- `pending_clips`: a held clip past its time goes when the list is drawn. -/
def pendingClips (now : Nat) (m : Manager Peer) : Manager Peer :=
  { m with pending := fun peer =>
      (m.pending peer).filter (fun clip => now - clip.receivedAt < PENDING_CLIP_TTL) }

section

variable (policy : ClipboardPolicy) (now : Nat) (peer : Peer)
include policy now peer

theorem handleUpdate_suppression (peerDeviceId : String) (update) (m : Manager Peer) :
    (m.handleUpdate contentHash policy now peer peerDeviceId update).1.suppression =
      m.suppression := by
  unfold handleUpdate
  cases checkUpdate contentHash policy update with
  | error => rfl
  | ok =>
    simp only [acceptUpdate]
    split
    · rfl
    · split <;> rfl

theorem takePending_suppression (m : Manager Peer) :
    (m.takePending policy now peer).1.suppression = m.suppression := by
  unfold takePending
  split
  · rfl
  · cases m.pending peer with
    | none => rfl
    | some => dsimp only; split <;> rfl

theorem handleUpdate_frame (peerDeviceId : String) (update) (m : Manager Peer) :
    (m.handleUpdate contentHash policy now peer peerDeviceId update).1.sessions = m.sessions ∧
      ((m.handleUpdate contentHash policy now peer peerDeviceId update).1.pending = m.pending ∨
      ∃ clip, (m.handleUpdate contentHash policy now peer peerDeviceId update).2 = .answer
      .pendingUser ∧ (m.handleUpdate contentHash policy now peer peerDeviceId update).1.pending =
      Function.update m.pending peer (some clip)) := by
  unfold handleUpdate
  cases checkUpdate contentHash policy update with
  | error => exact ⟨rfl, .inl rfl⟩
  | ok =>
    simp only [acceptUpdate]
    split
    · exact ⟨rfl, .inl rfl⟩
    · split
      · exact ⟨rfl, .inr ⟨_, rfl, rfl⟩⟩
      · exact ⟨rfl, .inl rfl⟩

theorem takePending_frame (m : Manager Peer) :
    (m.takePending policy now peer).1.sessions = m.sessions ∧
      (m.takePending policy now peer).1.pending = if policy.allowReceive then update m.pending peer
      none else m.pending := by
  unfold takePending
  cases hrec : policy.allowReceive with
  | false => exact ⟨rfl, rfl⟩
  | true =>
    cases m.pending peer with
    | none => exact ⟨rfl, rfl⟩
    | some =>
      simp only [Bool.not_true, Bool.false_eq_true, if_false]
      split <;> exact ⟨rfl, rfl⟩

end

end Manager

end OmniBridge.Clipboard
