import OmniBridge.Run
import Mathlib.Algebra.Order.Ring.Nat

/-! The phone's file transfers. Handlers, prompts, stream tasks and `finish`
advance at the grain of their shared reads and writes; download entries keep
the bytes written to them and who wrote. -/

namespace OmniBridge.Files

def TRANSFER_ID_LENGTH : Nat := 16
def CHALLENGE_LENGTH : Nat := 32
def SHA256_BYTES : Nat := 32
def MAX_CONCURRENT_TRANSFERS : Nat := 4
def MAX_FILE_BYTES : Int := 16 * 1024 * 1024 * 1024
def MAX_FILENAME_BYTES : Nat := 255
def MAX_MIME_TYPE_BYTES : Nat := 128
def COPY_BUFFER_BYTES : Nat := 64 * 1024

inductive TransferState where
  | OFFERED | WAITING_ACCEPT | TRANSFERRING | VERIFYING | COMPLETED | FAILED | CANCELLED
deriving DecidableEq

namespace TransferState

def isTerminal : TransferState → Bool
  | .COMPLETED | .FAILED | .CANCELLED => true
  | _ => false

def isActive (s : TransferState) : Bool := !s.isTerminal

def canTransitionTo : TransferState → TransferState → Bool
  | .OFFERED, .TRANSFERRING => true
  | .WAITING_ACCEPT, .TRANSFERRING => true
  | .TRANSFERRING, .VERIFYING => true
  | .VERIFYING, .COMPLETED => true
  | .TRANSFERRING, .COMPLETED => true
  | s, .FAILED | s, .CANCELLED => !s.isTerminal
  | _, _ => false

theorem isActive_of_canTransitionTo {s next : TransferState} (h : s.canTransitionTo next) :
    s.isActive := by
  cases s <;> cases next <;> simp_all [canTransitionTo, isActive, isTerminal]

end TransferState

inductive FailureReason where
  | DECLINED_BY_USER | NOT_AUTHORIZED | TOO_MANY_TRANSFERS | TOO_LARGE | BAD_METADATA | TIMED_OUT
  | INTEGRITY | STORAGE | TRANSPORT | CANCELLED_BY_USER | REVOKED | UNKNOWN_TRANSFER
deriving DecidableEq

def FailureReason.isCancellation : FailureReason → Bool
  | .CANCELLED_BY_USER | .DECLINED_BY_USER => true
  | _ => false

inductive WireProfile where
  | pliwee
  | omnibridge
deriving DecidableEq

structure SessionInfo (Peer : Type) where
  peer : Peer
  address : String
  profile : WireProfile
  carriesFiles : Bool

structure Transport (Peer : Type) where
  address : String
  pinned : Peer
  profile : WireProfile

structure Challenge (Peer : Type) where
  bytes : List UInt8
  session : SessionInfo Peer

structure Transfer (Peer : Type) where
  id : List UInt8
  peer : Peer
  sending : Bool
  filename : String
  sizeBytes : Nat
  sha256 : List UInt8
  mimeType : String
  state : TransferState
  failure : Option FailureReason := none
  cancelled : Bool := false
  challenge : Option (Challenge Peer) := none
  pending : Option Nat := none
  answer : Option Bool := none

/-- A row of the downloads collection, with the bytes its stream was given and
the tasks that gave them. -/
structure Entry where
  transfer : Nat
  written : List UInt8 := []
  writers : List Nat := []
  isOpen : Bool := true
  published : Bool := false
  deleted : Bool := false

inductive FinishStage where
  | enter
  | lock (wasActive : Bool)
  | cancel (wasActive : Bool)
  | dropChallenge (wasActive : Bool)
  | withdraw (wasActive : Bool)
  | detach (wasActive : Bool)
  | close (wasActive : Bool) (entry : Nat)
  | delete (wasActive : Bool) (entry : Nat)
  | tell (wasActive : Bool)

structure FinishCall where
  next : TransferState
  reason : Option FailureReason
  tells : Bool
  stage : FinishStage

inductive ApprovalStage where
  | asking
  | answered (accepted : Bool)
  | opening
  | opened (entry : Nat)
  | entered
  | accepting

inductive StreamStage (Peer : Type) where
  | launched
  | transport (transport : Option (Transport Peer))
  | challenge (transport : Option (Transport Peer)) (challenge : Option (Challenge Peer))
  | taken (transport : Option (Transport Peer)) (challenge : Option (Challenge Peer))
  | dialled
  | sending
  | receiving (entry : Nat) (read : List UInt8) (polled : Bool)
  | received (entry : Nat) (read : List UInt8)
  | verifying (entry : Nat) (read : List UInt8)
  | verified (entry : Nat) (read : List UInt8)
  | published
  | settled
  | telling

inductive Job (Peer : Type) where
  | offering
  | approval (stage : ApprovalStage)
  | stream (stage : StreamStage Peer)
  | finish (call : FinishCall)
  | done

/-- A coroutine that works on one transfer. Whether it took a challenge, which
entry it opened and what it wrote there is kept beside its stage. -/
structure Task (Peer : Type) where
  transfer : Nat
  job : Job Peer
  took : Bool := false
  entry : Option Nat := none
  wrote : List UInt8 := []

inductive ControlBody where
  | offer
  | accept
  | reject (reason : FailureReason)
  | complete
  | cancel (reason : FailureReason)
  | failed (reason : FailureReason)
deriving DecidableEq

structure SentControl (Peer : Type) where
  session : SessionInfo Peer
  transferPeer : Peer
  transferId : List UInt8
  body : ControlBody

structure Dial (Peer : Type) where
  transferPeer : Peer
  transferId : List UInt8
  transport : Transport Peer
  challenge : Challenge Peer

inductive Handler (Peer : Type) where
  | idle
  | accept (transfer : Nat) (challenge : Challenge Peer)
  | acceptSet (transfer : Nat)
  | ready (transfer : Nat) (challenge : Challenge Peer)

inductive Phase where
  | connected
  | running
  | clearing
  | sweeping (left : List Nat)

/-- The one session of the reconnect loop. It waits for the `finish` calls it makes. -/
structure Session (Peer : Type) where
  info : SessionInfo Peer
  phase : Phase := .connected
  handler : Handler Peer := .idle
  waiting : Option Nat := none

structure System (Peer : Type) where
  transfers : List (Transfer Peer) := []
  table : List (List UInt8 × Nat) := []
  entries : List Entry := []
  tasks : List (Task Peer) := []
  measuring : List Peer := []
  transport : Option (Transport Peer) := none
  controlSink : Option (SessionInfo Peer) := none
  session : Option (Session Peer) := none
  sent : List (SentControl Peer) := []
  dials : List (Dial Peer) := []

structure FileOffer where
  transferId : List UInt8
  filename : String
  sizeBytes : Int
  mimeType : String
  sha256 : List UInt8

inductive Control where
  | offer (offer : FileOffer) (authorized : Bool)
  | accept (transferId challenge : List UInt8)
  | ready (transferId challenge : List UInt8)
  | complete (transferId : List UInt8)
  | ended (transferId : List UInt8) (reason : FailureReason)

inductive Input where
  | go
  | outcome (ok : Bool)
  | chunk (bytes : List UInt8)
  | ended
  | broken (part : List UInt8)
  | refused (reason : FailureReason)

inductive Action (Peer : Type) where
  | connect (info : SessionInfo Peer)
  | attachControl
  | control (message : Control)
  | handle
  | endSession
  | sweep
  | offer (peer : Peer) (authorized : Bool)
  | measured (index : Nat) (measured : Option FileOffer)
  | respond (transferId : List UInt8) (accept : Bool)
  | cancel (transferId : List UInt8)
  | clearFinished
  | task (index : Nat) (input : Input)

def utf16Length (text : String) : Nat :=
  (text.toList.map (fun c => if c.toNat < 65536 then 1 else 2)).sum

def Job.finishAndTell {Peer : Type} (next : TransferState) (reason : FailureReason) : Job Peer :=
  .finish ⟨next, some reason, true, .enter⟩

def Job.finishOnly {Peer : Type} (next : TransferState) (reason : Option FailureReason) :
    Job Peer :=
  .finish ⟨next, reason, false, .lock false⟩

namespace System

variable {Peer : Type} [DecidableEq Peer]

def modifyTransfer (r : Nat) (f : Transfer Peer → Transfer Peer) (s : System Peer) : System Peer :=
  { s with transfers := s.transfers.modify r f }

def modifyEntry (k : Nat) (f : Entry → Entry) (s : System Peer) : System Peer :=
  { s with entries := s.entries.modify k f }

def modifyTask (i : Nat) (f : Task Peer → Task Peer) (s : System Peer) : System Peer :=
  { s with tasks := s.tasks.modify i f }

def setJob (i : Nat) (job : Job Peer) (s : System Peer) : System Peer :=
  s.modifyTask i ({ · with job := job })

def spawn (r : Nat) (job : Job Peer) (s : System Peer) : System Peer :=
  { s with tasks := s.tasks ++ [{ transfer := r, job := job }] }

def insert (tr : Transfer Peer) (s : System Peer) : System Peer :=
  { s with transfers := s.transfers ++ [tr]
           table := (tr.id, s.transfers.length) :: s.table.filter (·.1 ≠ tr.id) }

def lookup (id : List UInt8) (s : System Peer) : Option Nat :=
  (s.table.find? (·.1 = id)).map Prod.snd

def transferActive (s : System Peer) (r : Nat) : Bool :=
  (s.transfers[r]?).any (·.state.isActive)

def activeCount (peer : Peer) (s : System Peer) : Nat :=
  s.table.countP (fun p => (s.transfers[p.2]?).any (fun tr => tr.peer = peer && tr.state.isActive))

def ownedActive (rawId : List UInt8) (peer : Peer) (sending : Bool) (s : System Peer) :
    Option Nat :=
  if rawId.length ≠ TRANSFER_ID_LENGTH then none
  else (s.lookup rawId).filter (fun r =>
    (s.transfers[r]?).any (fun tr => tr.peer = peer && tr.sending = sending && tr.state.isActive))

/-- `sendControl`: `false` without a session or when the sink fails. -/
def sendControl (peer : Peer) (id : List UInt8) (body : ControlBody) (ok : Bool) (s : System Peer) :
    Bool × System Peer :=
  match s.controlSink, ok with
  | some session, true => (true, { s with sent := s.sent ++ [⟨session, peer, id, body⟩] })
  | _, _ => (false, s)

def transition (r : Nat) (next : TransferState) (s : System Peer) : Option (System Peer) :=
  if (s.transfers[r]?).any (fun tr => tr.state.canTransitionTo next) then
    some (s.modifyTransfer r ({ · with state := next }))
  else none

def entryOpen (s : System Peer) (k : Nat) : Bool := (s.entries[k]?).any Entry.isOpen

def closeEntry (k : Nat) (s : System Peer) : System Peer :=
  s.modifyEntry k ({ · with isOpen := false })

def deleteEntry (k : Nat) (ok : Bool) (s : System Peer) : System Peer :=
  s.modifyEntry k (fun e => { e with deleted := e.deleted || ok })

def writeEntry (i k : Nat) (bytes : List UInt8) (s : System Peer) : System Peer :=
  (s.modifyEntry k (fun e =>
      { e with written := e.written ++ bytes, writers := e.writers ++ [i] })).modifyTask i
    (fun t => { t with wrote := t.wrote ++ bytes })

def publishEntry (k : Nat) (s : System Peer) : System Peer :=
  s.modifyEntry k (fun e => { e with published := e.published || !e.deleted })

def complete (answer : Bool) (tr : Transfer Peer) : Transfer Peer :=
  { tr with answer := some (tr.answer.getD answer) }

def farewell (reason : FailureReason) : ControlBody :=
  if reason.isCancellation then .cancel reason else .failed reason

def finishStep (i r : Nat) (tr : Transfer Peer) (call : FinishCall) (input : Input)
    (s : System Peer) : Option (System Peer) :=
  let goto (stage : FinishStage) (s : System Peer) :=
    s.setJob i (.finish { call with stage := stage })
  match call.stage, input with
  | .enter, .go => some (goto (.lock tr.state.isActive) s)
  | .lock wasActive, .go =>
    if tr.state.canTransitionTo call.next then
      some (goto (.cancel wasActive) (s.modifyTransfer r (fun tr =>
        { tr with state := call.next, failure := call.reason.or tr.failure })))
    else some (goto (.tell wasActive) s)
  | .cancel wasActive, .go =>
    some (goto (.dropChallenge wasActive) (s.modifyTransfer r ({ · with cancelled := true })))
  | .dropChallenge wasActive, .go =>
    some (goto (.withdraw wasActive) (s.modifyTransfer r ({ · with challenge := none })))
  | .withdraw wasActive, .go =>
    some (goto (.detach wasActive) (s.modifyTransfer r (complete false)))
  | .detach wasActive, .go =>
    match tr.pending with
    | none => some (goto (.tell wasActive) s)
    | some k =>
      some (goto (.close wasActive k) (s.modifyTransfer r ({ · with pending := none })))
  | .close wasActive k, .go => some (goto (.delete wasActive k) (s.closeEntry k))
  | .delete wasActive k, .outcome ok =>
    some (goto (.tell wasActive) (s.deleteEntry k ok))
  | .tell wasActive, .outcome ok =>
    match call.tells, wasActive, call.reason with
    | true, true, some reason =>
      some ((s.sendControl tr.peer tr.id (farewell reason) ok).2.setJob i .done)
    | _, _, _ => some (s.setJob i .done)
  | _, _ => none

def approvalStep (i r : Nat) (tr : Transfer Peer) (stage : ApprovalStage) (input : Input)
    (s : System Peer) : Option (System Peer) :=
  match stage, input with
  | .asking, .go => tr.answer.map (fun accepted => s.setJob i (.approval (.answered accepted)))
  | .asking, .ended => some (s.setJob i (.approval (.answered false)))
  | .answered false, .go => some (s.setJob i (.finishAndTell .CANCELLED .DECLINED_BY_USER))
  | .answered true, .outcome authorized =>
    if authorized then some (s.setJob i (.approval .opening))
    else some (s.setJob i (.finishAndTell .FAILED .REVOKED))
  | .opening, .outcome ok =>
    if ok then
      some (setJob i (.approval (.opened s.entries.length))
        { s with entries := s.entries ++ [{ transfer := r }] })
    else some (s.setJob i (.finishAndTell .FAILED .STORAGE))
  | .opened k, .go =>
    some ((s.modifyTransfer r ({ · with pending := some k })).setJob i (.approval .entered))
  | .entered, .go =>
    match s.transition r .TRANSFERRING with
    | none => some (s.setJob i .done)
    | some s => some (s.setJob i (.approval .accepting))
  | .accepting, .outcome ok =>
    match s.sendControl tr.peer tr.id .accept ok with
    | (true, s) => some (s.setJob i .done)
    | (false, s) => some (s.setJob i (.finishAndTell .FAILED .TRANSPORT))
  | _, _ => none

/-- `receiveBytes` up to its hash check, as its loop polls, reads and writes. -/
def receiveStep (i k : Nat) (tr : Transfer Peer) (read : List UInt8) (polled : Bool) (input : Input)
    (s : System Peer) : Option (System Peer) :=
  let remaining := tr.sizeBytes - read.length
  match polled, input with
  | false, .go =>
    if remaining = 0 then none
    else if tr.cancelled then
      some ((s.closeEntry k).setJob i (.finishAndTell .CANCELLED .CANCELLED_BY_USER))
    else some (s.setJob i (.stream (.receiving k read true)))
  | true, .chunk bytes =>
    if min COPY_BUFFER_BYTES remaining < bytes.length then none
    else if s.entryOpen k then
      some ((s.writeEntry i k bytes).setJob i (.stream (.receiving k (read ++ bytes) false)))
    else some (s.setJob i (.finishAndTell .FAILED .TRANSPORT))
  | true, .ended => some ((s.closeEntry k).setJob i (.finishAndTell .FAILED .INTEGRITY))
  | false, .chunk _ =>
    if remaining = 0 then some ((s.closeEntry k).setJob i (.finishAndTell .FAILED .INTEGRITY))
    else none
  | false, .ended =>
    if remaining = 0 then some ((s.closeEntry k).setJob i (.stream (.received k read)))
    else none
  | polled, .broken part =>
    if part = [] then some ((s.closeEntry k).setJob i (.finishAndTell .FAILED .TRANSPORT))
    else if polled && s.entryOpen k && decide (part.length ≤ remaining) then
      some (((s.writeEntry i k part).closeEntry k).setJob i (.finishAndTell .FAILED .TRANSPORT))
    else none
  | _, _ => none

def streamStep (sha256 : List UInt8 → List UInt8) (i r : Nat) (tr : Transfer Peer)
    (stage : StreamStage Peer) (input : Input) (s : System Peer) : Option (System Peer) :=
  match stage, input with
  | .launched, .go => some (s.setJob i (.stream (.transport s.transport)))
  | .transport transport, .go =>
    some (s.modifyTask i (fun t => { t with job := .stream (.challenge transport tr.challenge)
                                            took := t.took || tr.challenge.isSome }))
  | .challenge transport challenge, .go =>
    some ((s.modifyTransfer r ({ · with challenge := none })).setJob i
      (.stream (.taken transport challenge)))
  | .taken (some transport) (some challenge), .outcome ok =>
    let s : System Peer := { s with dials := s.dials ++ [⟨tr.peer, tr.id, transport, challenge⟩] }
    if ok then some (s.setJob i (.stream .dialled))
    else some (s.setJob i (.finishAndTell .FAILED .TRANSPORT))
  | .taken none _, .go | .taken _ none, .go => some (s.setJob i (.finishAndTell .FAILED .TRANSPORT))
  | .dialled, .outcome true =>
    if tr.sending then some (s.setJob i (.stream .sending))
    else
      match tr.pending with
      | none => some (s.setJob i (.finishAndTell .FAILED .STORAGE))
      | some k =>
        some (s.modifyTask i ({ · with job := .stream (.receiving k [] false), entry := some k }))
  | .dialled, .outcome false => some (s.setJob i (.finishAndTell .FAILED .TRANSPORT))
  | .dialled, .refused reason => some (s.setJob i (.finishAndTell .FAILED reason))
  | .sending, .go =>
    if tr.cancelled then some (s.setJob i (.finishAndTell .CANCELLED .CANCELLED_BY_USER)) else none
  | .sending, .outcome ok =>
    if ok then some (s.setJob i .done) else some (s.setJob i (.finishAndTell .FAILED .TRANSPORT))
  | .receiving k read polled, input => s.receiveStep i k tr read polled input
  | .received k read, .go =>
    match s.transition r .VERIFYING with
    | none => some (s.setJob i .done)
    | some s => some (s.setJob i (.stream (.verifying k read)))
  | .verifying k read, .go =>
    if tr.sha256 = sha256 read then some (s.setJob i (.stream (.verified k read)))
    else some (s.setJob i (.finishAndTell .FAILED .INTEGRITY))
  | .verified k _, .outcome ok =>
    if ok then some ((s.publishEntry k).setJob i (.stream .published))
    else some (s.setJob i (.finishAndTell .FAILED .TRANSPORT))
  | .published, .go =>
    some ((s.modifyTransfer r ({ · with pending := none })).setJob i (.stream .settled))
  | .settled, .go =>
    match s.transition r .COMPLETED with
    | none => some (s.setJob i .done)
    | some s => some (s.setJob i (.stream .telling))
  | .telling, .outcome ok => some ((s.sendControl tr.peer tr.id .complete ok).2.setJob i .done)
  | _, _ => none

def taskStep (sha256 : List UInt8 → List UInt8) (i : Nat) (t : Task Peer) (tr : Transfer Peer)
    (input : Input) (s : System Peer) : Option (System Peer) :=
  match t.job, input with
  | .offering, .outcome ok =>
    match s.sendControl tr.peer tr.id .offer ok with
    | (true, s) => some (s.setJob i .done)
    | (false, s) => some (s.setJob i (.finishOnly .FAILED (some .TRANSPORT)))
  | .approval stage, input => s.approvalStep i t.transfer tr stage input
  | .stream stage, input => s.streamStep sha256 i t.transfer tr stage input
  | .finish call, input => s.finishStep i t.transfer tr call input
  | _, _ => none

def onOffer (sanitize : String → Option String) (peer : Peer) (offer : FileOffer)
    (authorized : Bool) (s : System Peer) : System Peer :=
  let reject (reason : FailureReason) :=
    (s.sendControl peer offer.transferId (.reject reason) true).2
  if offer.transferId.length ≠ TRANSFER_ID_LENGTH then s
  else if !authorized then reject .NOT_AUTHORIZED
  else if (s.lookup offer.transferId).isSome then reject .BAD_METADATA
  else if offer.sha256.length ≠ SHA256_BYTES ∨ MAX_FILENAME_BYTES * 4 < utf16Length offer.filename ∨
      MAX_MIME_TYPE_BYTES < utf16Length offer.mimeType then reject .BAD_METADATA
  else if MAX_FILE_BYTES < offer.sizeBytes ∨ offer.sizeBytes < 0 then reject .TOO_LARGE
  else
    match sanitize offer.filename with
    | none => reject .BAD_METADATA
    | some filename =>
      if MAX_CONCURRENT_TRANSFERS ≤ s.activeCount peer then reject .TOO_MANY_TRANSFERS
      else
        (s.insert ⟨offer.transferId, peer, false, filename, offer.sizeBytes.toNat, offer.sha256,
          offer.mimeType, .WAITING_ACCEPT, none, false, none, none, none⟩).spawn
          s.transfers.length (.approval .asking)

variable (session : Session Peer)

variable (s : System Peer)

def sessionReady : Bool :=
  match session.waiting with
  | none => true
  | some i =>
    match (s.tasks[i]?).map Task.job with
    | some .done | none => true
    | _ => false

def setSession : System Peer := { s with session := some session }

def spawnAndWait (r : Nat) (job : Job Peer) (s : System Peer) : System Peer :=
  (s.spawn r job).setSession { session with waiting := some s.tasks.length }

/-- `handleControl`, up to the first write of the shared challenge. -/
def handleControl (sanitize : String → Option String) (session : Session Peer) (message : Control)
    (s : System Peer) : System Peer :=
  let peer := session.info.peer
  match message with
  | .offer offer authorized => s.onOffer sanitize peer offer authorized
  | .accept id challenge =>
    match s.ownedActive id peer true with
    | none => s
    | some r =>
      if challenge.length ≠ CHALLENGE_LENGTH then
        s.spawnAndWait session r (.finishAndTell .FAILED .BAD_METADATA)
      else s.setSession { session with handler := .accept r ⟨challenge, session.info⟩ }
  | .ready id challenge =>
    match s.ownedActive id peer false with
    | none => s
    | some r =>
      if challenge.length ≠ CHALLENGE_LENGTH then
        s.spawnAndWait session r (.finishAndTell .FAILED .BAD_METADATA)
      else s.setSession { session with handler := .ready r ⟨challenge, session.info⟩ }
  | .complete id =>
    match s.ownedActive id peer true with
    | none => s
    | some r => s.spawnAndWait session r (.finishOnly .COMPLETED none)
  | .ended id reason =>
    match (s.lookup id).filter (fun r => (s.transfers[r]?).any (·.peer = peer)) with
    | none => s
    | some r =>
      s.spawnAndWait session r
        (.finishOnly (if reason.isCancellation then .CANCELLED else .FAILED) (some reason))

def handlerStep : Option (System Peer) :=
  match session.handler with
  | .idle => none
  | .accept r challenge =>
    some ((s.modifyTransfer r ({ · with challenge := some challenge })).setSession
      { session with handler := .acceptSet r })
  | .acceptSet r =>
    match s.transition r .TRANSFERRING with
    | none => some (s.setSession { session with handler := .idle })
    | some s => some ((s.spawn r (.stream .launched)).setSession { session with handler := .idle })
  | .ready r challenge =>
    some (((s.modifyTransfer r ({ · with challenge := some challenge })).spawn r
      (.stream .launched)).setSession { session with handler := .idle })

def sweepStep : Option (System Peer) :=
  match session.phase with
  | .clearing =>
    some (setSession { session with phase := .sweeping (s.table.map Prod.snd) } { s with
      transport := none })
  | .sweeping (r :: left) =>
    let session := { session with phase := .sweeping left }
    if s.transferActive r then
      some (s.spawnAndWait session r (.finishOnly .FAILED (some .TRANSPORT)))
    else some (s.setSession session)
  | .sweeping [] => some { s with session := none }
  | _ => none

def isAsking (id : List UInt8) (s : System Peer) (t : Task Peer) : Bool :=
  match t.job with
  | .approval .asking => (s.transfers[t.transfer]?).any (·.id = id)
  | _ => false

def respondToOffer (id : List UInt8) (accept : Bool) (s : System Peer) : System Peer :=
  match s.tasks.find? (s.isAsking id) with
  | none => s
  | some t => s.modifyTransfer t.transfer (complete accept)

def step (sha256 : List UInt8 → List UInt8) (sanitize : String → Option String) (s : System Peer) :
    Action Peer → Option (System Peer)
  | .connect info =>
    match s.session with
    | some _ => none
    | none => some { s with transport := some ⟨info.address, info.peer, info.profile⟩
                            session := some { info := info } }
  | .attachControl => s.session.bind (fun session =>
    match session.phase with
    | .connected =>
      some (setSession { session with phase := .running }
        { s with
          controlSink := if session.info.carriesFiles then some session.info else s.controlSink })
    | _ => none)
  | .control message => s.session.bind (fun session =>
    match session.phase, session.handler, session.info.carriesFiles, s.sessionReady session with
    | .running, .idle, true, true => some (s.handleControl sanitize session message)
    | _, _, _, _ => none)
  | .handle => s.session.bind s.handlerStep
  | .endSession => s.session.bind (fun session =>
    match session.phase, session.handler, s.sessionReady session with
    | .running, .idle, true =>
      if session.info.carriesFiles then
        some (setSession { session with phase := .clearing } { s with controlSink := none })
      else some { s with session := none }
    | _, _, _ => none)
  | .sweep => s.session.bind (fun session =>
    if s.sessionReady session then s.sweepStep session else none)
  | .offer peer authorized =>
    if !authorized || s.controlSink.isNone || MAX_CONCURRENT_TRANSFERS ≤ s.activeCount
      peer then some s
    else some { s with measuring := s.measuring ++ [peer] }
  | .measured index file => (s.measuring[index]?).map (fun peer =>
    let s := { s with measuring := s.measuring.eraseIdx index }
    match file with
    | none => s
    | some file =>
      (s.insert ⟨file.transferId, peer, true, file.filename, file.sizeBytes.toNat, file.sha256,
        file.mimeType, .OFFERED, none, false, none, none, none⟩).spawn s.transfers.length .offering)
  | .respond id accept => some (s.respondToOffer id accept)
  | .cancel id =>
    match (s.lookup id).filter s.transferActive with
    | none => some s
    | some r =>
      some (((s.modifyTransfer r ({ · with cancelled := true })).respondToOffer id false).spawn r
        (.finishAndTell .CANCELLED .CANCELLED_BY_USER))
  | .clearFinished => some { s with table := s.table.filter (fun p => s.transferActive p.2) }
  | .task i input => (s.tasks[i]?).bind (fun t =>
    (s.transfers[t.transfer]?).bind (fun tr => s.taskStep sha256 i t tr input))

end System

end OmniBridge.Files
