import OmniBridge.DesktopFiles

/-! The transfer manager of the desktop. Its calls are tasks that advance from one lock,
file operation, send or stream operation to the next, in any interleaving; a step of a
task has one effect on what the tasks share. -/

namespace OmniBridge.Desktop.Files

open TransferId

structure Context (Fp : Type) where
  session : Nat
  peer : Fp
  profile : Profile

/-- What a data stream runs by, as its record was when the stream asked for it. `seen` is the
version of the watch channel at the subscription. -/
structure StreamPlan where
  seq : Nat
  direction : Direction
  sizeBytes : Nat
  sha256 : Bytes
  source : Option String
  temp : Option String
  filename : String
  seen : Nat
  session : Nat
deriving DecidableEq

inductive OfferFileStage (Fp : Type) where
  | authorizing
  | session
  | counting (session : Nat) (profile : Profile)
  | hashing (session : Nat) (profile : Profile) (filename : String)
  | inserting (record : TransferRecord Fp)
  | offering (record : TransferRecord Fp)

inductive OnOfferStage (Fp : Type) where
  | authorizing
  | checkingId
  | counting
  | inserting (record : TransferRecord Fp)
  | rejecting (reason : FailureReason)

inductive ApprovalStage where
  | asking
  | authorizing
  | opening
  | generating
  | recording (challenge : Option StreamChallenge)
  | activating (challenge : Option StreamChallenge)
  | discarding
  | removing (path : String)
  | accepting (challenge : Option StreamChallenge)

inductive OnAcceptStage where
  | owning
  | generating (session : Nat)
  | challenging (session : Nat) (challenge : StreamChallenge)
  | activating (session : Nat) (challenge : StreamChallenge)
  | readying (session : Nat) (challenge : StreamChallenge)

inductive OnReadyStage where
  | owning
  | challenging (challenge : StreamChallenge)

inductive AcceptStage where
  | authorizing
  | checking
  | refusing (reason : FailureReason)
  | answering

inductive DialStage where
  | starting
  | taking
  | dialing
  | authenticating
  | awaiting
  | marking

/-- `rest` counts the bytes after the chunk in hand. -/
inductive SendStage where
  | opening
  | reading (rest : Nat)
  | polling (rest : Nat) (chunk : Bytes)
  | writing (rest : Nat) (chunk : Bytes)
  | closing (failure : Option FailureReason)
  | verdict (deadline : Nat)

inductive ReceiveStage where
  | opening
  | polling (file : Nat)
  | reading (file : Nat)
  | writing (file : Nat) (chunk : Bytes)
  | flushing
  | trailing
  | closing (failure : Option FailureReason)
  | syncing
  | verifying
  | promoting
  | storing (path : String)

inductive EndingStage where
  | lookup
  | transition
  | takeTemp
  | remove (path : String)
  | tell

/-- A call of `transition` to a terminal state, or of `fail` around it. The peer is told of the
end over the session `tell`. -/
structure Ending where
  id : TransferId
  next : TransferState
  failure : Option FailureReason
  stage : EndingStage
  tell : Option Nat := none

def Ending.body (call : Ending) : FileControl :=
  match call.failure with
  | some reason =>
    if reason.isCancellation then .cancel call.id.bytes (some reason)
      else .failed call.id.bytes (some reason)
  | none => .complete call.id.bytes

/-- Where a task stands. The task of an approval also has the number of the record its offer
inserted. -/
inductive Job (Fp : Type) where
  | offerFile (peer : Fp) (path : String) (stage : OfferFileStage Fp)
  | onOffer (ctx : Context Fp) (id : TransferId) (offer : FileOffer) (stage : OnOfferStage Fp)
  | approval (request : IncomingOffer Fp) (session seq : Nat) (stage : ApprovalStage)
  | onAccept (ctx : Context Fp) (id : TransferId) (challenge : Bytes) (stage : OnAcceptStage)
  | onReady (ctx : Context Fp) (id : TransferId) (challenge : Bytes) (stage : OnReadyStage)
  | onPeerEnded (ctx : Context Fp) (id : TransferId) (reason : FailureReason) (next : TransferState)
  | onComplete (ctx : Context Fp) (id : TransferId)
  | cancel (id : TransferId)
  | cancelPeer (peer : Fp) (reason : FailureReason)
  | reap (now : Nat)
  | checking (id : TransferId) (peer : Fp) (toCheck : List (TransferId × Fp))
  | ending (call : Ending) (doomed : List (TransferId × FailureReason))
    (toCheck : List (TransferId × Fp))
  | acceptStream (peer : Fp) (profile : Profile) (id : TransferId) (mac : Bytes)
    (stage : AcceptStage)
  | dial (id : TransferId) (stage : DialStage)
  | runStream (id : TransferId)
  | send (id : TransferId) (plan : StreamPlan) (stage : SendStage)
  | receive (id : TransferId) (plan : StreamPlan) (stage : ReceiveStage)
  | done

/-- A task, the session that waits for it, and what it has done: the transfer whose challenge its
stream used up and the one whose plan it runs, what it read and wrote, and where it stored the
file. -/
structure Task (Fp : Type) where
  job : Job Fp
  handler : Option Nat := none
  opened : Option Nat := none
  serves : Option Nat := none
  read : Bytes := []
  wrote : List Bytes := []
  replies : List DataStreamReady := []
  promoted : Option String := none

structure Link (Fp : Type) where
  peer : Fp
  profile : Profile
  isClosed : Bool := false

/-- `dropped` keeps the records that left the table, `drawn` the challenges that were
generated. -/
structure TransferManager (Fp : Type) where
  links : List (Link Fp) := []
  sessions : Fp → Option Nat := fun _ => none
  transfers : SortedMap TransferId (TransferRecord Fp) := SortedMap.empty
  dropped : List (TransferRecord Fp) := []
  nextSeq : Nat := 1
  drawn : List StreamChallenge := []
  disk : Disk := {}
  tasks : List (Task Fp) := []
  sent : List (Nat × FileControl) := []
  clock : Nat := 0

inductive Effect (Fp : Type) where
  | nothing
  | detach (peer : Fp)
  | number
  | draw (challenge : StreamChallenge)
  | insert (record : TransferRecord Fp)
  | transition (id : TransferId) (next : TransferState) (failure : Option FailureReason)
  | setChallenge (id : TransferId) (challenge : StreamChallenge)
  | setTemp (id : TransferId) (path : String) (challenge : Option StreamChallenge)
  | takeTemp (id : TransferId)
  | consume (id : TransferId)
  | takeChallenge (id : TransferId)
  | streamOpened (id : TransferId)
  | streamClosed (id : TransferId) (deadline : Option Nat)
  | setStored (id : TransferId) (path : String)
  | openTemp (id : TransferId) (creator : Nat)
  | remove (path : String)
  | truncate (file : Nat)
  | write (file : Nat) (bytes : Bytes)
  | rename (temp path : String)
  | send (session : Nat) (message : FileControl)

structure Outcome (Fp : Type) where
  effect : Effect Fp := .nothing
  task : Task Fp
  spawned : List (Task Fp) := []

inductive Input where
  | go
  | outcome (ok : Bool)
  | hashed (content : Option Bytes) (id : Option TransferId)
  | generated (challenge : Option StreamChallenge)
  | bytes (chunk : Bytes)
  | wrote (count : Nat)
  | eof
  | broken
  | idle
  | ready (answer : Option DataStreamReady)

inductive Action (Fp : Type) where
  | tick (time : Nat)
  | connect (peer : Fp) (profile : Profile)
  | disconnect (session : Nat)
  | control (session : Nat) (message : FileControl)
  | offerFile (peer : Fp) (path : String)
  | cancel (id : TransferId)
  | cancelPeer (peer : Fp) (reason : FailureReason)
  | reap
  | forgetFinished (keep : Nat)
  | stream (peer : Fp) (profile : Profile) (auth : DataStreamAuth)
  | proceed (i : Nat) (input : Input)

section Jobs

variable {Fp : Type}

def Task.goes (job : Job Fp) (task : Task Fp) : Task Fp := { task with job := job }

def Task.isDone (task : Task Fp) : Bool :=
  match task.job with
  | .done => true
  | _ => false

def fail (id : TransferId) (reason : FailureReason) : Ending :=
  { id := id
    next := if reason.isCancellation then .cancelled else .failed
    failure := some reason
    stage := .lookup }

def failed (id : TransferId) (reason : FailureReason) : Job Fp := .ending (fail id reason) [] []

/-- The rest of a pass over transfers: those to be failed, then those whose peers are asked
about again. -/
def failAll : List (TransferId × FailureReason) → List (TransferId × Fp) → Job Fp
  | (id, reason) :: doomed, toCheck => .ending (fail id reason) doomed toCheck
  | [], (id, peer) :: toCheck => .checking id peer toCheck
  | [], [] => .done

def StreamPlan.of (r : TransferRecord Fp) : StreamPlan :=
  { seq := r.seq
    direction := r.direction
    sizeBytes := r.sizeBytes
    sha256 := r.sha256
    source := r.source
    temp := r.temp
    filename := r.filename
    seen := r.cancel
    session := r.session }

end Jobs

namespace TransferManager

variable {Fp : Type} [DecidableEq Fp] (host : Host Fp) (s : TransferManager Fp)

section Shared

def isClosed (session : Nat) : Bool := (s.links[session]?).all Link.isClosed

/-- What the sink of the session makes of a message: nothing once it is closed. -/
def sends (session : Nat) (ok : Bool) : Bool := ok && !s.isClosed session

def sendControl (session : Nat) (message : FileControl) (ok : Bool) : Effect Fp :=
  if s.sends session ok then .send session message else .nothing

def sessionFor (peer : Fp) : Option (Nat × Profile) :=
  (s.sessions peer).bind (fun session =>
    (s.links[session]?).bind (fun link => if link.isClosed then none
      else some (session, link.profile)))

def activeCountFor (peer : Fp) : Nat :=
  s.transfers.entries.countP (fun p => p.2.peer = peer && p.2.state.isActive)

variable (id : TransferId)

def ownedActive (peer : Fp) (direction : Direction) : Option Nat :=
  ((s.transfers.get id).filter (fun r => r.peer = peer && r.direction = direction &&
    r.state.isActive)).map
    TransferRecord.session

def belongsTo (peer : Fp) : Bool := (s.transfers.get id).any (·.peer = peer)

def canTransition (next : TransferState) : Bool :=
  (s.transfers.get id).any (fun r => r.state.canTransitionTo next)

def checkStream (peer : Fp) (profile : Profile) (mac : Bytes) :
    Except FailureReason (TransferRecord Fp) :=
  match s.transfers.get id with
  | none => .error .unknownTransfer
  | some r =>
    if r.peer ≠ peer then .error .unknownTransfer
    else if r.state ≠ .transferring then .error .unknownTransfer
    else match r.challenge with
      | none => .error .unknownTransfer
      | some challenge =>
        if r.profile ≠ profile then .error .notAuthorized
        else if host.computeStreamMac r.profile challenge host.localFingerprint peer id ≠
          mac then .error .notAuthorized
        else .ok r

/-- The receiver of a plan sees that its channel was signalled or dropped. -/
def hasChanged (plan : StreamPlan) : Bool :=
  (s.transfers.get id).all (fun r => r.seq ≠ plan.seq || r.cancel ≠ plan.seen)

def update (f : TransferRecord Fp → TransferRecord Fp) : TransferManager Fp :=
  { s with transfers := s.transfers.modify id f }

def apply : Effect Fp → TransferManager Fp
  | .nothing => s
  | .detach peer => { s with sessions := Function.update s.sessions peer none }
  | .number => { s with nextSeq := s.nextSeq + 1 }
  | .draw challenge => { s with drawn := s.drawn ++ [challenge] }
  | .insert record =>
    { s with transfers := s.transfers.insert record.id record
             dropped := s.dropped ++ (s.transfers.get record.id).toList }
  | .transition id next failure =>
    s.update id (.enter next failure (s.clock + host.config.deadlineFor next))
  | .setChallenge id challenge => s.update id ({ · with challenge := some challenge })
  | .setTemp id path challenge => s.update id ({ · with temp := some path, challenge := challenge })
  | .takeTemp id => s.update id ({ · with temp := none })
  | .consume id => s.update id ({ · with challenge := none, streamActive := true })
  | .takeChallenge id => s.update id ({ · with challenge := none })
  | .streamOpened id => s.update id ({ · with streamActive := true })
  | .streamClosed id deadline =>
    s.update id (fun r => { r with streamActive := false, deadline := deadline.getD r.deadline })
  | .setStored id path => s.update id ({ · with temp := none, storedAt := some path })
  | .openTemp id creator => { s with disk := (s.disk.openTemp id creator).getD s.disk }
  | .remove path => { s with disk := s.disk.remove path }
  | .truncate file => { s with disk := s.disk.truncate file }
  | .write file bytes => { s with disk := s.disk.write file bytes }
  | .rename temp path => { s with disk := s.disk.rename temp path }
  | .send session message => { s with sent := s.sent ++ [(session, message)] }

end Shared

section Calls

variable (task : Task Fp)

def goes (job : Job Fp) : Option (Outcome Fp) := some { task := task.goes job }

variable (id : TransferId)

def fails (reason : FailureReason) : Option (Outcome Fp) := goes task (failed id reason)

def offerFile (peer : Fp) (path : String) : OfferFileStage Fp → Input → Option (Outcome Fp)
  | .authorizing, .outcome ok => goes task (if ok then .offerFile peer path .session else .done)
  | .session, .go =>
    match s.sessionFor peer with
    | some (session, profile) => goes task (.offerFile peer path (.counting session profile))
    | none => some { effect := .detach peer, task := task.goes .done }
  | .counting session profile, .go =>
    if MAX_CONCURRENT_TRANSFERS_PER_PEER ≤ s.activeCountFor peer then goes task .done
    else match host.sanitize ((host.fileName path).getD "") with
      | some filename => goes task (.offerFile peer path (.hashing session profile filename))
      | none => goes task .done
  | .hashing session profile filename, .hashed (some content) (some id) =>
    let record : TransferRecord Fp :=
      { seq := s.nextSeq
        id := id
        peer := peer
        direction := .sending
        filename := filename
        sizeBytes := content.length
        sha256 := host.sha256 content
        mimeType := guessMimeType filename
        state := .offered
        source := some path
        session := session
        profile := profile
        deadline := s.clock + host.config.deadlineFor .offered }
    some { effect := .number, task := task.goes (.offerFile peer path (.inserting record)) }
  | .hashing _ _ _, .hashed _ _ => goes task .done
  | .inserting record, .go =>
    some { effect := .insert record, task := task.goes (.offerFile peer path (.offering record)) }
  | .offering record, .outcome ok =>
    let offer := FileControl.offer ⟨record.id.bytes, record.filename, record.sizeBytes,
      record.mimeType, record.sha256⟩
    if s.sends record.session ok then some
      { effect := .send record.session offer, task := task.goes .done }
    else goes task (.ending { id := record.id, next := .failed, failure := some .transport
                              stage := .transition } [] [])
  | _, _ => none

def onOffer (ctx : Context Fp) (id : TransferId) (offer : FileOffer) :
    OnOfferStage Fp → Input → Option (Outcome Fp)
  | .authorizing, .outcome ok =>
    goes task (.onOffer ctx id offer (if ok then .checkingId else .rejecting .notAuthorized))
  | .checkingId, .go =>
    if s.transfers.contains id then goes task (.onOffer ctx id offer (.rejecting .badMetadata))
    else match host.validateOffer offer with
      | .error reason => goes task (.onOffer ctx id offer (.rejecting reason))
      | .ok () => goes task (.onOffer ctx id offer .counting)
  | .counting, .go =>
    if MAX_CONCURRENT_TRANSFERS_PER_PEER ≤ s.activeCountFor ctx.peer then
      goes task (.onOffer ctx id offer (.rejecting .tooManyTransfers))
    else match host.sanitize offer.filename, decide (offer.sha256.length = SHA256_LEN) with
      | some filename, true =>
        let record : TransferRecord Fp :=
          { seq := s.nextSeq
            id := id
            peer := ctx.peer
            direction := .receiving
            filename := filename
            sizeBytes := offer.sizeBytes
            sha256 := offer.sha256
            mimeType := offer.mimeType
            state := .waitingAccept
            session := ctx.session
            profile := ctx.profile
            deadline := s.clock + host.config.deadlineFor .waitingAccept }
        some { effect := .number, task := task.goes (.onOffer ctx id offer (.inserting record)) }
      | _, _ => goes task (.onOffer ctx id offer (.rejecting .badMetadata))
  | .inserting record, .go =>
    let request : IncomingOffer Fp := ⟨id, ctx.peer, record.filename, offer.sizeBytes,
      offer.mimeType⟩
    some { effect := .insert record
           task := task.goes .done
           spawned := [{ job := .approval request ctx.session record.seq .asking }] }
  | .rejecting reason, .outcome ok =>
    some { effect := s.sendControl ctx.session (.reject id.bytes (some reason)) ok
           task := task.goes .done }
  | _, _ => none

def approval (request : IncomingOffer Fp) (session seq : Nat) :
    ApprovalStage → Input → Option (Outcome Fp)
  | .asking, .outcome accepted =>
    if accepted then goes task (.approval request session seq .authorizing)
    else fails task request.transferId .declinedByUser
  | .authorizing, .outcome ok =>
    if ok then goes task (.approval request session seq .opening) else
      fails task request.transferId .revoked
  | .opening, .outcome ok =>
    if ok && (s.disk.openTemp request.transferId seq).isSome then
      some { effect := .openTemp request.transferId seq
             task := task.goes (.approval request session seq (match host.role with
               | .acceptor => .generating
               | .dialer => .recording none)) }
    else fails task request.transferId .storage
  | .generating, .generated (some challenge) =>
    some { effect := .draw challenge
           task := task.goes (.approval request session seq (.recording (some challenge))) }
  | .generating, .generated none => fails task request.transferId .storage
  | .recording challenge, .go =>
    if s.transfers.contains request.transferId then
      some { effect := .setTemp request.transferId (tempName request.transferId) challenge
             task := task.goes (.approval request session seq (.activating challenge)) }
    else goes task .done
  | .activating challenge, .go =>
    if s.canTransition request.transferId .transferring then
      some { effect := .transition request.transferId .transferring none
             task := task.goes (.approval request session seq (.accepting challenge)) }
    else goes task (.approval request session seq .discarding)
  | .discarding, .go =>
    match (s.transfers.get request.transferId).bind TransferRecord.temp with
    | some path =>
      some { effect := .takeTemp request.transferId
             task := task.goes (.approval request session seq (.removing path)) }
    | none => goes task .done
  | .removing path, .go => some { effect := .remove path, task := task.goes .done }
  | .accepting challenge, .outcome ok =>
    if s.sends session ok then
      some { effect := .send session (.accept request.transferId.bytes
               ((challenge.map StreamChallenge.bytes).getD []))
             task := task.goes .done
             spawned := match host.role with
               | .acceptor => []
               | .dialer => [{ job := .dial request.transferId .starting }] }
    else fails task request.transferId .transport
  | _, _ => none

def onAccept (ctx : Context Fp) (id : TransferId) (bytes : Bytes) :
    OnAcceptStage → Input → Option (Outcome Fp)
  | .owning, .go =>
    match s.ownedActive id ctx.peer .sending, host.role with
    | none, _ => goes task .done
    | some session, .acceptor => goes task (.onAccept ctx id bytes (.generating session))
    | some session, .dialer =>
      match StreamChallenge.fromBytes bytes with
      | none => fails task id .badMetadata
      | some challenge => goes task (.onAccept ctx id bytes (.challenging session challenge))
  | .generating session, .generated (some challenge) =>
    some { effect := .draw challenge
           task := task.goes (.onAccept ctx id bytes (.challenging session challenge)) }
  | .generating _, .generated none => goes task .done
  | .challenging session challenge, .go =>
    if s.transfers.contains id then
      some { effect := .setChallenge id challenge
             task := task.goes (.onAccept ctx id bytes (.activating session challenge)) }
    else goes task .done
  | .activating session challenge, .go =>
    if s.canTransition id .transferring then
      match host.role with
      | .acceptor =>
        some { effect := .transition id .transferring none
               task := task.goes (.onAccept ctx id bytes (.readying session challenge)) }
      | .dialer =>
        some { effect := .transition id .transferring none
               task := task.goes .done
               spawned := [{ job := .dial id .starting }] }
    else goes task .done
  | .readying session challenge, .outcome ok =>
    some { effect := s.sendControl session (.ready id.bytes challenge.bytes) ok
           task := task.goes .done }
  | _, _ => none

def onReady (ctx : Context Fp) (id : TransferId) (bytes : Bytes) :
    OnReadyStage → Input → Option (Outcome Fp)
  | .owning, .go =>
    match host.role, s.ownedActive id ctx.peer .receiving with
    | .acceptor, _ | .dialer, none => goes task .done
    | .dialer, some _ =>
      match StreamChallenge.fromBytes bytes with
      | none => fails task id .badMetadata
      | some challenge => goes task (.onReady ctx id bytes (.challenging challenge))
  | .challenging challenge, .go =>
    if s.transfers.contains id then
      some { effect := .setChallenge id challenge
             task := task.goes .done
             spawned := [{ job := .dial id .starting }] }
    else goes task .done
  | _, _ => none

def onPeerEnded (ctx : Context Fp) (id : TransferId) (reason : FailureReason)
    (next : TransferState) : Input → Option (Outcome Fp)
  | .go =>
    goes task (if s.belongsTo id ctx.peer then
      .ending { id := id, next := next, failure := some reason, stage := .transition } [] []
        else .done)
  | _ => none

def onComplete (ctx : Context Fp) (id : TransferId) : Input → Option (Outcome Fp)
  | .go =>
    goes task (if (s.ownedActive id ctx.peer .sending).isSome then
      .ending { id := id, next := .completed, failure := none, stage := .transition } [] []
        else .done)
  | _ => none

def cancel : Input → Option (Outcome Fp)
  | .go =>
    goes task (if (s.transfers.get id).any (·.state.isActive) then failed id .cancelledByUser
      else .done)
  | _ => none

def cancelPeer (peer : Fp) (reason : FailureReason) : Input → Option (Outcome Fp)
  | .go =>
    let active := s.transfers.entries.filter (fun p => p.2.peer = peer && p.2.state.isActive)
    goes task (failAll (active.map (fun p => (p.2.id, reason))) [])
  | _ => none

def doom (now : Nat) (r : TransferRecord Fp) : Option FailureReason :=
  if s.isClosed r.session then some .transport
  else if !r.streamActive && r.deadline ≤ now then some .timedOut
  else none

def reapOnce (now : Nat) : Input → Option (Outcome Fp)
  | .go =>
    let active := (s.transfers.entries.map Prod.snd).filter (·.state.isActive)
    goes task (failAll (active.filterMap
      (fun r => (s.doom now r).map (fun reason => (r.id, reason))))
      ((active.filter (fun r => (s.doom now r).isNone)).map (fun r => (r.id, r.peer))))
  | _ => none

def checking (toCheck : List (TransferId × Fp)) : Input → Option (Outcome Fp)
  | .outcome ok =>
    goes task (if ok then failAll [] toCheck else .ending (fail id .revoked) [] toCheck)
  | _ => none

def ending (call : Ending) (doomed : List (TransferId × FailureReason))
    (toCheck : List (TransferId × Fp)) : EndingStage → Input → Option (Outcome Fp)
  | .lookup, .go =>
    let tell := (s.transfers.get call.id).map TransferRecord.session
    goes task (.ending { call with stage := .transition, tell := tell } doomed toCheck)
  | .transition, .go =>
    if s.canTransition call.id call.next then
      some { effect := .transition call.id call.next call.failure
             task := task.goes (.ending { call with stage := .takeTemp } doomed toCheck) }
    else goes task (failAll doomed toCheck)
  | .takeTemp, .go =>
    match (s.transfers.get call.id).bind TransferRecord.temp with
    | some path =>
      some { effect := .takeTemp call.id
             task := task.goes (.ending { call with stage := .remove path } doomed toCheck) }
    | none => goes task (.ending { call with stage := .tell } doomed toCheck)
  | .remove path, .go =>
    some { effect := .remove path
           task := task.goes (.ending { call with stage := .tell } doomed toCheck) }
  | .tell, .outcome ok =>
    some { effect := call.tell.elim .nothing (fun session => s.sendControl session call.body ok)
           task := task.goes (failAll doomed toCheck) }
  | _, _ => none

def acceptStream (peer : Fp) (profile : Profile) (id : TransferId) (mac : Bytes) :
    AcceptStage → Input → Option (Outcome Fp)
  | .authorizing, .outcome ok =>
    goes task (.acceptStream peer profile id mac (if ok then .checking
      else .refusing .notAuthorized))
  | .checking, .go =>
    match s.checkStream host id peer profile mac with
    | .error reason => goes task (.acceptStream peer profile id mac (.refusing reason))
    | .ok r =>
      some { effect := .consume id
             task := { task with
               job := .acceptStream peer profile id mac .answering, opened := some r.seq } }
  | .refusing reason, .outcome ok =>
    some { task := { task with job := .done
                               replies := task.replies ++ if ok then [⟨false, some reason⟩]
                                 else [] } }
  | .answering, .outcome ok =>
    some { task := { task with job := if ok then .runStream id else .done
                               replies := task.replies ++ if ok then [⟨true, none⟩] else [] } }
  | _, _ => none

/-- The frames of a dialed stream carry the MAC of the challenge that was taken. -/
def dialAndRun : DialStage → Input → Option (Outcome Fp)
  | .starting, .outcome configured =>
    if configured then goes task (.dial id .taking) else fails task id .transport
  | .taking, .go =>
    match (s.transfers.get id).filter (fun r => r.state = .transferring && r.challenge.isSome) with
    | some r =>
      some { effect := .takeChallenge id
             task := { task with job := .dial id .dialing, opened := some r.seq } }
    | none => goes task .done
  | .dialing, .outcome ok =>
    if ok then goes task (.dial id .authenticating) else fails task id .transport
  | .authenticating, .outcome ok =>
    if ok then goes task (.dial id .awaiting) else fails task id .transport
  | .awaiting, .ready none => fails task id .transport
  | .awaiting, .ready (some answer) =>
    if answer.accepted then goes task (.dial id .marking)
      else fails task id (.fromProto answer.reason)
  | .marking, .go => some { effect := .streamOpened id, task := task.goes (.runStream id) }
  | _, _ => none

def runStream : Input → Option (Outcome Fp)
  | .go =>
    match s.transfers.get id with
    | none => goes task .done
    | some r =>
      let job : Job Fp := match r.direction with
        | .sending => .send id (.of r) .opening
        | .receiving => .receive id (.of r) .opening
      some { task := { task with job := job, serves := some r.seq } }
  | _ => none

def fits (chunk : Bytes) (remaining : Nat) : Bool :=
  0 < chunk.length && chunk.length ≤ remaining && chunk.length ≤ COPY_BUFFER_BYTES

def runSend (plan : StreamPlan) : SendStage → Input → Option (Outcome Fp)
  | .opening, .outcome ok =>
    if ok && plan.source.isSome then goes task (.send id plan (.reading plan.sizeBytes))
      else fails task id .storage
  | .reading rest, .bytes chunk =>
    if fits chunk rest then goes task (.send id plan (.polling (rest - chunk.length) chunk))
      else none
  | .reading (_ + 1), .eof => goes task (.send id plan (.closing (some .integrity)))
  | .reading (_ + 1), .broken => goes task (.send id plan (.closing (some .storage)))
  | .reading 0, .outcome flushed =>
    goes task (.send id plan (.closing (if flushed then none else some .transport)))
  | .polling rest chunk, .go =>
    goes task (.send id plan (if s.hasChanged id plan then .closing (some .cancelledByUser)
      else .writing rest chunk))
  | .writing rest chunk, .wrote count =>
    if count = 0 then goes task (.send id plan (.polling rest chunk))
    else if count ≤ chunk.length then
      some { task := { task with job := .send id plan (if count = chunk.length then .reading rest
                                                        else .polling rest (chunk.drop count))
                                 wrote := task.wrote ++ [chunk.take count] } }
    else none
  | .writing _ _, .broken => goes task (.send id plan (.closing (some .transport)))
  | .writing _ _, .idle => goes task (.send id plan (.closing (some .timedOut)))
  | .closing failure, .go =>
    some { effect := .streamClosed id (some (s.clock + VERDICT_TIMEOUT))
           task := task.goes (match failure with
             | none => .done
             | some .transport => .send id plan (.verdict (s.clock + PEER_VERDICT_GRACE))
             | some reason => failed id reason) }
  | .verdict deadline, .go =>
    if (s.transfers.get id).all (·.state.isTerminal) then goes task .done
    else if deadline ≤ s.clock then fails task id .transport
    else goes task (.send id plan (.verdict deadline))
  | _, _ => none

def runReceive (plan : StreamPlan) : ReceiveStage → Input → Option (Outcome Fp)
  | .opening, .outcome ok =>
    match (plan.temp.bind s.disk.names).filter (fun _ => ok) with
    | some file =>
      some { effect := .truncate file, task := task.goes (.receive id plan (.polling file)) }
    | none => fails task id .storage
  | .polling file, .go =>
    goes task (.receive id plan (if plan.sizeBytes ≤ task.read.length then .flushing
      else if s.hasChanged id plan then .closing (some .cancelledByUser) else .reading file))
  | .reading file, .bytes chunk =>
    if fits chunk (plan.sizeBytes - task.read.length) then
      some { task := { task with
        job := .receive id plan (.writing file chunk), read := task.read ++ chunk } }
    else none
  | .reading _, .eof => goes task (.receive id plan (.closing (some .integrity)))
  | .reading _, .broken => goes task (.receive id plan (.closing (some .transport)))
  | .reading _, .idle => goes task (.receive id plan (.closing (some .timedOut)))
  | .writing file chunk, .outcome ok =>
    if ok then
      some { effect := .write file chunk
             task := task.goes (.receive id plan (.polling file)) }
    else goes task (.receive id plan (.closing (some .storage)))
  | .flushing, .outcome ok =>
    goes task (.receive id plan (if ok then .trailing else .closing (some .storage)))
  | .trailing, .bytes chunk =>
    if chunk.length = 1 then goes task (.receive id plan (.closing (some .integrity))) else none
  | .trailing, .eof | .trailing, .broken | .trailing, .idle =>
    goes task (.receive id plan (.closing none))
  | .closing failure, .go =>
    some { effect := .streamClosed id none
           task := task.goes (match failure with
             | none => .receive id plan .syncing
             | some reason => failed id reason) }
  | .syncing, .outcome ok =>
    if ok then goes task (.receive id plan .verifying) else fails task id .storage
  | .verifying, .go =>
    if s.canTransition id .verifying then
      some { effect := .transition id .verifying none
             task := task.goes (if host.sha256 task.read = plan.sha256 then .receive id plan
               .promoting else failed id .integrity) }
    else goes task .done
  | .promoting, .outcome ok =>
    match (plan.temp.bind (fun temp => (s.disk.promotes temp plan.filename).map (fun path =>
      (temp, path)))).filter (fun _ => ok) with
    | some (temp, path) =>
      some { effect := .rename temp path
             task := { task with job := .receive id plan (.storing path), promoted := some path } }
    | none => fails task id .storage
  | .storing path, .go =>
    some { effect := .setStored id path
           task := task.goes (.ending
             { id := id
               next := .completed
               failure := none
               stage := .transition
               tell := some plan.session } [] []) }
  | _, _ => none

end Calls

def advance (task : Task Fp) (input : Input) : Option (Outcome Fp) :=
  match task.job with
  | .offerFile peer path stage => s.offerFile host task peer path stage input
  | .onOffer ctx id offer stage => s.onOffer host task ctx id offer stage input
  | .approval request session seq stage => s.approval host task request session seq stage input
  | .onAccept ctx id bytes stage => s.onAccept host task ctx id bytes stage input
  | .onReady ctx id bytes stage => s.onReady host task ctx id bytes stage input
  | .onPeerEnded ctx id reason next => s.onPeerEnded task ctx id reason next input
  | .onComplete ctx id => s.onComplete task ctx id input
  | .cancel id => s.cancel task id input
  | .cancelPeer peer reason => s.cancelPeer task peer reason input
  | .reap now => s.reapOnce task now input
  | .checking id _ toCheck => checking task id toCheck input
  | .ending call doomed toCheck => s.ending task call doomed toCheck call.stage input
  | .acceptStream peer profile id mac stage =>
    s.acceptStream host task peer profile id mac stage input
  | .dial id stage => s.dialAndRun task id stage input
  | .runStream id => s.runStream task id input
  | .send id plan stage => s.runSend task id plan stage input
  | .receive id plan stage => s.runReceive host task id plan stage input
  | .done => none

def resume (i : Nat) (out : Outcome Fp) : TransferManager Fp :=
  { s with tasks := s.tasks.set i out.task ++ out.spawned }

def spawn (job : Job Fp) (handler : Option Nat) : TransferManager Fp :=
  { s with tasks := s.tasks ++ [{ job := job, handler := handler }] }

/-- The call a message of a session leads to, where its transfer id has the right length. -/
def handler (ctx : Context Fp) : FileControl → Option (Job Fp)
  | .offer offer => (fromBytes offer.transferId).map (fun id => .onOffer ctx id offer .authorizing)
  | .accept id challenge => (fromBytes id).map (fun id => .onAccept ctx id challenge .owning)
  | .ready id challenge => (fromBytes id).map (fun id => .onReady ctx id challenge .owning)
  | .reject id reason | .cancel id reason =>
    (fromBytes id).map (fun id => .onPeerEnded ctx id (.fromProto reason) .cancelled)
  | .failed id reason =>
    (fromBytes id).map (fun id => .onPeerEnded ctx id (.fromProto reason) .failed)
  | .complete id => (fromBytes id).map (fun id => .onComplete ctx id)

/-- A session waits for the handler of a message before it takes the next one. -/
def handleControl (session : Nat) (message : FileControl) : Option (TransferManager Fp) :=
  (s.links[session]?).bind (fun link =>
    if s.tasks.any (fun task => task.handler = some session && !task.isDone) then none
    else match handler ⟨session, link.peer, link.profile⟩ message with
      | none => some s
      | some job => some (s.spawn job (some session)))

def acceptDataStream (peer : Fp) (profile : Profile) (auth : DataStreamAuth) : TransferManager Fp :=
  if auth.protocolVersion ≠ host.protocolVersion then s
  else match fromBytes auth.transferId with
    | none => s
    | some id => s.spawn (.acceptStream peer profile id auth.mac .authorizing) none

def olderOrSame (p q : TransferId × TransferRecord Fp) : Prop :=
  p.2.seq < q.2.seq ∨ p.2.seq = q.2.seq ∧ p.2.id ≤ q.2.id

instance : DecidableRel (@olderOrSame Fp) :=
  fun p q => inferInstanceAs (Decidable (p.2.seq < q.2.seq ∨ p.2.seq = q.2.seq ∧ p.2.id ≤ q.2.id))

def forgotten (keep : Nat) : List (TransferId × TransferRecord Fp) :=
  let finished := s.transfers.entries.filter (·.2.state.isTerminal)
  (finished.insertionSort olderOrSame).take (finished.length - keep)

def forgetFinished (keep : Nat) : TransferManager Fp :=
  { s with
    transfers := s.transfers.filter (fun p => !((s.forgotten keep).map Prod.fst).contains p.1)
    dropped := s.dropped ++ (s.forgotten keep).map Prod.snd }

def step : Action Fp → Option (TransferManager Fp)
  | .tick time => some { s with clock := s.clock + time }
  | .connect peer profile =>
    some { s with links := s.links ++ [{ peer := peer, profile := profile }]
                  sessions := Function.update s.sessions peer (some s.links.length) }
  | .disconnect session =>
    some { s with links := s.links.modify session ({ · with isClosed := true }) }
  | .control session message => s.handleControl session message
  | .offerFile peer path => some (s.spawn (.offerFile peer path .authorizing) none)
  | .cancel id => some (s.spawn (.cancel id) none)
  | .cancelPeer peer reason => some (s.spawn (.cancelPeer peer reason) none)
  | .reap => some (s.spawn (.reap s.clock) none)
  | .forgetFinished keep => some (s.forgetFinished keep)
  | .stream peer profile auth => some (s.acceptDataStream host peer profile auth)
  | .proceed i input =>
    (s.tasks[i]?).bind (fun task =>
      (s.advance host task input).map (fun out => (s.apply host out.effect).resume i out))

def start (disk : Disk) : TransferManager Fp := { disk := disk }

end TransferManager

section Sample

def sampleId (b : UInt8) : TransferId := ⟨List.replicate 16 b, rfl⟩

def sampleChallenge (b : UInt8) : StreamChallenge := ⟨List.replicate 32 b, List.length_replicate⟩

def sampleHost (role : StreamRole) : Host Nat :=
  { role := role
    localFingerprint := 0
    protocolVersion := 1
    config := { maxFileBytes := 1000, acceptTimeout := 60000, streamOpenTimeout := 30000 }
    fileName := some
    sanitize := some
    sha256 := fun content => (content ++ List.replicate 32 0).take 32
    computeStreamMac := fun _ challenge _ _ id => challenge.bytes ++ id.bytes }

def sampleOffer (id : TransferId) (content : Bytes) : FileOffer :=
  { transferId := id.bytes
    filename := "a.txt"
    sizeBytes := content.length
    mimeType := "text/plain"
    sha256 := (sampleHost .acceptor).sha256 content }

variable (i : Nat)

def checksOffer : List (Action Nat) := [.proceed i (.outcome true), .proceed i .go]

def insertsOffer : List (Action Nat) := [.proceed i .go, .proceed i .go]

def approves (challenge : StreamChallenge) : List (Action Nat) :=
  [.proceed i (.outcome true), .proceed i (.outcome true), .proceed i (.outcome true),
    .proceed i (.generated (some challenge)), .proceed i .go, .proceed i .go]

variable (content : Bytes)

def sendsFile : List (Action Nat) :=
  [.connect 1 .pliwee, .offerFile 1 "a.txt", .proceed 0 (.outcome true), .proceed 0 .go,
    .proceed 0 .go, .proceed 0 (.hashed (some content) (some (sampleId 1))), .proceed 0 .go,
    .proceed 0 (.outcome true), .control 0 (.accept (sampleId 1).bytes []), .proceed 1 .go,
    .proceed 1 (.generated (some (sampleChallenge 1))), .proceed 1 .go, .proceed 1 .go,
    .proceed 1 (.outcome true),
    .stream 1 .pliwee ⟨1, (sampleId 1).bytes, (sampleChallenge 1).bytes ++ (sampleId 1).bytes⟩,
    .proceed 2 (.outcome true), .proceed 2 .go, .proceed 2 (.outcome true)]

def cancels (id : TransferId) : List (Action Nat) :=
  [.cancel id, .proceed i .go, .proceed i .go, .proceed i .go]

def receivesFile : List (Action Nat) :=
  [Action.connect 1 .pliwee, .control 0 (.offer (sampleOffer (sampleId 1) content))] ++
    checksOffer 0 ++ insertsOffer 0 ++
  approves 1 (sampleChallenge 1) ++
  [Action.proceed 1 (.outcome true),
  .stream 1 .pliwee ⟨1, (sampleId 1).bytes, (sampleChallenge 1).bytes ++ (sampleId 1).bytes⟩,
  .proceed 2 (.outcome true), .proceed 2 .go, .proceed 2 (.outcome true), .proceed 2 .go]

def copiesFile : List (Action Nat) :=
  [.proceed i (.outcome true), .proceed i .go, .proceed i (.bytes content),
    .proceed i (.outcome true), .proceed i .go, .proceed i (.outcome true), .proceed i .eof,
    .proceed i .go]

def promotesFile : List (Action Nat) :=
  [.proceed i (.outcome true), .proceed i .go, .proceed i (.outcome true)]

def completesFile : List (Action Nat) :=
  [.proceed i .go, .proceed i .go, .proceed i .go, .proceed i (.outcome true)]

def sendsChunk (chunk : Bytes) : List (Action Nat) :=
  [.proceed i (.bytes chunk), .proceed i .go, .proceed i (.wrote chunk.length)]

end Sample

end OmniBridge.Desktop.Files
