import OmniBridge.Channel
import OmniBridge.DesktopAdmission

/-! A session after its handshake: the reader, the dispatch loop and the writer as tasks
of their own, with the bounded queues between them. The loop is cut where it awaits and
between the branches it polls, so that the other tasks may run in between. When a write
ends and when a frame is complete is up to the peer. -/

namespace OmniBridge.Desktop

open List Option Wire

def INBOUND_QUEUE : Nat := 8
def COMMAND_QUEUE : Nat := 32
def CAPABILITY_QUEUE : Nat := 32
def WRITE_QUEUE : Nat := 32
def MAX_PING_PAYLOAD : Nat := 64

def LIVENESS_PROBE_AFTER : Nat := 60000
def LIVENESS_DEAD_AFTER : Nat := 180000

namespace ErrorCode

def toInt : ErrorCode → Int
  | .unspecified => 0
  | .protocolViolation => 1
  | .unsupportedVersion => 2
  | .unsupportedCapability => 3
  | .notAuthorized => 4
  | .malformed => 5
  | .internal => 6
  | .rateLimited => 7

def ofInt : Int → ErrorCode
  | 1 => .protocolViolation
  | 2 => .unsupportedVersion
  | 3 => .unsupportedCapability
  | 4 => .notAuthorized
  | 5 => .malformed
  | 6 => .internal
  | 7 => .rateLimited
  | _ => .unspecified

end ErrorCode

structure OutboundMessage where
  capabilityId : String
  payload : Bytes
deriving DecidableEq

inductive Body where
  | ping (payload : Bytes)
  | pong (payload : Bytes)
  | capabilityMessage (m : OutboundMessage)
  | capabilityAnnounce
  | error (code : Int) (message : String) (fatal : Bool)
  | other
deriving DecidableEq

abbrev Frame := Envelope Body

structure WriteRequest where
  body : Body
  messageId : Option Bytes := none
  correlationId : Bytes := []
deriving DecidableEq

def OutboundMessage.request (m : OutboundMessage) : WriteRequest := { body := .capabilityMessage m }

def WriteRequest.frame (r : WriteRequest) (drawn : Option MessageId) (now : Nat)
    (f : EnvelopeFactory) : Frame × EnvelopeFactory :=
  let (env, f) := build r.body drawn now f
  ({ env with messageId := r.messageId.getD env.messageId, correlationId := r.correlationId }, f)

namespace Session

inductive Command where
  | ping
  | sendCapability (m : OutboundMessage)
  | shutdown
deriving DecidableEq

inductive Reader (ε : Type) where
  | reading
  | holding (item : Except (Error ε) Frame)
  | stopped

inductive Writer (ε : Type) where
  | idle
  | writing (frame : Frame)
  | flushing (result : Except (Error ε) Unit)
  | finished (result : Except (Error ε) Unit)
  | aborted

def Writer.isGone {ε : Type} : Writer ε → Bool
  | .finished _ | .aborted => true
  | _ => false

def Writer.isBusy {ε : Type} : Writer ε → Bool
  | .writing _ | .flushing _ => true
  | _ => false

inductive Branch where
  | inbound | commands | writer | liveness
deriving DecidableEq

/-- Where `run_session` stands. `greeting` and `handling` are inside a capability that
has messages left to send; `returned` keeps what the loop ended with. -/
inductive Dispatch (ε : Type) where
  | connecting (rest : List String)
  | greeting (sends : List OutboundMessage) (rest : List String)
  | selecting (branch : Branch)
  | sending (request : WriteRequest) (ping : Option Bytes)
  | handling (sends : List OutboundMessage)
  | disconnecting (rest : List String) (result : Except (Error ε) Unit)
  | draining (result : Except (Error ε) Unit)
  | returned (loop result : Except (Error ε) Unit)
  | panicked

namespace Dispatch

variable {ε : Type}

def isLoop : Dispatch ε → Bool
  | .selecting _ | .sending _ _ | .handling _ => true
  | _ => false

def isLeaving : Dispatch ε → Bool
  | .disconnecting _ _ | .draining _ | .returned _ _ | .panicked => true
  | _ => false

theorem in_of_loop {d : Dispatch ε} (h : d.isLoop) : d.isLeaving = false := by
  cases d with
  | selecting | sending | handling => rfl
  | _ => cases h

theorem in_of_eq {d d' : Dispatch ε} (h : d = d') (hd : d'.isLeaving = false) :
    d.isLeaving = false := by
  rw [h]
  exact hd

def isOpen : Dispatch ε → Bool
  | .selecting _ | .sending _ _ | .handling _ | .disconnecting _ _ | .draining _ => true
  | _ => false

end Dispatch

inductive Call where
  | onPeerConnected (id : String)
  | onEstablished
  | onMessage (m : OutboundMessage)
  | onPeerDisconnected (id : String)
  | onClosed
deriving DecidableEq

def Call.isTeardown : Call → Bool
  | .onPeerDisconnected _ | .onClosed => true
  | _ => false

end Session

/-- `joined` says that the handle of the writer has given its output; `sinceShutdown`
counts the frames handled since a shutdown was first queued. -/
structure Session (ε : Type) where
  dispatch : Session.Dispatch ε
  factory : EnvelopeFactory
  guard : ReplayGuard
  reader : Session.Reader ε := .reading
  writer : Session.Writer ε := .idle
  inbound : Channel (Except (Error ε) Frame) INBOUND_QUEUE := .empty
  commands : Channel Session.Command COMMAND_QUEUE := .empty
  capQueue : Channel OutboundMessage CAPABILITY_QUEUE := .empty
  writeQueue : Channel WriteRequest WRITE_QUEUE := .empty
  writeOpen : Bool := true
  pendingPing : Option Bytes := none
  now : Nat := 0
  lastInbound : Nat := 0
  joined : Bool := false
  calls : List Session.Call := []
  written : List Frame := []
  sinceShutdown : Option Nat := none

namespace Session

inductive Action (ε : Type) where
  | advance (by_ : Nat)
  | arrive (item : Except (Error ε) Frame)
  | deliver
  | command (c : Command)
  | offer (m : OutboundMessage)
  | connect (sends : List OutboundMessage)
  | poll (sends : List OutboundMessage) (drawn : Option MessageId) (payload : Bytes)
  | tick (payload : Bytes)
  | push
  | takeRequest (drawn : Option MessageId) (now : Nat)
  | takeMessage (drawn : Option MessageId) (now : Nat)
  | wrote (outcome : Except (Error ε) Unit)
  | stop
  | flushed
  | teardown
  | expire

def Action.isLocal {ε : Type} : Action ε → Bool
  | .deliver | .connect _ | .poll _ _ _ | .push | .takeRequest _ _ | .takeMessage _ _ | .stop
  | .teardown => true
  | _ => false

variable {Fp ε : Type} (x : Host Fp ε) (e : Established Fp) (s : Session ε)

def enter (dispatch : Dispatch ε) : Session ε := { s with dispatch := dispatch }

def leave (result : Except (Error ε) Unit) : Session ε :=
  s.enter (.disconnecting e.negotiatedCapabilities result)

def call (c : Call) : Session ε := { s with calls := s.calls ++ [c] }

/-- Dispatches an admitted frame; `sends` is what a handler sends before it returns. -/
def handleBody (env : Frame) (sends : List OutboundMessage) : Session ε :=
  match env.body with
  | .ping payload =>
    if MAX_PING_PAYLOAD < payload.length then s.leave e
      (.error (.protocol "ping payload too large"))
    else s.enter (.sending ⟨.pong payload, none, env.messageId⟩ none)
  | .pong _ =>
    match s.pendingPing with
    | some id =>
      if env.correlationId = id then { s with pendingPing := none }.enter (.selecting .inbound)
      else s.enter (.selecting .inbound)
    | none => s.enter (.selecting .inbound)
  | .capabilityMessage m =>
    if m.capabilityId ∉ e.negotiatedCapabilities then
      s.enter (.sending ⟨.error ErrorCode.unsupportedCapability.toInt "capability not negotiated"
        false, none, env.messageId⟩ none)
    else if x.config.supports m.capabilityId then (s.call (.onMessage m)).enter (.handling sends)
    else s.enter (.selecting .inbound)
  | .capabilityAnnounce => s.enter (.selecting .inbound)
  | .error code _ fatal =>
    if fatal then s.leave e (.error (.peerError (.ofInt code))) else s.enter (.selecting .inbound)
  | .other => s.leave e (.error (.protocol "unexpected message on established session"))

def receive (item : Except (Error ε) Frame) (sends : List OutboundMessage) : Session ε :=
  match item with
  | .error .closed => s.leave e (.ok ())
  | .error failure => s.leave e (.error failure)
  | .ok env =>
    let s := { s with lastInbound := s.now }
    if env.protocolVersion ≠ e.protocolVersion then
      s.leave e (.error (.protocol "protocol version changed mid-connection"))
    else match s.guard.admitEnvelope env with
      | .error refusal => s.leave e (.error (.protocol refusal.message))
      | .ok guard => { s with guard := guard }.handleBody x e env sends

def handleCommand (c : Command) (drawn : Option MessageId) (payload : Bytes) : Session ε :=
  match c with
  | .shutdown => s.leave e (.ok ())
  | .ping =>
    s.enter (.sending ⟨.ping payload, some (randomMessageId drawn), []⟩
      (some (randomMessageId drawn)))
  | .sendCapability m => s.enter (.sending m.request none)

def livenessTick (payload : Bytes) : Session ε :=
  let silentFor := s.now - s.lastInbound
  if LIVENESS_DEAD_AFTER ≤ silentFor then s.leave e (.error (.protocol "peer stopped responding"))
  else if LIVENESS_PROBE_AFTER ≤ silentFor then s.enter (.sending { body := .ping payload } none)
  else s.enter (.selecting .inbound)

def poll (branch : Branch) (sends : List OutboundMessage) (drawn : Option MessageId)
    (payload : Bytes) : Session ε :=
  match branch with
  | .inbound =>
    match s.inbound.recv with
    | some (item, rest) =>
      { s with inbound := rest, sinceShutdown := s.sinceShutdown.map (· + 1) }.receive x e item
        sends
    | none =>
      match s.reader with
      | .stopped => s.leave e (.ok ())
      | _ => s.enter (.selecting .commands)
  | .commands =>
    match s.commands.recv with
    | some (c, rest) => { s with commands := rest }.handleCommand e c drawn payload
    | none => s.enter (.selecting .writer)
  | .writer =>
    match s.writer with
    | .finished result => { s with joined := true }.leave e result
    | _ => s.enter (.selecting .liveness)
  | .liveness => s.enter (.selecting .inbound)

/-- Puts a message of a capability into its queue; without a writer that fails, and so
would what is left. -/
def pushMessage (m : OutboundMessage) (next failed : Dispatch ε) : Option (Session ε) :=
  if s.writer.isGone then some (s.enter failed)
  else (s.capQueue.send m).map (fun q => { s with capQueue := q, dispatch := next })

def push : Option (Session ε) :=
  match s.dispatch with
  | .sending request ping =>
    if s.writer.isGone then some (s.leave e (.ok ()))
    else (s.writeQueue.send request).map (fun q =>
      { s with writeQueue := q, pendingPing := ping.or s.pendingPing
               dispatch := .selecting .inbound })
  | .handling (m :: sends) => s.pushMessage m (.handling sends) (.handling [])
  | .handling [] => some (s.enter (.selecting .inbound))
  | .greeting (m :: sends) rest => s.pushMessage m (.greeting sends rest) (.greeting [] rest)
  | .greeting [] rest => some (s.enter (.connecting rest))
  | _ => none

/-- `on_peer_connected` of each capability, then the host is told. -/
def connect (sends : List OutboundMessage) : Option (Session ε) :=
  match s.dispatch with
  | .connecting (id :: rest) =>
    some (if x.config.supports id then (s.call (.onPeerConnected id)).enter (.greeting sends rest)
      else s.enter (.connecting rest))
  | .connecting [] => some ((s.call .onEstablished).enter (.selecting .inbound))
  | _ => none

def write (request : WriteRequest) (drawn : Option MessageId) (now : Nat) : Session ε :=
  let (frame, factory) := request.frame drawn now s.factory
  { s with writer := .writing frame, factory := factory }

def conclude : Except (Error ε) Unit → Except (Error ε) Unit → Except (Error ε) Unit
  | .ok (), .error failure => .error failure
  | loop, _ => loop

/-- The code after the loop. A handle that has given its output panics when it is
awaited once more. -/
def teardown : Option (Session ε) :=
  match s.dispatch with
  | .disconnecting (id :: rest) result =>
    some ((if x.config.supports id then s.call (.onPeerDisconnected id) else s).enter
      (.disconnecting rest result))
  | .disconnecting [] result =>
    some ({ s.call .onClosed with reader := .stopped, writeOpen := false }.enter (.draining result))
  | .draining result =>
    if s.joined then some (s.enter .panicked)
    else match s.writer with
      | .finished output =>
        some ({ s with joined := true }.enter (.returned result (conclude result output)))
      | _ => none
  | _ => none

/-- The writer is not waited for any longer. It may end just then, after it was polled. -/
def expire : Option (Session ε) :=
  match s.dispatch with
  | .draining result =>
    if s.joined then none
    else some { s with
      writer := if s.writer.isGone then s.writer else .aborted
      dispatch := .returned result (conclude result (.ok ())) }
  | _ => none

def step : Action ε → Option (Session ε)
  | .advance d => some { s with now := s.now + d }
  | .arrive item =>
    match s.reader with
    | .reading => some { s with reader := .holding item }
    | _ => none
  | .deliver =>
    match s.reader with
    | .holding item => (s.inbound.send item).map (fun q =>
        { s with inbound := q, reader := if item.isOk then .reading else .stopped })
    | _ => none
  | .command c =>
    if s.dispatch.isOpen then (s.commands.send c).map (fun q =>
      { s with commands := q
               sinceShutdown := if c = .shutdown then s.sinceShutdown.or (some 0)
                 else s.sinceShutdown })
    else none
  | .offer m =>
    if s.writer.isGone then none else (s.capQueue.send m).map (fun q => { s with capQueue := q })
  | .connect sends => s.connect x sends
  | .poll sends drawn payload =>
    match s.dispatch with
    | .selecting branch => some (s.poll x e branch sends drawn payload)
    | _ => none
  | .tick payload =>
    match s.dispatch with
    | .selecting .liveness => some (s.livenessTick e payload)
    | _ => none
  | .push => s.push e
  | .takeRequest drawn now =>
    match s.writer, s.writeQueue.recv with
    | .idle, some (request, rest) => some ({ s with writeQueue := rest }.write request drawn now)
    | _, _ => none
  | .takeMessage drawn now =>
    match s.writer, s.capQueue.recv with
    | .idle, some (m, rest) => some ({ s with capQueue := rest }.write m.request drawn now)
    | _, _ => none
  | .wrote outcome =>
    match s.writer, outcome with
    | .writing frame, .ok () => some { s with writer := .idle, written := s.written ++ [frame] }
    | .writing _, .error failure => some { s with writer := .flushing (.error failure) }
    | _, _ => none
  | .stop =>
    match s.writer, s.writeQueue.recv with
    | .idle, none => if s.writeOpen then none else some { s with writer := .flushing (.ok ()) }
    | _, _ => none
  | .flushed =>
    match s.writer with
    | .flushing result => some { s with writer := .finished result }
    | _ => none
  | .teardown => s.teardown x
  | .expire => s.expire

def start (factory : EnvelopeFactory) (guard : ReplayGuard) : Session ε :=
  { dispatch := .connecting e.negotiatedCapabilities, factory := factory, guard := guard }

inductive Reacts : Session ε → Prop
  | stays (guard : ReplayGuard) (pendingPing : Option Bytes) (lastInbound : Nat) (calls : List Call)
      (d : Dispatch ε) : d.isLoop → calls.filter Call.isTeardown = s.calls.filter Call.isTeardown →
      Reacts { s with
        guard := guard, pendingPing := pendingPing, lastInbound := lastInbound, calls := calls,
          dispatch := d }
  | leaves (guard : ReplayGuard) (lastInbound : Nat) (result : Except (Error ε) Unit) :
      Reacts { s with
        guard := guard, lastInbound := lastInbound,
          dispatch := .disconnecting e.negotiatedCapabilities result }

inductive Dispatch.Sends (m : OutboundMessage) : Dispatch ε → Dispatch ε → Prop
  | handling (sends : List OutboundMessage) : Sends m (.handling (m :: sends)) (.handling sends)
  | greeting (sends : List OutboundMessage) (rest : List String) :
      Sends m (.greeting (m :: sends) rest) (.greeting sends rest)

def Action.isDispatch : Action ε → Bool
  | .connect _ | .poll _ _ _ | .tick _ | .push | .teardown | .expire => true
  | _ => false

inductive Steps : Action ε → Session ε → Prop
  | advance (d : Nat) : Steps (.advance d) { s with now := s.now + d }
  | arrive (item : Except (Error ε) Frame) : s.reader = .reading →
    Steps (.arrive item) { s with reader := .holding item }
  | deliver (item : Except (Error ε) Frame) (q : Channel (Except (Error ε) Frame) INBOUND_QUEUE) :
      s.reader = .holding item → s.inbound.send item = some q →
      Steps .deliver { s with inbound := q, reader := if item.isOk then .reading else .stopped }
  | command (c : Command) (q : Channel Command COMMAND_QUEUE) : s.dispatch.isOpen →
      s.commands.send c = some q → Steps (.command c) { s with
        commands := q, sinceShutdown := if c = .shutdown then s.sinceShutdown.or (some 0)
          else s.sinceShutdown }
  | offer (m : OutboundMessage) (q : Channel OutboundMessage CAPABILITY_QUEUE) : s.writer.isGone =
    false → s.capQueue.send m = some q → Steps (.offer m) { s with capQueue := q }
  | connected (sends : List OutboundMessage) (id : String) (rest : List String) :
      s.dispatch = .connecting (id :: rest) →
      Steps (.connect sends) { s with
      calls := s.calls ++ [.onPeerConnected id], dispatch := .greeting sends rest }
  | established (sends : List OutboundMessage) : s.dispatch = .connecting [] →
      Steps (.connect sends) { s with
      calls := s.calls ++ [.onEstablished], dispatch := .selecting .inbound }
  | received (sends : List OutboundMessage) (drawn : Option MessageId) (payload : Bytes)
      (item : Except (Error ε) Frame) (q : Channel (Except (Error ε) Frame) INBOUND_QUEUE)
        (t : Session ε) :
      s.dispatch = .selecting .inbound → s.inbound.recv = some (item, q) →
      Reacts e { s with inbound := q, sinceShutdown := s.sinceShutdown.map (· + 1) } t →
      Steps (.poll sends drawn payload) t
  | commanded (sends : List OutboundMessage) (drawn : Option MessageId) (payload : Bytes)
    (c : Command)
      (q : Channel Command COMMAND_QUEUE) (t : Session ε) :
      s.dispatch = .selecting .commands → s.commands.recv = some (c, q) →
      Reacts e { s with commands := q } t → Steps (.poll sends drawn payload) t
  | ticked (payload : Bytes) (t : Session ε) : s.dispatch = .selecting .liveness → Reacts e s t →
    Steps (.tick payload) t
  | ended (a : Action ε) : s.dispatch.isLoop → s.dispatch ≠ .selecting .writer → a.isDispatch →
    Steps a (s.leave e (.ok ()))
  | joined (sends : List OutboundMessage) (drawn : Option MessageId) (payload : Bytes)
      (result : Except (Error ε) Unit) : s.dispatch = .selecting .writer →
        s.writer = .finished result →
      Steps (.poll sends drawn payload) ({ s with joined := true }.leave e result)
  | moved (a : Action ε) (d : Dispatch ε) : s.dispatch.isLeaving = false → d.isLeaving = false →
      d.isLoop = s.dispatch.isLoop →
      (s.dispatch = .selecting .writer → ∀ r, s.writer ≠ .finished r) → a.isDispatch →
      Steps a (s.enter d)
  | pushedRequest (request : WriteRequest) (ping pendingPing : Option Bytes)
      (q : Channel WriteRequest WRITE_QUEUE) :
      s.dispatch = .sending request ping → s.writer.isGone = false →
      s.writeQueue.send request = some q →
      Steps .push
        { s with writeQueue := q, pendingPing := pendingPing, dispatch := .selecting .inbound }
  | pushedMessage (m : OutboundMessage) (d : Dispatch ε)
    (q : Channel OutboundMessage CAPABILITY_QUEUE) : s.dispatch.Sends m d →
    s.writer.isGone = false → s.capQueue.send m = some q →
    Steps .push { s with capQueue := q, dispatch := d }
  | tookRequest (drawn : Option MessageId) (now : Nat) (request : WriteRequest)
      (q : Channel WriteRequest WRITE_QUEUE) : s.writer = .idle →
        s.writeQueue.recv = some (request, q) →
      Steps (.takeRequest drawn now) ({ s with writeQueue := q }.write request drawn now)
  | tookMessage (drawn : Option MessageId) (now : Nat) (m : OutboundMessage)
      (q : Channel OutboundMessage CAPABILITY_QUEUE) : s.writer = .idle →
        s.capQueue.recv = some (m, q) →
      Steps (.takeMessage drawn now) ({ s with capQueue := q }.write m.request drawn now)
  | wrote (frame : Frame) : s.writer = .writing frame →
      Steps (.wrote (.ok ())) { s with writer := .idle, written := s.written ++ [frame] }
  | failed (frame : Frame) (failure : Error ε) : s.writer = .writing frame →
      Steps (.wrote (.error failure)) { s with writer := .flushing (.error failure) }
  | stopped : s.writer = .idle → s.writeOpen = false →
    Steps .stop { s with writer := .flushing (.ok ()) }
  | flushed (result : Except (Error ε) Unit) : s.writer = .flushing result →
      Steps .flushed { s with writer := .finished result }
  | disconnected (id : String) (rest : List String) (result : Except (Error ε) Unit) :
      s.dispatch = .disconnecting (id :: rest) result → Steps .teardown
        ((if x.config.supports id then s.call (.onPeerDisconnected id) else s).enter
          (.disconnecting rest result))
  | closed (result : Except (Error ε) Unit) : s.dispatch = .disconnecting [] result →
    Steps .teardown
      { s with calls := s.calls ++ [.onClosed], reader := .stopped, writeOpen := false
               dispatch := .draining result }
  | panicked (result : Except (Error ε) Unit) : s.dispatch = .draining result → s.joined →
      Steps .teardown (s.enter .panicked)
  | drained (result output : Except (Error ε) Unit) : s.dispatch = .draining result →
    s.joined = false → s.writer = .finished output →
    Steps .teardown { s with joined := true, dispatch := .returned result (conclude result output) }
  | expired (result : Except (Error ε) Unit) : s.dispatch = .draining result → s.joined = false →
    Steps .expire { s with
      writer := if s.writer.isGone then s.writer else .aborted
      dispatch := .returned result (conclude result (.ok ())) }

section Inversion

variable {x e s} {t : Session ε} {a : Action ε}

theorem Reacts.enter {d} (hd : d.isLoop) : Reacts e s (s.enter d) :=
  .stays s.guard s.pendingPing s.lastInbound s.calls d hd rfl

theorem Reacts.leave (result : Except (Error ε) Unit) : Reacts e s (s.leave e result) :=
  .leaves s.guard s.lastInbound result

theorem handleBody_reacts (env : Frame) (sends) : Reacts e s (s.handleBody x e env sends) := by
  unfold handleBody
  split
  · split
    · exact .leave _
    · exact .enter rfl
  · split
    · split
      · exact .stays s.guard none s.lastInbound s.calls _ rfl rfl
      · exact .enter rfl
    · exact .enter rfl
  · rename_i m hbody
    split
    · exact .enter rfl
    split
    · have hcalls : (s.calls ++ [Call.onMessage m]).filter Call.isTeardown = s.calls.filter
          Call.isTeardown := by
        simp [Call.isTeardown]
      exact .stays s.guard s.pendingPing s.lastInbound _ _ rfl hcalls
    · exact .enter rfl
  · exact .enter rfl
  · split
    · exact .leave _
    · exact .enter rfl
  · exact .leave _

theorem Reacts.of_noted {guard lastInbound}
    (h : Reacts e { s with guard := guard, lastInbound := lastInbound } t) : Reacts e s t := by
  cases h with
  | stays guard pendingPing lastInbound calls d hd hcalls =>
    exact .stays guard pendingPing lastInbound calls d hd hcalls
  | leaves guard lastInbound result => exact .leaves guard lastInbound result

theorem receive_reacts (item : Except (Error ε) Frame) (sends) :
    Reacts e s (s.receive x e item sends) := by
  unfold receive
  split
  · exact .leave _
  · exact .leave _
  dsimp only
  split
  · exact .leaves s.guard s.now _
  · split
    · exact .leaves s.guard s.now _
    · exact (handleBody_reacts _ sends).of_noted

theorem handleCommand_reacts (c : Command) (drawn) (payload) :
    Reacts e s (s.handleCommand e c drawn payload) := by
  cases c with
  | ping | sendCapability => exact .enter rfl
  | shutdown => exact .leave _

theorem livenessTick_reacts (payload) : Reacts e s (s.livenessTick e payload) := by
  unfold livenessTick
  dsimp only
  split
  · exact .leave _
  · split <;> exact .enter rfl

theorem poll_cases {branch} (hdisp : s.dispatch = .selecting branch) (sends) (drawn) (payload) :
    Steps x e s (.poll sends drawn payload) (s.poll x e branch sends drawn payload) := by
  have hloop : s.dispatch.isLoop := by rw [hdisp]; rfl
  have hin : s.dispatch.isLeaving = false := by rw [hdisp]; rfl
  cases branch with
  | inbound =>
    have hbranch : s.dispatch ≠ .selecting .writer := by rw [hdisp]; nofun
    unfold poll
    dsimp only
    split
    · exact .received sends drawn payload _ _ _ hdisp ‹_› (receive_reacts _ sends)
    · split
      · exact .ended _ hloop hbranch rfl
      · exact .moved _ _ hin rfl hloop.symm (fun h => absurd h hbranch) rfl
  | commands =>
    have hbranch : s.dispatch ≠ .selecting .writer := by rw [hdisp]; nofun
    unfold poll
    dsimp only
    split
    · exact .commanded sends drawn payload _ _ _ hdisp ‹_› (handleCommand_reacts _ drawn payload)
    · exact .moved _ _ hin rfl hloop.symm (fun h => absurd h hbranch) rfl
  | writer =>
    unfold poll
    dsimp only
    split
    · exact .joined sends drawn payload _ hdisp ‹_›
    · rename_i hwr
      exact .moved _ _ hin rfl hloop.symm (fun _ => hwr) rfl
  | liveness =>
    have hbranch : s.dispatch ≠ .selecting .writer := by rw [hdisp]; nofun
    exact .moved _ _ hin rfl hloop.symm (fun h => absurd h hbranch) rfl

theorem Dispatch.Sends.place {m : OutboundMessage} {d next : Dispatch ε} (h : d.Sends m next) :
    d.isLeaving = false ∧ d ≠ .selecting .writer ∧ next.isLeaving = false ∧
      next.isLoop = d.isLoop := by
  cases h with
  | _ => exact ⟨rfl, nofun, rfl, rfl⟩

theorem pushMessage_cases {m : OutboundMessage} {next stopped : Dispatch ε}
    (hsends : s.dispatch.Sends m next)
    (hstop : stopped.isLeaving = false ∧ stopped.isLoop = s.dispatch.isLoop)
    (h : s.pushMessage m next stopped = some t) : Steps x e s .push t := by
  unfold pushMessage at h
  split at h
  · cases h
    obtain ⟨hin, hbranch, -, -⟩ := hsends.place
    exact .moved .push _ hin hstop.1 hstop.2 (fun h => absurd h hbranch) rfl
  · rename_i hgone
    obtain ⟨q, hq, rfl⟩ := map_eq_some_iff.mp h
    exact .pushedMessage m next q hsends (Bool.eq_false_iff.mpr hgone) hq

theorem push_cases (h : s.push e = some t) : Steps x e s .push t := by
  unfold push at h
  split at h
  · rename_i request ping hdisp
    split at h
    · cases h
      exact .ended .push (by rw [hdisp]; rfl) (by rw [hdisp]; nofun) rfl
    · rename_i hgone
      obtain ⟨q, hq, rfl⟩ := map_eq_some_iff.mp h
      exact .pushedRequest request ping _ q hdisp (Bool.eq_false_iff.mpr hgone) hq
  · rename_i m sends hdisp
    exact pushMessage_cases (by rw [hdisp]; exact .handling sends) ⟨rfl, by rw [hdisp]; rfl⟩ h
  · rename_i hdisp
    cases h
    exact .moved .push _ (by rw [hdisp]; rfl) rfl (by rw [hdisp]; rfl) (by rw [hdisp]; nofun) rfl
  · rename_i m sends rest hdisp
    exact pushMessage_cases (by rw [hdisp]; exact .greeting sends rest) ⟨rfl, by rw [hdisp]; rfl⟩ h
  · rename_i rest hdisp
    cases h
    exact .moved .push _ (by rw [hdisp]; rfl) rfl (by rw [hdisp]; rfl) (by rw [hdisp]; nofun) rfl
  · cases h

theorem connect_cases {sends} (h : s.connect x sends = some t) :
    Steps x e s (.connect sends) t := by
  unfold connect at h
  split at h
  · rename_i id rest hdisp
    cases h
    split
    · exact .connected sends id rest hdisp
    · exact .moved _ _ (by rw [hdisp]; rfl) rfl (by rw [hdisp]; rfl) (by rw [hdisp]; nofun) rfl
  · rename_i hdisp
    cases h
    exact .established sends hdisp
  · cases h

theorem teardown_cases (h : s.teardown x = some t) : Steps x e s .teardown t := by
  unfold teardown at h
  split at h
  · cases h
    exact .disconnected _ _ _ ‹_›
  · cases h
    exact .closed _ ‹_›
  · rename_i result hdisp
    split at h
    · cases h
      exact .panicked result hdisp ‹_›
    rename_i hjoin
    split at h
    · cases h
      exact .drained result _ hdisp (Bool.eq_false_iff.mpr hjoin) ‹_›
    · cases h
  · cases h

theorem step_cases (h : s.step x e a = some t) : Steps x e s a t := by
  cases a with
  | advance d => exact some.inj h ▸ .advance d
  | arrive item =>
    dsimp only [step] at h
    split at h
    · exact some.inj h ▸ .arrive item ‹_›
    · cases h
  | deliver =>
    dsimp only [step] at h
    split at h
    · obtain ⟨q, hq, rfl⟩ := map_eq_some_iff.mp h
      exact .deliver _ q ‹_› hq
    · cases h
  | command c =>
    obtain ⟨hopen, h⟩ := ite_none_right_eq_some.mp h
    obtain ⟨q, hq, rfl⟩ := map_eq_some_iff.mp h
    exact .command c q hopen hq
  | offer m =>
    obtain ⟨hgone, h⟩ := ite_none_left_eq_some.mp h
    obtain ⟨q, hq, rfl⟩ := map_eq_some_iff.mp h
    exact .offer m q (Bool.eq_false_iff.mpr hgone) hq
  | connect => exact connect_cases h
  | poll sends drawn payload =>
    dsimp only [step] at h
    split at h
    · exact some.inj h ▸ poll_cases ‹_› sends drawn payload
    · cases h
  | tick payload =>
    dsimp only [step] at h
    split at h
    · exact .ticked payload t ‹_› (some.inj h ▸ livenessTick_reacts payload)
    · cases h
  | push => exact push_cases h
  | takeRequest drawn now =>
    dsimp only [step] at h
    split at h
    · exact some.inj h ▸ .tookRequest drawn now _ _ ‹_› ‹_›
    · cases h
  | takeMessage drawn now =>
    dsimp only [step] at h
    split at h
    · exact some.inj h ▸ .tookMessage drawn now _ _ ‹_› ‹_›
    · cases h
  | wrote =>
    dsimp only [step] at h
    split at h
    · exact some.inj h ▸ .wrote _ ‹_›
    · exact some.inj h ▸ .failed _ _ ‹_›
    · cases h
  | stop =>
    dsimp only [step] at h
    split at h
    · obtain ⟨hopen, h⟩ := ite_none_left_eq_some.mp h
      exact some.inj h ▸ .stopped ‹_› (Bool.eq_false_iff.mpr hopen)
    · cases h
  | flushed =>
    dsimp only [step] at h
    split at h
    · exact some.inj h ▸ .flushed _ ‹_›
    · cases h
  | teardown => exact teardown_cases h
  | expire =>
    dsimp only [step, expire] at h
    split at h
    · obtain ⟨hjoin, h⟩ := ite_none_left_eq_some.mp h
      exact some.inj h ▸ .expired _ ‹_› (Bool.eq_false_iff.mpr hjoin)
    · cases h

end Inversion

section Sample

open Handshake (sampleHost phoneSession)

def phoneFrame (k : Nat) (body : Body) : Frame :=
  ⟨1, UInt8.ofNat k :: replicate 15 0, UInt64.ofNat k, 0, [], body⟩

def phoneStart : Session Unit := start phoneSession ⟨1, 0⟩ {}

def opening : List (Action Unit) := [.connect [], .push, .connect []]

def hear (k : Nat) (body : Body) : List (Action Unit) :=
  [.arrive (.ok (phoneFrame k body)), .deliver, .poll [] none []]

end Sample

end Session

end OmniBridge.Desktop
