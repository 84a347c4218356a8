import OmniBridge.DesktopDaemon
import OmniBridge.DesktopPairing
import OmniBridge.PhoneWire

/-! The desktop's half of a handshake, cut where it awaits: a frame, a lock of the host, the
operator or a write. Between two steps the store and the pairing window may become anything; what
the host was asked, and what it held then, is kept in order. -/

namespace OmniBridge.Desktop

open List Option Wire

def PROTOCOL_VERSION_MIN : Nat := 1
def PROTOCOL_VERSION_MAX : Nat := 1
def NONCE_LEN : Nat := 32

inductive ErrorCode where
  | unspecified | protocolViolation | unsupportedVersion | unsupportedCapability | notAuthorized
  | malformed | internal
  | rateLimited
deriving DecidableEq

inductive Error (ε : Type) where
  | protocol (message : String)
  | versionUnsupported
  | notAuthorized
  | pairing (e : PairingError)
  | store (message : String)
  | closed
  | peerError (code : ErrorCode)
  | other (e : ε)
deriving DecidableEq

structure DeviceInfo extends Device where
  identityFingerprint : String
deriving DecidableEq

structure Hello where
  device : Option DeviceInfo
  minProtocolVersion : Nat
  maxProtocolVersion : Nat
  capabilities : List String
deriving DecidableEq

inductive PeerMessage where
  | hello (hello : Hello)
  | pairRequest (proof : Bytes)
  | other
deriving DecidableEq

abbrev PeerEnvelope := Envelope (Option PeerMessage)

inductive HelloStatus where
  | trusted | pairingRequired | versionUnsupported | rejected
deriving DecidableEq

structure HelloAck where
  device : DeviceInfo
  status : HelloStatus
  negotiatedProtocolVersion : Nat
  capabilities : List String
  pairingNonce : Bytes
deriving DecidableEq

inductive PairStatus where
  | accepted | rejected | declinedByUser | notInPairingMode | rateLimited
deriving DecidableEq

inductive Reply where
  | helloAck (ack : HelloAck)
  | pairResponse (status : PairStatus) (confirmation : Bytes)
deriving DecidableEq

structure Nonce where
  bytes : Bytes
  length_eq : bytes.length = NONCE_LEN
deriving DecidableEq

def negotiateVersion (peerMin peerMax : Nat) : Option Nat :=
  let chosen := min peerMax PROTOCOL_VERSION_MAX
  let floor := max peerMin PROTOCOL_VERSION_MIN
  if floor ≤ chosen then some chosen else none

def randomMessageId (drawn : Option MessageId) : Bytes := drawn.elim [] Wire.MessageId.bytes

def build {Body : Type} (body : Body) (drawn : Option MessageId) (now : Nat) (f : EnvelopeFactory) :
    Envelope Body × EnvelopeFactory :=
  let sequence := f.sequence + 1
  (⟨f.protocolVersion, randomMessageId drawn, sequence, now, [], body⟩,
    { f with sequence := sequence })

def buildReply {Body : Type} (body : Body) (correlate : Bytes) (drawn : Option MessageId)
    (now : Nat) (f : EnvelopeFactory) : Envelope Body × EnvelopeFactory :=
  let (env, f) := build body drawn now f
  ({ env with correlationId := correlate }, f)

def admitFrame {ε : Type} (env : PeerEnvelope) (guard : ReplayGuard) :
    Except (Error ε) ReplayGuard :=
  (guard.admitEnvelope env).mapError (fun refusal => .protocol refusal.message)

structure Host (Fp ε : Type) where
  config : Config Fp ε
  responder : Responder Fp
  device : Device

structure Incoming (Fp : Type) where
  peerFingerprint : Fp
  profile : Profile

structure Established (Fp : Type) where
  peer : Fp
  profile : Profile
  device : DeviceInfo
  negotiatedCapabilities : List String
  protocolVersion : Nat
deriving DecidableEq

structure Greeting where
  messageId : Bytes
  hello : Hello
  device : DeviceInfo
  version : Nat
deriving DecidableEq

variable {Fp ε : Type} [LinearOrder Fp]

namespace Host

variable (x : Host Fp ε)

def localDeviceInfo : DeviceInfo :=
  { x.device with identityFingerprint := x.responder.toHex x.responder.fingerprint }

def advertised : List String := x.config.registry

def ack (status : HelloStatus) (version : Nat) (capabilities : List String) (nonce : Bytes) :
    Reply :=
  .helloAck ⟨x.localDeviceInfo, status, version, capabilities, nonce⟩

def readHello (c : Incoming Fp) (env : PeerEnvelope) (guard : ReplayGuard) :
    Except (Error ε) (ReplayGuard × Hello × DeviceInfo) := do
  let guard ← admitFrame env guard
  match env.body with
  | some (.hello hello) =>
    match hello.device with
    | none => throw (.protocol "HELLO without device info")
    | some device =>
      match x.responder.fromHex device.identityFingerprint with
      | none => throw (.protocol "HELLO fingerprint is malformed")
      | some claimed =>
        if claimed ≠ c.peerFingerprint then
          throw (.protocol "HELLO fingerprint does not match the TLS peer certificate")
        else return (guard, hello, device)
  | _ => throw (.protocol "expected HELLO as the first message")

def readPairRequest (version : Nat) (env : PeerEnvelope) (guard : ReplayGuard) :
    Except (Error ε) (ReplayGuard × Bytes) := do
  let guard ← admitFrame env guard
  if env.protocolVersion ≠ version then throw (.protocol "protocol version changed mid-connection")
  match env.body with
  | some (.pairRequest proof) => return (guard, proof)
  | _ => throw (.protocol "expected PAIR_REQUEST from unknown peer")

end Host

namespace Handshake

/-- What follows a write: `fails` whatever it gives, the others only once it succeeded. -/
inductive Next (Fp ε : Type) where
  | fails (e : Error ε)
  | ends (e : Error ε)
  | returns (established : Established Fp)
  | pairs (nonce : Nonce)
  | rereads

inductive Stage (Fp ε : Type) where
  | awaitHello
  | unsupported (messageId : Bytes)
  | lookingUp (g : Greeting)
  | operator (g : Greeting) (revoked : Bool)
  | window (g : Greeting) (revoked hasOperator : Bool)
  | writing (g : Greeting) (correlate : Bytes) (reply : Reply) (next : Next Fp ε)
  | awaitPairRequest (g : Greeting) (nonce : Nonce)
  | verifying (g : Greeting) (nonce : Nonce) (messageId proof : Bytes)
  | asking (g : Greeting) (messageId confirmation : Bytes)
  | confirming (g : Greeting) (messageId confirmation : Bytes)
  | storing (g : Greeting) (messageId confirmation : Bytes)
  | rereading (g : Greeting)
  | returned (result : Except (Error ε) (Established Fp))

inductive Call (Fp ε : Type) [LinearOrder Fp] where
  | lookupPeer (store : Store Fp)
  | verifyPairingProof (desk : Desk) (profile : Profile) (initiator : Fp) (nonce proof : Bytes)
    (later : Nat)
  | confirmPairing (confirmed : Bool)
  | storePeer (store : Store Fp) (device : Device) (fp : Fp) (negotiated : List String)
      (version : Nat) (pairedAtUnix : Int) (write : Except ε Unit)

structure Transcript (Fp ε : Type) [LinearOrder Fp] where
  received : List PeerEnvelope := []
  written : List (Envelope Reply) := []
  calls : List (Call Fp ε) := []

end Handshake

structure Handshake (Fp ε : Type) [LinearOrder Fp] where
  store : Store Fp
  desk : Desk
  stage : Handshake.Stage Fp ε := .awaitHello
  guard : ReplayGuard := {}
  factory : EnvelopeFactory := ⟨PROTOCOL_VERSION_MAX, 0⟩
  transcript : Handshake.Transcript Fp ε := {}

namespace Handshake

inductive Action (Fp ε : Type) [LinearOrder Fp] where
  | world (store : Store Fp) (desk : Desk)
  | receive (arrived : Option (Except (Error ε) PeerEnvelope))
  | lookup
  | operator
  | window (nonce : Option Nonce)
  | write (drawn : Option MessageId) (now : Nat) (outcome : Except (Error ε) Unit)
  | verify (later : Nat)
  | ask
  | answer (reply : Option Bool)
  | storePeer (pairedAtUnix : Int) (write : Except ε Unit)

variable (x : Host Fp ε) (c : Incoming Fp) (s : Handshake Fp ε)

def enter (stage : Stage Fp ε) : Handshake Fp ε := { s with stage := stage }

def fail (e : Error ε) : Handshake Fp ε := s.enter (.returned (.error e))

def record (call : Call Fp ε) : Handshake Fp ε :=
  { s with transcript := { s.transcript with calls := s.transcript.calls ++ [call] } }

def read (env : PeerEnvelope) : Handshake Fp ε :=
  { s with transcript := { s.transcript with received := s.transcript.received ++ [env] } }

def receiveHello : Option (Except (Error ε) PeerEnvelope) → Handshake Fp ε
  | none => s.fail (.protocol "timed out waiting for HELLO")
  | some (.error e) => s.fail e
  | some (.ok env) =>
    let s := s.read env
    match x.readHello c env s.guard with
    | .error e => s.fail e
    | .ok (guard, hello, device) =>
      match negotiateVersion hello.minProtocolVersion hello.maxProtocolVersion with
      | none =>
        { s with guard := guard, factory := ⟨PROTOCOL_VERSION_MAX, 0⟩ }.enter
          (.unsupported env.messageId)
      | some version =>
        { s with guard := guard, factory := ⟨version, 0⟩ }.enter
          (.lookingUp ⟨env.messageId, hello, device, version⟩)

section

variable (g : Greeting)

def lookup : Handshake Fp ε :=
  match s.store.lookupPeer c.peerFingerprint with
  | .trusted deviceId deviceName granted =>
    let effective := Daemon.effective (x.config.negotiate g.hello.capabilities) granted
    let info := { g.device with deviceId := deviceId, deviceName := deviceName }
    (s.record (.lookupPeer s.store)).enter
      (.writing g g.messageId (x.ack .trusted g.version x.advertised [])
      (.returns ⟨c.peerFingerprint, c.profile, info, effective, g.version⟩))
  | .revoked => (s.record (.lookupPeer s.store)).enter (.operator g true)
  | .unknown => (s.record (.lookupPeer s.store)).enter (.operator g false)

/-- The second lock of `pairing_mode_active`. A revoked peer that may pair again is asked
about once more, as an unknown one. -/
def window (revoked hasOperator : Bool) (nonce : Option Nonce) : Handshake Fp ε :=
  let active := hasOperator && s.desk.pairing.any (fun p => !p.2.isExhausted s.desk.now)
  match revoked, active with
  | true, true => s.enter (.operator g false)
  | true, false =>
    s.enter (.writing g g.messageId (x.ack .rejected g.version [] []) (.fails .notAuthorized))
  | false, true =>
    match nonce with
    | none => s.fail (.store "system CSPRNG unavailable")
    | some nonce =>
      s.enter (.writing g g.messageId (x.ack .pairingRequired g.version x.advertised nonce.bytes)
        (.pairs nonce))
  | false, false =>
    s.enter (.writing g g.messageId (x.ack .pairingRequired g.version x.advertised [])
      (.ends (.pairing .notInPairingMode)))

def receivePairRequest (nonce : Nonce) : Option (Except (Error ε) PeerEnvelope) → Handshake Fp ε
  | none => s.fail (.protocol "timed out waiting for PAIR_REQUEST")
  | some (.error e) => s.fail e
  | some (.ok env) =>
    let s := s.read env
    match Host.readPairRequest g.version env s.guard with
    | .error e => s.fail e
    | .ok (guard, proof) => { s with guard := guard }.enter (.verifying g nonce env.messageId proof)

def refusalStatus : PairingError → PairStatus
  | .notInPairingMode => .notInPairingMode
  | .rateLimited => .rateLimited
  | _ => .rejected

def refuse (messageId : Bytes) (status : PairStatus) (e : PairingError) : Handshake Fp ε :=
  s.enter (.writing g messageId (.pairResponse status []) (.fails (.pairing e)))

def verify (nonce : Nonce) (messageId proof : Bytes) (later : Nat) : Handshake Fp ε :=
  let s' :=
    s.record (.verifyPairingProof s.desk c.profile c.peerFingerprint nonce.bytes proof later)
  match s.desk.verifyPairingProof x.responder c.profile c.peerFingerprint nonce.bytes proof
    later with
  | (.ok confirmation, desk) => { s' with desk := desk }.enter (.asking g messageId confirmation)
  | (.error e, desk) => { s' with desk := desk }.refuse g messageId (refusalStatus e) e

/-- The answer of `confirm_pairing` within its time; none at all declines. -/
def answer (messageId confirmation : Bytes) (reply : Option Bool) : Handshake Fp ε :=
  let s := s.record (.confirmPairing (reply.getD false))
  if reply.getD false then s.enter (.storing g messageId confirmation)
  else s.refuse g messageId .declinedByUser .declinedByUser

def storePeer (g : Greeting) (messageId confirmation : Bytes) (pairedAtUnix : Int)
    (write : Except ε Unit) : Handshake Fp ε :=
  let supported := x.config.negotiate g.hello.capabilities
  let s' := s.record
    (.storePeer s.store g.device.toDevice c.peerFingerprint supported g.version pairedAtUnix write)
  match s.store.storePeer x.config g.device.toDevice c.peerFingerprint supported g.version
    pairedAtUnix write with
  | (.ok (), store) =>
    { s' with store := store }.enter
      (.writing g messageId (.pairResponse .accepted confirmation) .rereads)
  | (.error e, store) => { s' with store := store }.fail (.other e)

def reread : Handshake Fp ε :=
  let granted := match s.store.lookupPeer c.peerFingerprint with
    | .trusted _ _ granted => granted
    | .unknown | .revoked => []
  let effective := Daemon.effective (x.config.negotiate g.hello.capabilities) granted
  (s.record (.lookupPeer s.store)).enter
    (.returned (.ok ⟨c.peerFingerprint, c.profile, g.device, effective, g.version⟩))

def send (correlate : Bytes) (reply : Reply) (drawn : Option MessageId) (now : Nat) :
    Handshake Fp ε :=
  let (env, factory) := buildReply reply correlate drawn now s.factory
  { s with
    factory := factory
    transcript := { s.transcript with written := s.transcript.written ++ [env] } }

def proceed (outcome : Except (Error ε) Unit) (next : Next Fp ε) : Handshake Fp ε :=
  match next, outcome with
  | .fails e, _ => s.fail e
  | .ends _, .error e | .returns _, .error e | .pairs _, .error e | .rereads, .error e => s.fail e
  | .ends e, .ok () => s.fail e
  | .returns established, .ok () => s.enter (.returned (.ok established))
  | .pairs nonce, .ok () => s.enter (.awaitPairRequest g nonce)
  | .rereads, .ok () => s.enter (.rereading g)

end

def step : Action Fp ε → Option (Handshake Fp ε)
  | .world store desk => some { s with store := store, desk := desk }
  | .receive arrived =>
    match s.stage with
    | .awaitHello => some (s.receiveHello x c arrived)
    | .awaitPairRequest g nonce => some (s.receivePairRequest g nonce arrived)
    | _ => none
  | .lookup =>
    match s.stage with
    | .lookingUp g => some (s.lookup x c g)
    | .rereading g => some (s.reread x c g)
    | _ => none
  | .operator =>
    match s.stage with
    | .operator g revoked => some (s.enter (.window g revoked s.desk.confirmTx.isSome))
    | _ => none
  | .window nonce =>
    match s.stage with
    | .window g revoked hasOperator => some (s.window x g revoked hasOperator nonce)
    | _ => none
  | .write drawn now outcome =>
    match s.stage with
    | .unsupported messageId =>
      some ((s.send messageId (x.ack .versionUnsupported 0 [] []) drawn now).fail
        .versionUnsupported)
    | .writing g correlate reply next =>
      some ((s.send correlate reply drawn now).proceed g outcome next)
    | _ => none
  | .verify later =>
    match s.stage with
    | .verifying g nonce messageId proof => some (s.verify x c g nonce messageId proof later)
    | _ => none
  | .ask =>
    match s.stage with
    | .asking g messageId confirmation =>
      some (if s.desk.confirmTx.isSome then s.enter (.confirming g messageId confirmation)
        else s.answer g messageId confirmation (some false))
    | _ => none
  | .answer reply =>
    match s.stage, reply with
    | .asking g messageId confirmation, none => some (s.answer g messageId confirmation none)
    | .confirming g messageId confirmation, reply => some (s.answer g messageId confirmation reply)
    | _, _ => none
  | .storePeer pairedAtUnix write =>
    match s.stage with
    | .storing g messageId confirmation =>
      some (s.storePeer x c g messageId confirmation pairedAtUnix write)
    | _ => none

inductive Steps : Action Fp ε → Handshake Fp ε → Prop
  | world (store : Store Fp) (desk : Desk) : Steps (.world store desk) { s with
    store := store, desk := desk }
  | hello (arrived : Option (Except (Error ε) PeerEnvelope)) : s.stage = .awaitHello →
      Steps (.receive arrived) (s.receiveHello x c arrived)
  | request (g : Greeting) (nonce : Nonce) (arrived : Option (Except (Error ε) PeerEnvelope)) :
      s.stage = .awaitPairRequest g nonce →
      Steps (.receive arrived) (s.receivePairRequest g nonce arrived)
  | lookup (g : Greeting) : s.stage = .lookingUp g → Steps .lookup (s.lookup x c g)
  | reread (g : Greeting) : s.stage = .rereading g → Steps .lookup (s.reread x c g)
  | operator (g : Greeting) (revoked : Bool) : s.stage = .operator g revoked →
      Steps .operator (s.enter (.window g revoked s.desk.confirmTx.isSome))
  | window (g : Greeting) (revoked hasOperator : Bool) (nonce : Option Nonce) :
      s.stage = .window g revoked hasOperator →
      Steps (.window nonce) (s.window x g revoked hasOperator nonce)
  | refuse (messageId : Bytes) (drawn : Option MessageId) (now : Nat)
    (outcome : Except (Error ε) Unit) : s.stage = .unsupported messageId →
    Steps (.write drawn now outcome)
        ((s.send messageId (x.ack .versionUnsupported 0 [] []) drawn now).fail .versionUnsupported)
  | write (g : Greeting) (correlate : Bytes) (reply : Reply) (next : Next Fp ε)
      (drawn : Option MessageId) (now : Nat) (outcome : Except (Error ε) Unit) :
      s.stage = .writing g correlate reply next →
      Steps (.write drawn now outcome) ((s.send correlate reply drawn now).proceed g outcome next)
  | verify (g : Greeting) (nonce : Nonce) (messageId proof : Bytes) (later : Nat) :
      s.stage = .verifying g nonce messageId proof →
      Steps (.verify later) (s.verify x c g nonce messageId proof later)
  | ask (g : Greeting) (messageId confirmation : Bytes) : s.stage = .asking g messageId
    confirmation → Steps .ask (s.enter (.confirming g messageId confirmation))
  | answer (a : Action Fp ε) (g : Greeting) (messageId confirmation : Bytes) (reply : Option Bool) :
      s.stage = .asking g messageId confirmation ∨ s.stage = .confirming g messageId confirmation →
      Steps a (s.answer g messageId confirmation reply)
  | storePeer (g : Greeting) (messageId confirmation : Bytes) (pairedAtUnix : Int)
    (write : Except ε Unit) : s.stage = .storing g messageId confirmation →
    Steps (.storePeer pairedAtUnix write)
    (s.storePeer x c g messageId confirmation pairedAtUnix write)

variable {x c s} in
theorem step_cases {a t} (h : s.step x c a = some t) : Steps x c s a t := by
  cases a with
  | world store desk => exact some.inj h ▸ .world store desk
  | receive arrived =>
    dsimp only [step] at h
    split at h
    · exact some.inj h ▸ .hello arrived ‹_›
    · exact some.inj h ▸ .request _ _ arrived ‹_›
    · cases h
  | lookup =>
    dsimp only [step] at h
    split at h
    · exact some.inj h ▸ .lookup _ ‹_›
    · exact some.inj h ▸ .reread _ ‹_›
    · cases h
  | operator =>
    dsimp only [step] at h
    split at h
    · exact some.inj h ▸ .operator _ _ ‹_›
    · cases h
  | window nonce =>
    dsimp only [step] at h
    split at h
    · exact some.inj h ▸ .window _ _ _ nonce ‹_›
    · cases h
  | write drawn now outcome =>
    dsimp only [step] at h
    split at h
    · exact some.inj h ▸ .refuse _ drawn now outcome ‹_›
    · exact some.inj h ▸ .write _ _ _ _ drawn now outcome ‹_›
    · cases h
  | verify later =>
    dsimp only [step] at h
    split at h
    · exact some.inj h ▸ .verify _ _ _ _ later ‹_›
    · cases h
  | ask =>
    dsimp only [step] at h
    split at h
    · rename_i hst
      split at h
      · exact some.inj h ▸ .ask _ _ _ hst
      · exact some.inj h ▸ .answer _ _ _ _ _ (.inl hst)
    · cases h
  | answer =>
    dsimp only [step] at h
    split at h
    · exact some.inj h ▸ .answer _ _ _ _ _ (.inl ‹_›)
    · exact some.inj h ▸ .answer _ _ _ _ _ (.inr ‹_›)
    · cases h
  | storePeer pairedAtUnix write =>
    dsimp only [step] at h
    split at h
    · exact some.inj h ▸ .storePeer _ _ _ pairedAtUnix write ‹_›
    · cases h

variable {x c s} {t : Handshake Fp ε} {g : Greeting}

def Next.phase : Next Fp ε → Phase
  | .fails _ | .ends _ | .pairs _ => .pairing
  | .returns established => .admitted established.negotiatedCapabilities
  | .rereads => .stored

def At (c : Incoming Fp) (i : Nat) (d : Daemon Fp) (g : Greeting) (phase : Phase) : Prop :=
  ∃ asked, d.connections[i]? =
    some ⟨c.peerFingerprint, g.device.toDevice, g.hello.capabilities, g.version, phase, asked⟩

def Standing (c : Incoming Fp) (i : Nat) (d : Daemon Fp) : Stage Fp ε → Prop
  | .awaitHello | .unsupported _ => d.connections.length = i
  | .lookingUp g => At c i d g .accepted
  | .operator g _ | .window g _ _ | .awaitPairRequest g _ | .verifying g _ _ _ | .asking g _ _
  | .confirming g _ _
  | .storing g _ _ => At c i d g .pairing
  | .writing g _ _ next => At c i d g next.phase
  | .rereading g => At c i d g .stored
  | .returned (.ok established) =>
    ∃ b, d.connections[i]? = some b ∧ b.fingerprint = c.peerFingerprint ∧
      b.phase = .connecting established.negotiatedCapabilities
  | .returned (.error _) => ∀ b, d.connections[i]? = some b → b.phase = .closed

structure Tracks (c : Incoming Fp) (i : Nat) (s : Handshake Fp ε) (d : Daemon Fp) : Prop where
  store : d.store = s.store
  standing : Standing c i d s.stage

/-- The daemon can go to where the handshake is one of its connections again. -/
def Follows (x : Host Fp ε) (c : Incoming Fp) (i : Nat) (d : Daemon Fp) (t : Handshake Fp ε) :
    Prop :=
  ∃ bs d', run (Daemon.step x.config) d bs = some d' ∧ t.Tracks c i d'

variable {i : Nat} {d : Daemon Fp} {phase : Phase}

theorem Follows.stutter (hstore : d.store = t.store) (ht : Standing c i d t.stage) :
    Follows x c i d t :=
  ⟨[], d, rfl, hstore, ht⟩

theorem Follows.step {b d'} (h : d.step x.config b = some d') (hstore : d'.store = t.store)
    (ht : Standing c i d' t.stage) : Follows x c i d t :=
  ⟨[b], d', by simp [run, h], hstore, ht⟩

theorem At.setPhase (h : At c i d g phase) (d' : Daemon Fp) (hd : d'.connections = d.connections)
    (next : Phase) : At c i (d'.setPhase i next) g next := by
  obtain ⟨asked, hc⟩ := h
  refine ⟨asked, ?_⟩
  simp [Daemon.setPhase, hd, hc]

theorem Follows.fail (h : At c i d g phase) (hph : phase.isHandshake) (hstore : d.store = t.store)
    {e} (ht : t.stage = .returned (.error e)) : Follows x c i d t := by
  have hcl := h.setPhase d rfl .closed
  obtain ⟨_, hc⟩ := h
  have hstep : d.step x.config (.abandon i) = some (d.setPhase i .closed) := by
    simp [Daemon.step, Daemon.onConnection, hc, hph]
  refine Follows.step hstep hstore ?_
  rw [ht]
  intro b hb
  obtain ⟨_, hc'⟩ := hcl
  obtain rfl := mem_unique hc' hb
  rfl

theorem receiveHello_follows (hstore : d.store = s.store) (hlen : d.connections.length = i)
    (arrived : Option (Except (Error ε) PeerEnvelope)) :
    Follows x c i d (s.receiveHello x c arrived) := by
  have hnone : ∀ b, d.connections[i]? = some b → b.phase = .closed := by
    intro b hb
    rw [getElem?_eq_none hlen.le] at hb
    cases hb
  match arrived with
  | none | some (.error e) => exact .stutter hstore hnone
  | some (.ok env) =>
    unfold receiveHello
    dsimp only
    split
    · exact .stutter hstore hnone
    rename_i guard hello device hhello
    split
    · exact .stutter hstore hlen
    rename_i version hvers
    have hacc : d.step x.config (.accept c.peerFingerprint device.toDevice hello.capabilities
        version) = some _ := rfl
    refine Follows.step hacc hstore ⟨false, ?_⟩
    rw [← hlen, getElem?_concat_length]

theorem lookup_follows (hstore : d.store = s.store) (h : At c i d g .accepted) :
    Follows x c i d (s.lookup x c g) := by
  have hnext := fun next => h.setPhase d rfl next
  obtain ⟨asked, hc⟩ := h
  have hstep : d.step x.config (.lookup i) = some (d.lookup x.config i
      ⟨c.peerFingerprint, g.device.toDevice, g.hello.capabilities, g.version, .accepted,
        asked⟩) := by
    simp [Daemon.step, Daemon.onConnection, hc]
  unfold Daemon.lookup at hstep
  unfold lookup
  rw [hstore] at hstep
  cases hstat : s.store.lookupPeer c.peerFingerprint with
  | _ =>
    rw [hstat] at hstep
    exact Follows.step hstep hstore (hnext _)

theorem window_follows (hstore : d.store = s.store) (h : At c i d g .pairing)
    (revoked hasOperator : Bool) (nonce : Option Nonce) :
    Follows x c i d (s.window x g revoked hasOperator nonce) := by
  unfold window
  dsimp only
  split
  · exact .stutter hstore h
  · exact .stutter hstore h
  · cases nonce with
    | none => exact .fail h rfl hstore rfl
    | some => exact .stutter hstore h
  · exact .stutter hstore h

theorem receivePairRequest_follows {nonce} (hstore : d.store = s.store) (h : At c i d g .pairing)
    (arrived : Option (Except (Error ε) PeerEnvelope)) :
    Follows x c i d (s.receivePairRequest g nonce arrived) := by
  match arrived with
  | none | some (.error e) => exact .fail h rfl hstore rfl
  | some (.ok env) =>
    unfold receivePairRequest
    dsimp only
    split
    · exact .fail h rfl hstore rfl
    · exact .stutter hstore h

theorem storePeer_follows {messageId confirmation} (hstore : d.store = s.store)
    (h : At c i d g .pairing) (pairedAtUnix : Int) (write : Except ε Unit) :
    Follows x c i d (s.storePeer x c g messageId confirmation pairedAtUnix write) := by
  have hat := h
  obtain ⟨asked, hc⟩ := h
  have hstep : d.step x.config (.storePeer i pairedAtUnix write) = some (d.storePeer x.config i
      ⟨c.peerFingerprint, g.device.toDevice, g.hello.capabilities, g.version, .pairing, asked⟩
        pairedAtUnix write) := by
    simp [Daemon.step, Daemon.onConnection, hc]
  unfold Daemon.storePeer at hstep
  unfold storePeer
  rw [hstore] at hstep
  dsimp only at hstep ⊢
  split
  · rename_i store hstor
    rw [hstor] at hstep
    refine Follows.step hstep rfl ?_
    exact hat.setPhase { d with store := store, pairings := _ } rfl .stored
  rename_i e store hstor
  rw [hstor] at hstep
  refine Follows.step hstep rfl (fun b hb => ?_)
  obtain ⟨_, hc'⟩ := hat.setPhase { d with store := store } rfl .closed
  obtain rfl := mem_unique hc' hb
  rfl

theorem reread_follows (hstore : d.store = s.store) (h : At c i d g .stored) :
    Follows x c i d (s.reread x c g) := by
  have hnext := fun next => h.setPhase d rfl next
  obtain ⟨asked, hc⟩ := h
  have hstep : d.step x.config (.reread i) = some (d.reread x.config i
      ⟨c.peerFingerprint, g.device.toDevice, g.hello.capabilities, g.version, .stored, asked⟩) := by
    simp [Daemon.step, Daemon.onConnection, hc]
  unfold Daemon.reread at hstep
  unfold reread
  rw [hstore] at hstep
  cases hstat : s.store.lookupPeer c.peerFingerprint with
  | trusted _ _ granted =>
    rw [hstat] at hstep
    obtain ⟨_, hc'⟩ := hnext
      (.connecting (Daemon.effective (x.config.negotiate g.hello.capabilities) granted))
    exact Follows.step hstep hstore ⟨_, hc', rfl, rfl⟩
  | _ =>
    rw [hstat] at hstep
    obtain ⟨_, hc'⟩ := hnext (.connecting [])
    exact Follows.step hstep hstore ⟨_, hc', rfl, by simp [Daemon.effective]⟩

theorem proceed_follows {next} (hstore : d.store = s.store) (h : At c i d g next.phase)
    (outcome : Except (Error ε) Unit) : Follows x c i d (s.proceed g outcome next) := by
  cases next with
  | fails | ends => cases outcome <;> exact .fail h rfl hstore rfl
  | returns established =>
    cases outcome with
    | error => exact .fail h rfl hstore rfl
    | ok =>
      obtain ⟨_, hc'⟩ := h.setPhase d rfl (.connecting established.negotiatedCapabilities)
      obtain ⟨_, hc⟩ := h
      have hstep : d.step x.config (.establish i) =
          some (d.setPhase i (.connecting established.negotiatedCapabilities)) := by
        simp [Daemon.step, Daemon.onConnection, hc, Next.phase]
      exact Follows.step hstep hstore ⟨_, hc', rfl, rfl⟩
  | _ =>
    cases outcome with
    | error => exact .fail h rfl hstore rfl
    | ok => exact .stutter hstore h

def KeepsStore (s : Handshake Fp ε) : Action Fp ε → Prop
  | .world store _ => store = s.store
  | _ => True

theorem step_follows {a} (hkeep : s.KeepsStore a) (h : s.step x c a = some t)
    (hd : s.Tracks c i d) : Follows x c i d t := by
  have hstore := hd.store
  have hat : ∀ stage, s.stage = stage → Standing c i d stage := fun _ hst => hst ▸ hd.standing
  cases step_cases h with
  | world store =>
    obtain rfl : store = s.store := hkeep
    exact .stutter hstore hd.standing
  | hello arrived hst => exact receiveHello_follows hstore (hat _ hst) arrived
  | request g _ arrived hst => exact receivePairRequest_follows hstore (hat _ hst) arrived
  | lookup g hst => exact lookup_follows hstore (hat _ hst)
  | reread g hst => exact reread_follows hstore (hat _ hst)
  | operator _ _ hst | ask _ _ _ hst =>
    have hpair := hat _ hst
    exact .stutter hstore hpair
  | window g revoked hasOperator nonce hst =>
    exact window_follows hstore (hat _ hst) revoked hasOperator nonce
  | refuse _ _ _ _ hst =>
    refine .stutter hstore (fun b hb => ?_)
    have hlt := (List.getElem?_eq_some_iff.mp hb).1
    have hlength : d.connections.length = i := hat _ hst
    omega
  | write g correlate reply _ drawn now outcome hst =>
    exact @proceed_follows _ _ _ _ _ (s.send correlate reply drawn now) _ _ _ _ hstore
      (hat _ hst) outcome
  | verify g _ _ _ _ hst =>
    have hpair := hat _ hst
    unfold verify
    split <;> exact .stutter hstore hpair
  | answer a g _ _ _ hst =>
    have hpair : At c i d g .pairing := hst.elim (hat _) (hat _)
    unfold answer
    split <;> exact .stutter hstore hpair
  | storePeer g _ _ pairedAtUnix write hst =>
    exact storePeer_follows hstore (hat _ hst) pairedAtUnix write

theorem run_follows {as} (hrun : run (step x c) s as = some t)
    (hkeep : Meets (step x c) KeepsStore s as) (hd : s.Tracks c i d) : Follows x c i d t :=
  run_simulates (step x c) (fun _ _ _ _ hkeep h hd => step_follows hkeep h hd) hrun hkeep hd

end Handshake

end OmniBridge.Desktop
