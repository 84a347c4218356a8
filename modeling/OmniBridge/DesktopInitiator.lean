import OmniBridge.DesktopAdmission

/-! The other half of a handshake, from HELLO to the peer that is stored, and the MACs
both halves compute. -/

namespace OmniBridge.Desktop

open List Option Wire

def FINGERPRINT_LEN : Nat := 32

/-- The domains are those of `profile` and, for a data stream, `data_stream_domain`. -/
inductive MacPurpose where
  | proof | confirmation | stream
deriving DecidableEq

def dataStreamDomain : Profile → Bytes
  | .pliwee => ascii "pliwee/files.v1/data-stream/v1"
  | .omniBridge => ascii "omnibridge/files.v1/data-stream/v1"

def MacPurpose.domain : MacPurpose → Profile → Bytes
  | .proof => Profile.pairingProofDomain
  | .confirmation => Profile.pairingConfirmDomain
  | .stream => dataStreamDomain

structure MacInput (Fp : Type) where
  confirms : Bool
  profile : Profile
  token : PairingToken
  responder : Fp
  initiator : Fp
  nonce : Bytes
deriving DecidableEq

namespace MacInput

variable {Fp : Type} (x : Responder Fp)

section

variable (u : MacInput Fp)

def domain : Bytes :=
  if u.confirms then u.profile.pairingConfirmDomain else u.profile.pairingProofDomain

def purpose : MacPurpose := if u.confirms then .confirmation else .proof

theorem domain_eq : u.domain = u.purpose.domain u.profile := by
  unfold domain purpose
  split <;> rfl

def message : Bytes :=
  u.domain ++ lenPrefixed (x.asBytes u.responder) ++ lenPrefixed (x.asBytes u.initiator) ++
    lenPrefixed u.nonce

def value : Bytes :=
  if u.confirms then computeConfirmation x u.profile u.token u.responder u.initiator u.nonce
  else computeProof x u.profile u.token u.responder u.initiator u.nonce

theorem value_eq : u.value x = x.hmacSha256 u.token.bytes (u.message x) := by
  unfold value message domain
  split <;> rfl

end

theorem length_lenPrefixed (data : Bytes) : (lenPrefixed data).length = 4 + data.length :=
  length_append

theorem lenPrefixed_append_inj {a b r t : Bytes} (hlen : a.length = b.length)
    (h : lenPrefixed a ++ r = lenPrefixed b ++ t) : a = b ∧ r = t := by
  obtain ⟨hab, hrest⟩ := append_inj h (by rw [length_lenPrefixed, length_lenPrefixed, hlen])
  exact ⟨append_inj_right hab rfl, hrest⟩

/-- Two domains differ before the shorter of them ends, and what follows them has a
fixed length up to the last part. -/
theorem framed_inj {k l : MacPurpose} {p q a b c a' b' c'} (ha : a.length = a'.length)
    (hb : b.length = b'.length)
    (h : k.domain p ++ lenPrefixed a ++ lenPrefixed b ++ lenPrefixed c = l.domain q ++
      lenPrefixed a' ++ lenPrefixed b' ++ lenPrefixed c') :
    k = l ∧ p = q ∧ a = a' ∧ b = b' ∧ c = c' := by
  simp only [append_assoc] at h
  have hpre := prefix_or_prefix_of_prefix (prefix_append (k.domain p) _)
    (h ▸ prefix_append (l.domain q) _)
  obtain ⟨rfl, rfl⟩ : k = l ∧ p = q :=
    by cases k <;> cases l <;> cases p <;> cases q <;> revert hpre <;> decide
  obtain ⟨hfirst, hrest⟩ := lenPrefixed_append_inj ha (append_cancel_left h)
  obtain ⟨hsec, hlast⟩ := lenPrefixed_append_inj hb hrest
  exact ⟨rfl, rfl, hfirst, hsec, append_inj_right hlast rfl⟩

variable {x} {u v : MacInput Fp}

theorem message_inj (hbytes : Function.Injective x.asBytes)
    (hlen : ∀ fp, (x.asBytes fp).length = FINGERPRINT_LEN) (h : u.message x = v.message x) :
    u.confirms = v.confirms ∧ u.profile = v.profile ∧ u.responder = v.responder ∧
      u.initiator = v.initiator ∧ u.nonce = v.nonce := by
  have hsame := fun fp fp' => (hlen fp).trans (hlen fp').symm
  simp only [message, domain_eq] at h
  obtain ⟨hpurp, hprof, hfirst, hsec, hnonce⟩ := framed_inj (hsame _ _) (hsame _ _) h
  refine ⟨?_, hprof, hbytes hfirst, hbytes hsec, hnonce⟩
  unfold purpose at hpurp
  cases hu : u.confirms <;> cases hv : v.confirms <;> simp_all

end MacInput

/-- A number that is no status is read as none. -/
structure ServerAck where
  device : Option DeviceInfo
  status : Option HelloStatus
  negotiatedProtocolVersion : Nat
  capabilities : List String
  pairingNonce : Bytes
deriving DecidableEq

inductive ServerMessage where
  | helloAck (ack : ServerAck)
  | pairResponse (status : Option PairStatus) (confirmation : Bytes)
  | other
deriving DecidableEq

abbrev ServerEnvelope := Envelope (Option ServerMessage)

/-- What `connect_handshake` is called with, and the identity of its host. `malformed` is
the error of a fingerprint that cannot be read. -/
structure Client (Fp ε : Type) where
  config : Config Fp ε
  device : Device
  fingerprint : Fp
  server : Fp
  profile : Profile
  pairing : Option PairingToken
  malformed : ε

inductive ClientHandshake (Fp : Type) where
  | established (e : Established Fp)
  | pairingRequired

structure Offer (Fp : Type) where
  localFp : Fp
  token : PairingToken
  remote : DeviceInfo
  version : Nat
  capabilities : List String
  nonce : Bytes

namespace Initiator

inductive Stage (Fp ε : Type) where
  | greeting (localFp : Fp)
  | awaitAck (localFp : Fp)
  | requesting (offer : Offer Fp)
  | awaitResponse (offer : Offer Fp)
  | storing (offer : Offer Fp)
  | returned (result : Except (Error ε) (ClientHandshake Fp))

inductive Action (ε : Type) where
  | write (drawn : Option MessageId) (now : Nat) (outcome : Except (Error ε) Unit)
  | receive (arrived : Option (Except (Error ε) ServerEnvelope))
  | storePeer (outcome : Except (Error ε) Unit)

end Initiator

/-- `macs` lists what was authenticated, in order; `stored` is what `store_peer` was
called with. -/
structure Initiator (Fp ε : Type) where
  stage : Initiator.Stage Fp ε
  guard : ReplayGuard := {}
  factory : EnvelopeFactory := ⟨PROTOCOL_VERSION_MAX, 0⟩
  written : List (Envelope PeerMessage) := []
  macs : List (MacInput Fp) := []
  stored : Option (DeviceInfo × Fp × List String × Nat) := none

namespace Initiator

variable {Fp ε : Type}

section Model

variable [DecidableEq Fp] (x : Responder Fp) (client : Client Fp ε) (s : Initiator Fp ε)

def enter (stage : Stage Fp ε) : Initiator Fp ε := { s with stage := stage }

def fail (e : Error ε) : Initiator Fp ε := s.enter (.returned (.error e))

/-- The host's own fingerprint is read from its device info first. -/
def start : Initiator Fp ε :=
  match x.fromHex (x.toHex client.fingerprint) with
  | none => { stage := .returned (.error (.other client.malformed)) }
  | some localFp => { stage := .greeting localFp }

def hello : Hello :=
  ⟨some { client.device with identityFingerprint := x.toHex client.fingerprint },
    PROTOCOL_VERSION_MIN, PROTOCOL_VERSION_MAX, client.config.registry⟩

def supportsVersion (version : Nat) : Bool :=
  PROTOCOL_VERSION_MIN ≤ version ∧ version ≤ PROTOCOL_VERSION_MAX

variable (offer : Offer Fp)

def proofInput : MacInput Fp :=
  ⟨false, client.profile, offer.token, client.server, offer.localFp, offer.nonce⟩

def confirmationInput : MacInput Fp :=
  ⟨true, client.profile, offer.token, client.server, offer.localFp, offer.nonce⟩

def established (remote : DeviceInfo) (capabilities : List String) (version : Nat) :
    ClientHandshake Fp :=
  .established ⟨client.server, client.profile, remote,
    client.config.negotiate capabilities, version⟩

def send (message : PeerMessage) (drawn : Option MessageId) (now : Nat) : Initiator Fp ε :=
  let (env, factory) := build message drawn now s.factory
  { s with factory := factory, written := s.written ++ [env] }

def proceed (outcome : Except (Error ε) Unit) (next : Stage Fp ε) : Initiator Fp ε :=
  match outcome with
  | .error e => s.fail e
  | .ok () => s.enter next

def readAck (env : ServerEnvelope) (guard : ReplayGuard) :
    Except (Error ε) (ReplayGuard × ServerAck × DeviceInfo) := do
  let guard ← (guard.admitEnvelope env).mapError (fun refusal => .protocol refusal.message)
  match env.body with
  | some (.helloAck ack) =>
    match ack.device with
    | none => throw (.protocol "HELLO_ACK without device info")
    | some remote =>
      match x.fromHex remote.identityFingerprint with
      | none => throw (.protocol "HELLO_ACK fingerprint is malformed")
      | some claimed =>
        if claimed ≠ client.server then
          throw (.protocol "HELLO_ACK fingerprint does not match the pinned server identity")
        else return (guard, ack, remote)
  | _ => throw (.protocol "expected HELLO_ACK")

def answerAck (localFp : Fp) (ack : ServerAck) (remote : DeviceInfo) : Initiator Fp ε :=
  let version := ack.negotiatedProtocolVersion
  match ack.status with
  | some .versionUnsupported => s.fail .versionUnsupported
  | some .rejected => s.fail .notAuthorized
  | some .trusted =>
    if !supportsVersion version then s.fail .versionUnsupported
    else { s with factory := { s.factory with protocolVersion := version } }.enter
      (.returned (.ok (established client remote ack.capabilities version)))
  | none => s.fail (.protocol "HELLO_ACK with unspecified status")
  | some .pairingRequired =>
    match client.pairing with
    | none => s.enter (.returned (.ok .pairingRequired))
    | some token =>
      if ack.pairingNonce.length ≠ NONCE_LEN then s.fail (.pairing .notInPairingMode)
      else if !supportsVersion version then s.fail .versionUnsupported
      else { s with factory := { s.factory with protocolVersion := version } }.enter
        (.requesting ⟨localFp, token, remote, version, ack.capabilities, ack.pairingNonce⟩)

def receiveAck (localFp : Fp) : Option (Except (Error ε) ServerEnvelope) → Initiator Fp ε
  | none => s.fail (.protocol "timed out waiting for HELLO_ACK")
  | some (.error e) => s.fail e
  | some (.ok env) =>
    match readAck x client env s.guard with
    | .error e => s.fail e
    | .ok (guard, ack, remote) => { s with guard := guard }.answerAck client localFp ack remote

def refusal : Option PairStatus → PairingError
  | some .declinedByUser => .declinedByUser
  | some .notInPairingMode => .notInPairingMode
  | some .rateLimited => .rateLimited
  | _ => .badProof

def verify (status : Option PairStatus) (confirmation : Bytes) : Initiator Fp ε :=
  if status ≠ some .accepted then s.fail (.pairing (refusal status))
  else
    let s := { s with macs := s.macs ++ [confirmationInput client offer] }
    let expected := computeConfirmation x client.profile offer.token client.server offer.localFp
      offer.nonce
    if !verifyProof expected confirmation then s.fail (.pairing .badProof)
      else s.enter (.storing offer)

def receiveResponse : Option (Except (Error ε) ServerEnvelope) → Initiator Fp ε
  | none => s.fail (.protocol "timed out waiting for PAIR_RESPONSE")
  | some (.error e) => s.fail e
  | some (.ok env) =>
    match s.guard.admitEnvelope env with
    | .error refusal => s.fail (.protocol refusal.message)
    | .ok guard =>
      match env.body with
      | some (.pairResponse status confirmation) =>
        { s with guard := guard }.verify x client offer status confirmation
      | _ => { s with guard := guard }.fail (.protocol "expected PAIR_RESPONSE")

def step : Action ε → Option (Initiator Fp ε)
  | .write drawn now outcome =>
    match s.stage with
    | .greeting localFp =>
      some ((s.send (.hello (hello x client)) drawn now).proceed outcome (.awaitAck localFp))
    | .requesting offer =>
      let proof := computeProof x client.profile offer.token client.server offer.localFp offer.nonce
      some (({ s with macs := s.macs ++ [proofInput client offer] }.send (.pairRequest proof) drawn
        now).proceed outcome (.awaitResponse offer))
    | _ => none
  | .receive arrived =>
    match s.stage with
    | .awaitAck localFp => some (s.receiveAck x client localFp arrived)
    | .awaitResponse offer => some (s.receiveResponse x client offer arrived)
    | _ => none
  | .storePeer outcome =>
    match s.stage with
    | .storing offer =>
      some ({ s with
        stored := some (offer.remote, client.server, client.config.negotiate offer.capabilities,
          offer.version) }.proceed
          outcome (.returned (.ok (established client offer.remote offer.capabilities
            offer.version))))
    | _ => none

end Model

def Stage.offer : Stage Fp ε → Option (Offer Fp)
  | .requesting offer | .awaitResponse offer | .storing offer => some offer
  | _ => none

def Stage.localFp : Stage Fp ε → Option Fp
  | .greeting localFp | .awaitAck localFp => some localFp
  | _ => none

variable {x : Responder Fp} {client : Client Fp ε} {s t : Initiator Fp ε} {a : Action ε}
  {offer : Offer Fp}

structure Fits (x : Responder Fp) (client : Client Fp ε) (offer : Offer Fp) : Prop where
  token : client.pairing = some offer.token
  localFp : x.fromHex (x.toHex client.fingerprint) = some offer.localFp
  nonce : offer.nonce.length = NONCE_LEN

/-- What is written was authenticated, and what is authenticated is for such an offer. -/
structure Kept (x : Responder Fp) (client : Client Fp ε) (s : Initiator Fp ε) : Prop where
  localFp : ∀ fp, s.stage.localFp = some fp → x.fromHex (x.toHex client.fingerprint) = some fp
  offer : ∀ offer, s.stage.offer = some offer → Fits x client offer
  proofs : ∀ env ∈ s.written, ∀ proof, env.body = .pairRequest proof → ∃ u ∈ s.macs,
    u.confirms = false ∧ u.value x = proof
  nonces : ∀ u ∈ s.macs, u.nonce.length = NONCE_LEN
  storing : ∀ offer, s.stage = .storing offer → confirmationInput client offer ∈ s.macs

theorem start_kept : Kept x client (start x client) := by
  unfold start
  split
  · exact ⟨nofun, nofun, nofun, nofun, nofun⟩
  rename_i localFp hlocal
  refine ⟨?_, nofun, nofun, nofun, nofun⟩
  intro fp hfp
  obtain rfl : localFp = fp := some.inj hfp
  exact hlocal

theorem Kept.returns (h : s.Kept x client) (result : Except (Error ε) (ClientHandshake Fp)) :
    (s.enter (.returned result)).Kept x client :=
  ⟨nofun, nofun, h.proofs, h.nonces, nofun⟩

variable {localFp : Fp}

theorem answerAck_kept (h : s.Kept x client)
    (hlocal : x.fromHex (x.toHex client.fingerprint) = some localFp) (ack) (remote) :
    (s.answerAck client localFp ack remote).Kept x client := by
  unfold answerAck
  dsimp only
  split
  · exact h.returns _
  · exact h.returns _
  · split
    · exact h.returns _
    · exact { h.returns _ with }
  · exact h.returns _
  split
  · exact h.returns _
  rename_i token htoken
  split
  · exact h.returns _
  rename_i hnonce
  split
  · exact h.returns _
  refine ⟨nofun, ?_, h.proofs, h.nonces, nofun⟩
  intro _ hoff
  cases hoff
  exact ⟨htoken, hlocal, not_not.mp hnonce⟩

theorem receiveAck_kept [DecidableEq Fp] (h : s.Kept x client) (hst : s.stage = .awaitAck localFp)
    (arrived) : (s.receiveAck x client localFp arrived).Kept x client := by
  have hlocal := h.localFp localFp (by rw [hst]; rfl)
  match arrived with
  | none | some (.error e) => exact h.returns _
  | some (.ok env) =>
    unfold receiveAck
    dsimp only
    split
    · exact h.returns _
    · rename_i guard ack remote hread
      have hguard : Kept x client { s with guard := guard } :=
        ⟨h.localFp, h.offer, h.proofs, h.nonces, h.storing⟩
      exact answerAck_kept hguard hlocal ack remote

theorem Kept.computes (h : s.Kept x client) {u} (hu : u.nonce.length = NONCE_LEN)
    (hst : ∀ offer, s.stage ≠ .storing offer) : Kept x client { s with macs := s.macs ++ [u] } := by
  refine ⟨h.localFp, h.offer, ?_, ?_, fun offer hoff => absurd hoff (hst offer)⟩
  · intro env henv proof hproof
    obtain ⟨v, hv, hvalue⟩ := h.proofs env henv proof hproof
    exact ⟨v, mem_append_left _ hv, hvalue⟩
  · exact forall_mem_concat h.nonces hu

theorem verify_kept (h : s.Kept x client) (hst : s.stage = .awaitResponse offer) (status)
    (confirmation) : (s.verify x client offer status confirmation).Kept x client := by
  have hfits := h.offer offer (by rw [hst]; rfl)
  unfold verify
  split
  · exact h.returns _
  have hcomp : Kept x client { s with macs := s.macs ++ [confirmationInput client offer] } :=
    h.computes hfits.nonce (by rw [hst]; nofun)
  dsimp only
  split
  · exact hcomp.returns _
  refine ⟨nofun, ?_, hcomp.proofs, hcomp.nonces, ?_⟩
  · intro _ hoff
    cases hoff
    exact hfits
  · intro _ hoff
    obtain rfl := Stage.storing.inj hoff
    exact mem_append_right _ mem_cons_self

theorem receiveResponse_kept (h : s.Kept x client) (hst : s.stage = .awaitResponse offer)
    (arrived) : (s.receiveResponse x client offer arrived).Kept x client := by
  match arrived with
  | none | some (.error e) => exact h.returns _
  | some (.ok env) =>
    unfold receiveResponse
    dsimp only
    split
    · exact h.returns _
    rename_i guard hadm
    have hguard : Kept x client { s with guard := guard } :=
      ⟨h.localFp, h.offer, h.proofs, h.nonces, h.storing⟩
    split
    · exact verify_kept hguard hst _ _
    · exact hguard.returns _

theorem Kept.writes (h : s.Kept x client) (message : PeerMessage)
    (hproof : ∀ proof, message = .pairRequest proof → ∃ u ∈ s.macs, u.confirms = false ∧
      u.value x = proof) (drawn : Option MessageId) (now : Nat) :
    (s.send message drawn now).Kept x client := by
  refine ⟨h.localFp, h.offer, ?_, h.nonces, h.storing⟩
  exact forall_mem_concat h.proofs hproof

theorem Kept.proceed (h : s.Kept x client) (outcome) {next}
    (hlocal : ∀ fp, next.localFp = some fp → x.fromHex (x.toHex client.fingerprint) = some fp)
    (hoff : ∀ offer, next.offer = some offer → Fits x client offer)
    (hnext : ∀ offer, next ≠ .storing offer) : (s.proceed outcome next).Kept x client := by
  cases outcome with
  | error e => exact h.returns _
  | ok =>
    exact ⟨hlocal, hoff, h.proofs, h.nonces, fun offer hst => absurd hst (hnext offer)⟩

theorem step_kept [DecidableEq Fp] (hstep : s.step x client a = some t) (h : s.Kept x client) :
    t.Kept x client := by
  cases a with
  | write drawn now outcome =>
    dsimp only [step] at hstep
    split at hstep
    · rename_i localFp hst
      cases hstep
      have hwr := h.writes (.hello (hello x client)) nofun drawn now
      refine hwr.proceed outcome ?_ nofun nofun
      intro fp hfp
      obtain rfl : localFp = fp := some.inj hfp
      exact h.localFp localFp (by rw [hst]; rfl)
    · rename_i offer hst
      cases hstep
      have hfits := h.offer offer (by rw [hst]; rfl)
      have hcomput : Kept x client { s with macs := s.macs ++ [proofInput client offer] } :=
        h.computes hfits.nonce (by rw [hst]; nofun)
      have hwr := hcomput.writes
        (.pairRequest (computeProof x client.profile offer.token client.server offer.localFp
          offer.nonce)) (by
          intro _ hproof
          exact ⟨_, mem_append_right _ mem_cons_self, rfl,
            PeerMessage.pairRequest.inj hproof⟩) drawn now
      refine hwr.proceed outcome nofun ?_ nofun
      intro _ hoff
      cases hoff
      exact hfits
    · cases hstep
  | receive arrived =>
    dsimp only [step] at hstep
    split at hstep
    · exact some.inj hstep ▸ receiveAck_kept h ‹_› arrived
    · exact some.inj hstep ▸ receiveResponse_kept h ‹_› arrived
    · cases hstep
  | storePeer outcome =>
    dsimp only [step] at hstep
    split at hstep
    · cases hstep
      cases outcome with
      | _ => exact { h.returns _ with }
    · cases hstep

theorem proceed_frame (outcome) {next} (hnext : ∀ offer, next ≠ .storing offer) :
    (s.proceed outcome next).written = s.written ∧ ∀ offer,
      (s.proceed outcome next).stage ≠ .storing offer := by
  cases outcome with
  | error => exact ⟨rfl, nofun⟩
  | ok => exact ⟨rfl, hnext⟩

theorem answerAck_frame (localFp) (ack : ServerAck) (remote) :
    (s.answerAck client localFp ack remote).written = s.written ∧ ∀ offer,
      (s.answerAck client localFp ack remote).stage ≠ .storing offer := by
  unfold answerAck
  dsimp only
  split
  · exact ⟨rfl, nofun⟩
  · exact ⟨rfl, nofun⟩
  · split <;> exact ⟨rfl, nofun⟩
  · exact ⟨rfl, nofun⟩
  split
  · exact ⟨rfl, nofun⟩
  · split
    · exact ⟨rfl, nofun⟩
    · split <;> exact ⟨rfl, nofun⟩

theorem receiveAck_frame [DecidableEq Fp] (localFp)
    (arrived : Option (Except (Error ε) ServerEnvelope)) :
    (s.receiveAck x client localFp arrived).written = s.written ∧ ∀ offer,
      (s.receiveAck x client localFp arrived).stage ≠ .storing offer := by
  match arrived with
  | none | some (.error e) => exact ⟨rfl, nofun⟩
  | some (.ok env) =>
    unfold receiveAck
    dsimp only
    split
    · exact ⟨rfl, nofun⟩
    · exact answerAck_frame localFp _ _

theorem verify_frame (status) (confirmation) :
    (s.verify x client offer status confirmation).written = s.written ∧ ∀ offer',
      (s.verify x client offer status confirmation).stage = .storing offer' → offer' = offer ∧
      confirmation = (confirmationInput client offer).value x := by
  unfold verify
  split
  · exact ⟨rfl, nofun⟩
  dsimp only
  split
  · exact ⟨rfl, nofun⟩
  rename_i hver
  have hequal : verifyProof ((confirmationInput client offer).value x) confirmation := by
    rw [Bool.not_eq_true', Bool.not_eq_false] at hver
    exact hver
  refine ⟨rfl, ?_⟩
  intro _ hst
  exact ⟨(Stage.storing.inj hst).symm, verifyProof_eq_true.mp hequal⟩

theorem receiveResponse_frame (arrived) :
    (s.receiveResponse x client offer arrived).written = s.written ∧ ∀ offer',
      (s.receiveResponse x client offer arrived).stage = .storing offer' → offer' = offer ∧
      ∃ env status, arrived = some (.ok env) ∧
      env.body = some (.pairResponse status ((confirmationInput client offer).value x)) := by
  match arrived with
  | none | some (.error e) => exact ⟨rfl, nofun⟩
  | some (.ok env) =>
    unfold receiveResponse
    dsimp only
    split
    · exact ⟨rfl, nofun⟩
    rename_i guard hadm
    split
    · rename_i status confirmation hbody
      obtain ⟨hwrit, hstor⟩ := @verify_frame _ _ x client { s with guard := guard } offer
        status confirmation
      refine ⟨hwrit, ?_⟩
      intro offer' hst
      obtain ⟨hoff, hconf⟩ := hstor offer' hst
      exact ⟨hoff, env, status, rfl, hconf ▸ hbody⟩
    · exact ⟨rfl, nofun⟩

theorem step_frame [DecidableEq Fp] (hstep : s.step x client a = some t) :
    s.written <+: t.written ∧ ∀ offer, t.stage = .storing offer → s.stage = .awaitResponse offer ∧
      ∃ env status, a = .receive (some (.ok env)) ∧
      env.body = some (.pairResponse status ((confirmationInput client offer).value x)) := by
  cases a with
  | write drawn now outcome =>
    dsimp only [step] at hstep
    split at hstep
    · rename_i localFp hst
      cases hstep
      obtain ⟨hwrit, hstor⟩ := @proceed_frame _ _ (s.send (.hello (hello x client)) drawn now)
        outcome (.awaitAck localFp) nofun
      exact ⟨hwrit ▸ prefix_append _ _, fun offer hoff => absurd hoff (hstor offer)⟩
    · rename_i offer hst
      cases hstep
      obtain ⟨hwrit, hstor⟩ :=
        @proceed_frame _ _ ({ s with macs := s.macs ++ [proofInput client offer] }.send
        (.pairRequest (computeProof x client.profile offer.token client.server offer.localFp
        offer.nonce)) drawn now)
        outcome (.awaitResponse offer) nofun
      exact ⟨hwrit ▸ prefix_append _ _, fun offer hoff => absurd hoff (hstor offer)⟩
    · cases hstep
  | receive arrived =>
    dsimp only [step] at hstep
    split at hstep
    · rename_i localFp hst
      cases hstep
      obtain ⟨hwrit, hstor⟩ := @receiveAck_frame _ _ x client s _ localFp arrived
      exact ⟨hwrit ▸ prefix_refl _, fun offer hoff => absurd hoff (hstor offer)⟩
    · rename_i offer hst
      cases hstep
      obtain ⟨hwrit, hstor⟩ := @receiveResponse_frame _ _ x client s offer arrived
      refine ⟨hwrit ▸ prefix_refl _, ?_⟩
      intro offer' hoff
      obtain ⟨rfl, env, status, rfl, hbody⟩ := hstor offer' hoff
      exact ⟨hst, env, status, rfl, hbody⟩
    · cases hstep
  | storePeer outcome =>
    dsimp only [step] at hstep
    split at hstep
    · cases hstep
      cases outcome with
      | _ => exact ⟨prefix_refl _, nofun⟩
    · cases hstep

end Initiator

end OmniBridge.Desktop
