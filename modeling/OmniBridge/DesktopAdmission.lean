import OmniBridge.DesktopHandshake
import OmniBridge.DesktopTrust

/-! Whom a handshake lets in. What is known at each stage is the transcript so far; an
established session has one of two transcripts. -/

namespace OmniBridge.Desktop

variable {Fp ε : Type} [LinearOrder Fp]

namespace Handshake

variable (x : Host Fp ε) (c : Incoming Fp) (s : Handshake Fp ε)

structure Transcript.Exchanged (s : Transcript Fp ε) (read : List (Option PeerMessage))
    (calls : List (Call Fp ε)) (written : List Reply) : Prop where
  received : s.received.map Wire.Envelope.body = read
  calls : s.calls = calls
  written : s.written.map Wire.Envelope.body = written

structure Allowed (store : Store Fp) (hello : Hello) (negotiated : List String) : Prop where
  nodup : negotiated.Nodup
  registered : ∀ id ∈ negotiated, id ∈ x.config.registry
  advertised : ∀ id ∈ negotiated, id ∈ hello.capabilities
  granted : ∀ id ∈ negotiated, ∃ p, store.trustedPeer c.peerFingerprint = some p ∧
    p.grantedCapabilities.get id = some true

structure Attempt (Fp : Type) [LinearOrder Fp] where
  nonce : Nonce
  proof : Bytes
  lookedUp : Store Fp
  desk : Desk
  later : Nat

namespace Attempt

variable (g : Greeting) (a : Attempt Fp)

def read : List (Option PeerMessage) := [some (.hello g.hello), some (.pairRequest a.proof)]

def offer : Reply := x.ack .pairingRequired g.version x.advertised a.nonce.bytes

def calls : List (Call Fp ε) :=
  [.lookupPeer a.lookedUp, .verifyPairingProof a.desk c.profile c.peerFingerprint a.nonce.bytes
    a.proof a.later]

/-- The proof is the one for the token of the open window, the peer's key, the nonce
it was offered and the profile of its connection. -/
def Proved : Prop :=
  ∃ w p, a.desk.pairing = some (w, p) ∧ p.isExhausted a.desk.now = false ∧
    a.proof = computeProof x.responder c.profile p.token x.responder.fingerprint c.peerFingerprint
    a.nonce.bytes

end Attempt

structure Storing (Fp ε : Type) [LinearOrder Fp] where
  store : Store Fp
  pairedAtUnix : Int
  write : Except ε Unit

namespace Storing

variable (g : Greeting) (k : Storing Fp ε)

def result : Except ε Unit × Store Fp :=
  k.store.storePeer x.config g.device.toDevice c.peerFingerprint
    (x.config.negotiate g.hello.capabilities) g.version
    k.pairedAtUnix k.write

def call : Call Fp ε :=
  .storePeer k.store g.device.toDevice c.peerFingerprint
    (x.config.negotiate g.hello.capabilities) g.version
    k.pairedAtUnix k.write

end Storing

inductive Transcript.Admitted (s : Transcript Fp ε) (negotiated : List String) : Prop
  | recognised (g : Greeting) (store : Store Fp) (p : TrustedPeer Fp) :
      s.Exchanged [some (.hello g.hello)] [.lookupPeer store]
      [x.ack .trusted g.version x.advertised []] → store.trustedPeer c.peerFingerprint = some p →
      Allowed x c store g.hello negotiated → Admitted s negotiated
  | paired (g : Greeting) (a : Attempt Fp) (confirmation : Bytes) (k : Storing Fp ε)
      (store : Store Fp) :
      s.Exchanged (a.read g) (a.calls c ++ [.confirmPairing true, k.call x c g, .lookupPeer store])
        [a.offer x g, .pairResponse .accepted confirmation] →
      a.Proved x c → (k.result x c g).1 = .ok () → Allowed x c store g.hello negotiated →
      Admitted s negotiated

def SoundNext (g : Greeting) (reply : Reply) : Next Fp ε → Prop
  | .fails _ | .ends _ => True
  | .returns established => established.peer = c.peerFingerprint ∧ established.profile = c.profile ∧
      ∃ store p, s.transcript.Exchanged [some (.hello g.hello)] [.lookupPeer store] [] ∧
        reply = x.ack .trusted g.version x.advertised [] ∧
        store.trustedPeer c.peerFingerprint = some p ∧
        Allowed x c store g.hello established.negotiatedCapabilities
  | .pairs nonce => reply = x.ack .pairingRequired g.version x.advertised nonce.bytes ∧
      ∃ store, s.transcript.Exchanged [some (.hello g.hello)] [.lookupPeer store] []
  | .rereads => ∃ (a : Attempt Fp) (k : Storing Fp ε) (confirmation : Bytes),
      reply = .pairResponse .accepted confirmation ∧
      s.transcript.Exchanged (a.read g) (a.calls c ++ [.confirmPairing true, k.call x c g])
      [a.offer x g] ∧ a.Proved x c ∧ (k.result x c g).1 = .ok ()

def Sound : Prop :=
  match s.stage with
  | .awaitHello => s.transcript.Exchanged [] [] []
  | .unsupported _ | .returned (.error _) => True
  | .lookingUp g => s.transcript.Exchanged [some (.hello g.hello)] [] []
  | .operator g _ | .window g _ _ =>
    ∃ store, s.transcript.Exchanged [some (.hello g.hello)] [.lookupPeer store] []
  | .writing g _ reply next => s.SoundNext x c g reply next
  | .awaitPairRequest g nonce =>
    ∃ store, s.transcript.Exchanged [some (.hello g.hello)] [.lookupPeer store]
      [x.ack .pairingRequired g.version x.advertised nonce.bytes]
  | .verifying g nonce _ proof => ∃ store,
      s.transcript.Exchanged [some (.hello g.hello), some (.pairRequest proof)] [.lookupPeer store]
        [x.ack .pairingRequired g.version x.advertised nonce.bytes]
  | .asking g _ _ | .confirming g _ _ => ∃ a : Attempt Fp,
      s.transcript.Exchanged (a.read g) (a.calls c) [a.offer x g] ∧ a.Proved x c
  | .storing g _ _ => ∃ a : Attempt Fp,
      s.transcript.Exchanged (a.read g) (a.calls c ++ [.confirmPairing true]) [a.offer x g] ∧
      a.Proved x c
  | .rereading g => ∃ (a : Attempt Fp) (k : Storing Fp ε) (confirmation : Bytes),
      s.transcript.Exchanged (a.read g) (a.calls c ++ [.confirmPairing true, k.call x c g])
        [a.offer x g, .pairResponse .accepted confirmation] ∧
      a.Proved x c ∧ (k.result x c g).1 = .ok ()
  | .returned (.ok established) =>
    established.peer = c.peerFingerprint ∧ established.profile = c.profile ∧
      s.transcript.Admitted x c established.negotiatedCapabilities

variable {x c s} {t : Handshake Fp ε} {read : List (Option PeerMessage)} {calls : List (Call Fp ε)}
  {written : List Reply} {g : Greeting}

namespace Transcript.Exchanged

section

variable (h : s.transcript.Exchanged read calls written)
include h

theorem record (call : Call Fp ε) :
    (s.record call).transcript.Exchanged read (calls ++ [call]) written := by
  refine ⟨h.received, ?_, h.written⟩
  rw [Handshake.record, h.calls]

theorem send (correlate : Bytes) (reply : Reply) (drawn : Option Wire.MessageId) (now : Nat) :
    (s.send correlate reply drawn now).transcript.Exchanged read calls (written ++ [reply]) := by
  refine ⟨h.received, h.calls, ?_⟩
  simp only [Handshake.send, List.map_append, h.written]
  rfl

theorem receive (env) : (s.read env).transcript.Exchanged (read ++ [env.body]) calls written := by
  refine ⟨?_, h.calls, h.written⟩
  simp only [Handshake.read, List.map_append, h.received]
  rfl

end

end Transcript.Exchanged

variable {guard : Wire.ReplayGuard} {env : PeerEnvelope}

theorem readHello_ok {r} (h : x.readHello c env guard = .ok r) :
    env.body = some (.hello r.2.1) := by
  unfold Host.readHello at h
  cases hguard : (admitFrame env guard : Except (Error ε) Wire.ReplayGuard) with
  | error =>
    rw [hguard] at h
    cases h
  | ok =>
    rw [hguard] at h
    split at h
    · split at h
      · cases h
      split at h
      · cases h
      split at h
      · cases h
      · cases h
        assumption
    · cases h

theorem readPairRequest_ok {version} {r}
    (h : (Host.readPairRequest version env guard : Except (Error ε) _) = .ok r) :
    env.body = some (.pairRequest r.2) := by
  unfold Host.readPairRequest at h
  cases hguard : (admitFrame env guard : Except (Error ε) Wire.ReplayGuard) with
  | error =>
    rw [hguard] at h
    cases h
  | ok =>
    rw [hguard] at h
    dsimp only [bind, Except.bind] at h
    split at h
    · cases h
    split at h
    · cases h
      assumption
    · cases h

variable {store : Store Fp} {a : Attempt Fp}

theorem allowed_effective {hello deviceId deviceName granted}
    (h : store.lookupPeer c.peerFingerprint = .trusted deviceId deviceName granted) :
    Allowed x c store hello (Daemon.effective (x.config.negotiate hello.capabilities) granted) := by
  obtain ⟨p, hp, -, -, rfl⟩ := Store.lookupPeer_trusted h
  have hboth : ∀ id ∈ Daemon.effective (x.config.negotiate hello.capabilities) p.granted,
      id ∈ hello.capabilities ∧ id ∈ x.config.registry := by
    intro _ hid
    exact Config.mem_negotiate.mp (List.mem_filter.mp hid).1
  refine ⟨(Config.negotiate_nodup _ _).filter _, fun id hid => (hboth id hid).2, fun id hid =>
    (hboth id hid).1, ?_⟩
  intro _ hid
  refine ⟨p, hp, TrustedPeer.mem_granted.mp ?_⟩
  exact of_decide_eq_true (List.mem_filter.mp hid).2

theorem receiveHello_sound (hs : s.transcript.Exchanged [] [] [])
    (arrived : Option (Except (Error ε) PeerEnvelope)) :
    (s.receiveHello x c arrived).Sound x c := by
  match arrived with
  | none | some (.error e) => trivial
  | some (.ok env) =>
    have hread := hs.receive env
    unfold receiveHello
    dsimp only
    split
    · trivial
    rename_i guard hello device hhello
    have hbody := readHello_ok hhello
    split
    · trivial
    · rw [hbody] at hread
      exact ⟨hread.received, hread.calls, hread.written⟩

theorem lookup_sound (hs : s.transcript.Exchanged [some (.hello g.hello)] [] []) :
    (s.lookup x c g).Sound x c := by
  have hask := hs.record (.lookupPeer s.store)
  unfold lookup
  split
  · rename_i deviceId deviceName granted hstat
    obtain ⟨p, hp, -⟩ := Store.lookupPeer_trusted hstat
    exact ⟨rfl, rfl, s.store, p, hask, rfl, hp, allowed_effective hstat⟩
  all_goals exact ⟨s.store, hask⟩

theorem window_sound (hs : s.transcript.Exchanged [some (.hello g.hello)] [.lookupPeer store] [])
    (revoked hasOperator : Bool) (nonce : Option Nonce) :
    (s.window x g revoked hasOperator nonce).Sound x c := by
  unfold window
  dsimp only
  split
  · exact ⟨store, hs⟩
  · trivial
  · cases nonce with
    | none => trivial
    | some => exact ⟨rfl, store, hs⟩
  · trivial

variable {nonce : Nonce}

theorem receivePairRequest_sound
    (hs : s.transcript.Exchanged [some (.hello g.hello)] [.lookupPeer store]
      [x.ack .pairingRequired g.version x.advertised nonce.bytes])
    (arrived : Option (Except (Error ε) PeerEnvelope)) :
    (s.receivePairRequest g nonce arrived).Sound x c := by
  match arrived with
  | none | some (.error e) => trivial
  | some (.ok env) =>
    have hread := hs.receive env
    unfold receivePairRequest
    dsimp only
    split
    · trivial
    rename_i guard proof hreq
    have hbody := readPairRequest_ok hreq
    rw [hbody] at hread
    exact ⟨store, hread.received, hread.calls, hread.written⟩

theorem verify_sound {proof}
    (hs : s.transcript.Exchanged [some (.hello g.hello), some (.pairRequest proof)]
      [.lookupPeer store] [x.ack .pairingRequired g.version x.advertised nonce.bytes]) (messageId)
    (later : Nat) : (s.verify x c g nonce messageId proof later).Sound x c := by
  have hask :=
    hs.record (.verifyPairingProof s.desk c.profile c.peerFingerprint nonce.bytes proof later)
  have hver := Desk.verifies x.responder c.profile c.peerFingerprint nonce.bytes proof later s.desk
  unfold verify
  generalize s.desk.verifyPairingProof x.responder c.profile c.peerFingerprint nonce.bytes proof
    later = outcome at hver
  cases hver with
  | closed | rejected | refused => trivial
  | accepted w p hslot hopen hproof =>
    refine ⟨⟨nonce, proof, store, s.desk, later⟩, ?_, w, p, hslot, hopen, hproof⟩
    exact ⟨hask.received, hask.calls, hask.written⟩

theorem answer_sound (hs : s.transcript.Exchanged (a.read g) (a.calls c) [a.offer x g])
    (hprov : a.Proved x c) (messageId confirmation : Bytes) (reply : Option Bool) :
    (s.answer g messageId confirmation reply).Sound x c := by
  unfold answer
  split
  · rename_i hreply
    have hask := hs.record (.confirmPairing (reply.getD false))
    rw [hreply] at hask ⊢
    exact ⟨a, hask, hprov⟩
  · trivial

theorem storePeer_sound
    (hs : s.transcript.Exchanged (a.read g) (a.calls c ++ [.confirmPairing true]) [a.offer x g])
    (hprov : a.Proved x c) (messageId confirmation : Bytes) (pairedAtUnix : Int)
    (write : Except ε Unit) :
    (s.storePeer x c g messageId confirmation pairedAtUnix write).Sound x c := by
  let k : Storing Fp ε := ⟨s.store, pairedAtUnix, write⟩
  have hask := hs.record (k.call x c g)
  unfold storePeer
  dsimp only
  split
  · rename_i store hstore
    have hok : (k.result x c g).1 = .ok () := congrArg Prod.fst hstore
    exact ⟨a, k, confirmation, rfl, ⟨hask.received, hask.calls, hask.written⟩, hprov, hok⟩
  · trivial

theorem reread_sound {k : Storing Fp ε} {confirmation}
    (hs : s.transcript.Exchanged (a.read g) (a.calls c ++ [.confirmPairing true, k.call x c g])
      [a.offer x g, .pairResponse .accepted confirmation]) (hprov : a.Proved x c)
    (hstor : (k.result x c g).1 = .ok ()) : (s.reread x c g).Sound x c := by
  have hask := hs.record (.lookupPeer s.store)
  refine ⟨rfl, rfl, .paired g a confirmation k s.store (hask) hprov hstor ?_⟩
  have hnone : Daemon.effective (x.config.negotiate g.hello.capabilities) [] = [] :=
    by simp [Daemon.effective]
  split
  · exact allowed_effective ‹_›
  all_goals
    rw [hnone]
    exact ⟨List.nodup_nil, by simp, by simp, by simp⟩

theorem proceed_sound {reply next} (hs : s.SoundNext x c g reply next) (correlate : Bytes)
    (drawn : Option Wire.MessageId) (now : Nat) (outcome : Except (Error ε) Unit) :
    ((s.send correlate reply drawn now).proceed g outcome next).Sound x c := by
  cases next with
  | fails | ends => cases outcome <;> trivial
  | returns =>
    obtain ⟨hpeer, hprof, store, p, hex, rfl, hp, hall⟩ := hs
    cases outcome with
    | error => trivial
    | ok =>
      exact ⟨hpeer, hprof, .recognised g store p (hex.send correlate _ drawn now) hp hall⟩
  | pairs =>
    obtain ⟨rfl, store, hex⟩ := hs
    cases outcome with
    | error => trivial
    | ok => exact ⟨store, (hex.send correlate _ drawn now)⟩
  | rereads =>
    obtain ⟨a, k, confirmation, rfl, hex, hprov, hstor⟩ := hs
    cases outcome with
    | error => trivial
    | ok => exact ⟨a, k, confirmation, (hex.send correlate _ drawn now), hprov, hstor⟩

theorem Sound.standing {stage} (hs : s.Sound x c) (hst : s.stage = stage) :
    (s.enter stage).Sound x c := by
  subst hst
  exact hs

theorem step_sound {a : Action Fp ε} (h : s.step x c a = some t) (hs : s.Sound x c) :
    t.Sound x c := by
  cases step_cases h with
  | world => exact hs
  | hello arrived hst => exact receiveHello_sound (hs.standing hst) arrived
  | request g _ arrived hst =>
    obtain ⟨_, hex⟩ := hs.standing hst
    exact receivePairRequest_sound hex arrived
  | lookup g hst => exact lookup_sound (hs.standing hst)
  | reread g hst =>
    obtain ⟨a, k, _, hex, hprov, hstor⟩ := hs.standing hst
    exact reread_sound hex hprov hstor
  | operator g _ hst =>
    obtain ⟨store, hex⟩ := hs.standing hst
    exact ⟨store, hex⟩
  | window g revoked hasOperator nonce hst =>
    obtain ⟨_, hex⟩ := hs.standing hst
    exact window_sound hex revoked hasOperator nonce
  | refuse => trivial
  | write g correlate _ _ drawn now outcome hst =>
    exact proceed_sound (hs.standing hst) correlate drawn now outcome
  | verify g _ messageId _ later hst =>
    obtain ⟨_, hex⟩ := hs.standing hst
    exact verify_sound hex messageId later
  | ask g _ _ hst =>
    obtain ⟨a, hex, hprov⟩ := hs.standing hst
    exact ⟨a, hex, hprov⟩
  | answer a g messageId confirmation reply hst =>
    have hprov : ∃ a : Attempt Fp,
        s.transcript.Exchanged (a.read g) (a.calls c) [a.offer x g] ∧ a.Proved x c := by
      rcases hst with hst | hst
      all_goals exact hs.standing hst
    obtain ⟨_, hex, hprov⟩ := hprov
    exact answer_sound hex hprov messageId confirmation reply
  | storePeer g messageId confirmation pairedAtUnix write hst =>
    obtain ⟨a, hex, hprov⟩ := hs.standing hst
    exact storePeer_sound hex hprov messageId confirmation pairedAtUnix write

theorem run_sound {desk as} (hrun : run (step x c) { store := store, desk := desk } as = some t) :
    t.Sound x c := by
  have hstart : Sound x c ({ store := store, desk := desk } : Handshake Fp ε) := ⟨rfl, rfl, rfl⟩
  exact run_preserves (step x c) (fun _ _ _ => step_sound) hrun hstart

/-- Whatever the peer sends and whatever becomes of the store and the window meanwhile,
a session is established only for a peer the store trusted when it was looked up, or
for one that proved the token of the open window, was confirmed and was stored. -/
theorem established_only_if_admitted {store : Store Fp} {desk : Desk} {as : List (Action Fp ε)}
    {established : Established Fp}
    (hrun : run (step x c) { store := store, desk := desk } as = some t)
    (hdone : t.stage = .returned (.ok established)) :
    established.peer = c.peerFingerprint ∧ established.profile = c.profile ∧
      t.transcript.Admitted x c established.negotiatedCapabilities :=
  (run_sound hrun).standing hdone

def sampleHost : Host Nat Unit where
  config := Daemon.sampleConfig
  responder := { Desk.sampleResponder with
    fromHex := fun s => if s = "07" then some 7 else some 1, fromHex_toHex := rfl }
  device := ⟨"desk", "Desk", 2⟩

def phone : Incoming Nat := ⟨7, .pliwee⟩

def phoneHello : PeerEnvelope :=
  ⟨1, List.replicate 16 1, 1, 0, [],
    some (.hello ⟨some ⟨⟨"phone", "Phone", 1⟩, "07"⟩, 1, 1, ["battery.v1", "notifications.v1"]⟩)⟩

def phoneNonce : Nonce := ⟨List.replicate 32 5, rfl⟩

def phoneProof : PeerEnvelope :=
  ⟨1, List.replicate 16 2, 2, 0, [],
    some (.pairRequest (computeProof sampleHost.responder .pliwee Desk.sampleToken 1 7
    phoneNonce.bytes))⟩

def openDesk : Desk :=
  { pairing := some (0, ⟨Desk.sampleToken, 0, 120, 0, false⟩), confirmTx := some 0, windows := 1 }

def pairsAtOnce : List (Action Nat Unit) :=
  [.receive (some (.ok phoneHello)), .lookup, .operator, .window (some phoneNonce),
    .write none 0 (.ok ()), .receive (some (.ok phoneProof)), .verify 0, .ask, .answer (some true),
    .storePeer 0 (.ok ()), .write none 0 (.ok ()), .lookup]

def phoneSession : Established Nat := ⟨7, .pliwee, ⟨⟨"phone", "Phone", 1⟩, "07"⟩, ["battery.v1"], 1⟩

theorem established_only_if_admitted_pairing :
    ∃ t, run (step sampleHost phone) { store := ⟨.empty, []⟩, desk := openDesk } pairsAtOnce =
      some t ∧ t.stage = .returned (.ok phoneSession) ∧ phoneSession.peer = phone.peerFingerprint ∧
      t.transcript.Admitted sampleHost phone phoneSession.negotiatedCapabilities :=
  ⟨_, rfl, rfl, rfl,
    (@established_only_if_admitted _ _ _ sampleHost phone _ ⟨.empty, []⟩ openDesk pairsAtOnce
    phoneSession rfl rfl).2.2⟩

end Handshake

end OmniBridge.Desktop
