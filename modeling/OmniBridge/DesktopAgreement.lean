import OmniBridge.DesktopFiles
import OmniBridge.DesktopInitiator
import OmniBridge.DesktopWireOrder

/-! Two devices pair over a network that anyone may read and write: the desktop with all
the connections it accepts, and the devices that dial it. What the desktop confirms to
one of them it has verified, asked its operator about and stored before. -/

namespace OmniBridge.Desktop

open List Option MacInput

variable {Fp ε : Type} [LinearOrder Fp]

namespace Handshake

section Confirmed

variable (x : Host Fp ε) (c : Incoming Fp)

def Vouches (a : Attempt Fp) (token : PairingToken) (confirmation : Bytes) : Prop :=
  ∃ w p, a.desk.pairing = some (w, p) ∧ p.isExhausted a.desk.now = false ∧ p.token = token ∧
    a.proof = computeProof x.responder c.profile token x.responder.fingerprint c.peerFingerprint
    a.nonce.bytes ∧ confirmation = computeConfirmation x.responder c.profile token
    x.responder.fingerprint c.peerFingerprint a.nonce.bytes

def Answers (calls : List (Call Fp ε)) (a : Attempt Fp) (token : PairingToken)
    (confirmation : Bytes) : Prop :=
  Vouches x c a token confirmation ∧ ∃ (g : Greeting) (k : Storing Fp ε),
    a.calls c ++ [.confirmPairing true, k.call x c g] <+: calls ∧ (k.result x c g).1 = .ok ()

def Holds (calls : List (Call Fp ε)) : Stage Fp ε → Prop
  | .asking _ _ confirmation | .confirming _ _ confirmation =>
    ∃ a token, calls = a.calls c ∧ Vouches x c a token confirmation
  | .storing _ _ confirmation =>
    ∃ a token, calls = a.calls c ++ [.confirmPairing true] ∧ Vouches x c a token confirmation
  | .writing _ _ (.pairResponse .accepted confirmation) _ =>
    ∃ a token, Answers x c calls a token confirmation
  | _ => True

structure Confirmed (s : Handshake Fp ε) : Prop where
  sent : ∀ env ∈ s.transcript.written, ∀ confirmation,
    env.body = .pairResponse .accepted confirmation → ∃ a token,
    Answers x c s.transcript.calls a token confirmation
  held : Holds x c s.transcript.calls s.stage

end Confirmed

variable {x : Host Fp ε} {c : Incoming Fp} {s t : Handshake Fp ε} {g : Greeting} {a : Action Fp ε}
  {as : List (Action Fp ε)}

theorem Answers.mono {calls calls' a token} {confirmation}
    (h : Answers x c calls a token confirmation) (hcalls : calls <+: calls') :
    Answers x c calls' a token confirmation := by
  obtain ⟨hvouch, g, k, hpre, hstored⟩ := h
  exact ⟨hvouch, g, k, hpre.trans hcalls, hstored⟩

section

variable (h : s.Confirmed x c)
include h

theorem Confirmed.goesOn (hwrit : t.transcript.written = s.transcript.written)
    (hcalls : s.transcript.calls <+: t.transcript.calls)
    (hheld : Holds x c t.transcript.calls t.stage) : t.Confirmed x c := by
  refine ⟨?_, hheld⟩
  intro env henv confirmation hbody
  obtain ⟨a, token, hansw⟩ := h.sent env (hwrit ▸ henv) confirmation hbody
  exact ⟨a, token, hansw.mono hcalls⟩

theorem Confirmed.standing {stage} (hst : s.stage = stage) : Holds x c s.transcript.calls stage :=
  hst ▸ h.held

theorem receiveHello_confirmed (arrived : Option (Except (Error ε) PeerEnvelope)) :
    (s.receiveHello x c arrived).Confirmed x c := by
  match arrived with
  | none | some (.error e) => exact h.goesOn rfl (prefix_refl _) trivial
  | some (.ok env) =>
    unfold receiveHello
    dsimp only
    split
    · exact h.goesOn rfl (prefix_refl _) trivial
    · split <;> exact h.goesOn rfl (prefix_refl _) trivial

theorem receivePairRequest_confirmed (nonce : Nonce)
    (arrived : Option (Except (Error ε) PeerEnvelope)) :
    (s.receivePairRequest g nonce arrived).Confirmed x c := by
  match arrived with
  | none | some (.error e) => exact h.goesOn rfl (prefix_refl _) trivial
  | some (.ok env) =>
    unfold receivePairRequest
    dsimp only
    split <;> exact h.goesOn rfl (prefix_refl _) trivial

theorem window_confirmed (revoked hasOperator : Bool) (nonce : Option Nonce) :
    (s.window x g revoked hasOperator nonce).Confirmed x c := by
  unfold window
  dsimp only
  split
  · exact h.goesOn rfl (prefix_refl _) trivial
  · exact h.goesOn rfl (prefix_refl _) trivial
  · cases nonce with
    | _ => exact h.goesOn rfl (prefix_refl _) trivial
  · exact h.goesOn rfl (prefix_refl _) trivial

theorem Confirmed.refuse (messageId) {status} (hstat : status ≠ .accepted) (e : PairingError) :
    (s.refuse g messageId status e).Confirmed x c := by
  refine h.goesOn rfl (prefix_refl _) ?_
  cases status with
  | accepted => exact absurd rfl hstat
  | _ => trivial

theorem verify_confirmed {store nonce proof} (hcalls : s.transcript.calls = [.lookupPeer store])
    (messageId) (later : Nat) : (s.verify x c g nonce messageId proof later).Confirmed x c := by
  have hver := Desk.verifies x.responder c.profile c.peerFingerprint nonce.bytes proof later s.desk
  have hrecord : s.transcript.calls <+: (s.record
      (.verifyPairingProof s.desk c.profile c.peerFingerprint nonce.bytes proof
        later)).transcript.calls :=
    prefix_append _ _
  unfold verify
  generalize s.desk.verifyPairingProof x.responder c.profile c.peerFingerprint nonce.bytes proof
    later = outcome at hver
  have href : ∀ e desk, (({ s.record (.verifyPairingProof s.desk c.profile c.peerFingerprint
      nonce.bytes proof later) with desk := desk }).refuse g messageId
      (refusalStatus e) e).Confirmed x c := by
    intro e desk
    have hrec : Confirmed x c { s.record
        (.verifyPairingProof s.desk c.profile c.peerFingerprint nonce.bytes proof
          later) with desk := desk, stage := .awaitHello } :=
      h.goesOn rfl hrecord trivial
    exact hrec.refuse messageId (by cases e <;> decide) e
  cases hver with
  | closed | rejected | refused => exact href _ _
  | accepted w p hslot hopen hproof =>
    refine h.goesOn rfl hrecord ⟨⟨nonce, proof, store, s.desk, later⟩, p.token, ?_, w, p, hslot,
      hopen, rfl, hproof, rfl⟩
    show s.transcript.calls ++ [_] = _
    rw [hcalls]
    rfl

variable {messageId confirmation : Bytes}

theorem answer_confirmed
    (hheld : ∃ a token, s.transcript.calls = a.calls c ∧ Vouches x c a token confirmation)
    (reply : Option Bool) : (s.answer g messageId confirmation reply).Confirmed x c := by
  obtain ⟨a, token, hcalls, hvouch⟩ := hheld
  unfold answer
  split
  · rename_i hreply
    refine h.goesOn rfl (prefix_append _ _) ⟨a, token, ?_, hvouch⟩
    show s.transcript.calls ++ [_] = _
    rw [hcalls, hreply]
  · have hrec : Confirmed x c { s.record (.confirmPairing (reply.getD false)) with
        stage := .awaitHello } :=
      h.goesOn rfl (prefix_append _ _) trivial
    exact hrec.refuse messageId (by decide) .declinedByUser

theorem storePeer_confirmed
    (hheld : ∃ a token, s.transcript.calls = a.calls c ++ [.confirmPairing true] ∧
      Vouches x c a token confirmation) (pairedAtUnix : Int) (write : Except ε Unit) :
    (s.storePeer x c g messageId confirmation pairedAtUnix write).Confirmed x c := by
  obtain ⟨a, token, hcalls, hvouch⟩ := hheld
  let k : Storing Fp ε := ⟨s.store, pairedAtUnix, write⟩
  unfold storePeer
  dsimp only
  split
  · rename_i store hstore
    have hok : (k.result x c g).1 = .ok () := congrArg Prod.fst hstore
    refine h.goesOn rfl (prefix_append _ _) ⟨a, token, hvouch, g, k, ?_, hok⟩
    show _ <+: s.transcript.calls ++ [k.call x c g]
    rw [hcalls, append_assoc]
    exact prefix_refl _
  · exact h.goesOn rfl (prefix_append _ _) trivial

end

theorem proceed_calls (outcome : Except (Error ε) Unit) (next : Next Fp ε) :
    (s.proceed g outcome next).transcript.calls = s.transcript.calls := by
  unfold proceed
  split <;> rfl

theorem write_confirmed (h : s.Confirmed x c) {correlate reply next}
    (hst : s.stage = .writing g correlate reply next) (drawn : Option Wire.MessageId) (now : Nat)
    (outcome : Except (Error ε) Unit) :
    ((s.send correlate reply drawn now).proceed g outcome next).Confirmed x c := by
  have hheld := h.standing hst
  have hcalls := @proceed_calls _ _ _ (s.send correlate reply drawn now) g outcome next
  have hwrit := (@proceed_sameWire _ _ _ (s.send correlate reply drawn now) g outcome next).2
  refine ⟨?_, by cases next <;> cases outcome <;> trivial⟩
  rw [hcalls, hwrit]
  refine forall_mem_concat h.sent ?_
  intro confirmation hbody
  obtain rfl : reply = .pairResponse .accepted confirmation := hbody
  exact hheld

theorem step_confirmed (hstep : s.step x c a = some t) (hsound : s.Sound x c)
    (h : s.Confirmed x c) : t.Confirmed x c := by
  cases step_cases hstep with
  | world => exact ⟨h.sent, h.held⟩
  | hello arrived => exact receiveHello_confirmed h arrived
  | request g nonce arrived => exact receivePairRequest_confirmed h nonce arrived
  | lookup =>
    unfold lookup
    split <;> exact h.goesOn rfl (prefix_append _ _) trivial
  | reread => exact h.goesOn rfl (prefix_append _ _) trivial
  | operator => exact h.goesOn rfl (prefix_refl _) trivial
  | window g revoked hasOperator nonce => exact window_confirmed h revoked hasOperator nonce
  | refuse => exact ⟨forall_mem_concat h.sent nofun, trivial⟩
  | write g _ _ _ drawn now outcome hst => exact write_confirmed h hst drawn now outcome
  | verify g _ messageId _ later hst =>
    obtain ⟨_, hex⟩ := hsound.standing hst
    exact verify_confirmed h hex.calls messageId later
  | ask g _ _ hst =>
    have hheld := h.standing hst
    exact h.goesOn rfl (prefix_refl _) hheld
  | answer a g _ confirmation reply hst =>
    have hheld : ∃ a token, s.transcript.calls = a.calls c ∧ Vouches x c a token confirmation := by
      rcases hst with hst | hst
      all_goals exact h.standing hst
    exact answer_confirmed h hheld reply
  | storePeer g _ _ pairedAtUnix write hst =>
    exact storePeer_confirmed h (h.standing hst) pairedAtUnix write

theorem step_written (hstep : s.step x c a = some t) :
    s.transcript.written <+: t.transcript.written := by
  cases step_wires hstep with
  | same _ hsame => exact hsame.2 ▸ prefix_refl _
  | opened _ _ hwrit => exact hwrit ▸ prefix_refl _
  | sent _ _ _ hwrit => exact hwrit ▸ prefix_append _ _

end Handshake

namespace Network

def callMacs (x : Host Fp ε) : Handshake.Call Fp ε → List (MacInput Fp)
  | .verifyPairingProof desk profile initiator nonce proof _ =>
    match desk.pairing with
    | none => []
    | some (_, p) =>
      if p.isExhausted desk.now then []
      else
        let input (confirms : Bool) : MacInput Fp :=
          ⟨confirms, profile, p.token, x.responder.fingerprint, initiator, nonce⟩
        if verifyProof ((input false).value x.responder) proof then [input false, input true]
          else [input false]
  | _ => []

inductive Action (Fp ε : Type) [LinearOrder Fp] where
  | accept (c : Incoming Fp) (store : Store Fp) (desk : Desk)
  | responder (i : Nat) (a : Handshake.Action Fp ε)
  | dial (client : Client Fp ε)
  | initiator (i : Nat) (a : Initiator.Action ε)

end Network

/-- The connections of the desktop and the devices that dial. -/
structure Network (Fp ε : Type) [LinearOrder Fp] where
  responders : List (Incoming Fp × Handshake Fp ε) := []
  initiators : List (Client Fp ε × Initiator Fp ε) := []

namespace Network

section Model

variable (x : Host Fp ε) (n : Network Fp ε)

def step : Action Fp ε → Option (Network Fp ε)
  | .accept c store desk =>
    some { n with responders := n.responders ++ [(c, { store := store, desk := desk })] }
  | .responder i a => (n.responders[i]?).bind (fun r => (r.2.step x r.1 a).map (fun h =>
      { n with responders := n.responders.set i (r.1, h) }))
  | .dial client =>
    some { n with initiators := n.initiators ++ [(client, Initiator.start x.responder client)] }
  | .initiator i a => (n.initiators[i]?).bind (fun r => (r.2.step x.responder r.1 a).map (fun s =>
      { n with initiators := n.initiators.set i (r.1, s) }))

def confirmation (env : Wire.Envelope Reply) : Option Bytes :=
  match env.body with
  | .pairResponse .accepted confirmation => some confirmation
  | _ => none

def proof (env : Wire.Envelope PeerMessage) : Option Bytes :=
  match env.body with
  | .pairRequest proof => some proof
  | _ => none

def revealed : List Bytes :=
  n.responders.flatMap (fun r => r.2.transcript.written.filterMap confirmation) ++
    n.initiators.flatMap (fun r => r.2.written.filterMap proof)

def macs : List (MacInput Fp) :=
  n.responders.flatMap (fun r => r.2.transcript.calls.flatMap (callMacs x)) ++ n.initiators.flatMap
    (·.2.macs)

/-- The confirmation a device waits for is delivered to it only after it was sent. -/
def Unforged : Action Fp ε → Prop
  | .initiator i (.receive (some (.ok env))) => ∀ r offer status received,
      n.initiators[i]? = some r → r.2.stage = .awaitResponse offer →
      env.body = some (.pairResponse status received) →
      received = (Initiator.confirmationInput r.1 offer).value x.responder → received ∈ n.revealed
  | _ => True

/-- No two MACs that were computed are equal, unless they are of the same message under
the same token. -/
def CollisionFree : Prop :=
  ∀ u ∈ n.macs x, ∀ v ∈ n.macs x, u.value x.responder = v.value x.responder →
    u.token = v.token ∧ u.message x.responder = v.message x.responder

end Model

variable {x : Host Fp ε} {n m : Network Fp ε} {a : Action Fp ε} {as : List (Action Fp ε)}

/-- Every connection is sound, every device keeps its offers, and a device that has come
to store its peer was confirmed by a MAC that was sent. -/
structure Traced (x : Host Fp ε) (n : Network Fp ε) : Prop where
  responders : ∀ r ∈ n.responders, r.2.Sound x r.1 ∧ r.2.Confirmed x r.1
  initiators : ∀ r ∈ n.initiators, r.2.Kept x.responder r.1
  storing : ∀ r ∈ n.initiators, ∀ offer, r.2.stage = .storing offer →
    (Initiator.confirmationInput r.1 offer).value x.responder ∈ n.revealed

omit [LinearOrder Fp] in
theorem flatMap_set_subset {α β : Type} {l : List α} {i u v} {f : α → List β} (hi : l[i]? = some u)
    (h : f u ⊆ f v) : l.flatMap f ⊆ (l.set i v).flatMap f := by
  intro b hb
  obtain ⟨w, hw, hb⟩ := mem_flatMap.mp hb
  obtain ⟨j, hj⟩ := mem_iff_getElem?.mp hw
  by_cases hij : i = j
  · subst hij
    obtain rfl := mem_unique hi hj
    refine mem_flatMap.mpr ⟨v, ?_, h hb⟩
    exact List.mem_set (List.getElem?_eq_some_iff.mp hi).1 v
  · refine mem_flatMap.mpr ⟨w, ?_, hb⟩
    exact mem_iff_getElem?.mpr ⟨j, by rw [getElem?_set_ne hij, hj]⟩

theorem step_revealed (hstep : n.step x a = some m) : n.revealed ⊆ m.revealed := by
  intro b hb
  rw [revealed, mem_append] at hb
  rw [revealed, mem_append]
  cases a with
  | accept =>
    cases hstep
    refine hb.imp_left ?_
    intro hb
    rw [flatMap_append]
    exact mem_append_left _ hb
  | responder =>
    obtain ⟨r, hr, hstep⟩ := bind_eq_some_iff.mp hstep
    obtain ⟨h, hh, rfl⟩ := map_eq_some_iff.mp hstep
    refine hb.imp_left ?_
    exact fun hb => flatMap_set_subset hr ((Handshake.step_written hh).sublist.filterMap
      confirmation).subset hb
  | dial =>
    cases hstep
    refine hb.imp_right ?_
    intro hb
    rw [flatMap_append]
    exact mem_append_left _ hb
  | initiator =>
    obtain ⟨r, hr, hstep⟩ := bind_eq_some_iff.mp hstep
    obtain ⟨s, hs, rfl⟩ := map_eq_some_iff.mp hstep
    refine hb.imp_right ?_
    exact fun hb => flatMap_set_subset hr ((Initiator.step_frame hs).1.sublist.filterMap
      proof).subset hb

theorem step_traced (hok : n.Unforged x a) (hstep : n.step x a = some m) (h : n.Traced x) :
    m.Traced x := by
  have hmore := step_revealed hstep
  cases a with
  | accept =>
    cases hstep
    exact ⟨forall_mem_concat h.responders ⟨⟨rfl, rfl, rfl⟩, nofun, trivial⟩, h.initiators,
      fun r hr offer hoff => hmore (h.storing r hr offer hoff)⟩
  | responder =>
    obtain ⟨r, hr, hstep⟩ := bind_eq_some_iff.mp hstep
    obtain ⟨u, hu, rfl⟩ := map_eq_some_iff.mp hstep
    refine ⟨?_, h.initiators, fun r hr offer hoff => hmore (h.storing r hr offer hoff)⟩
    obtain ⟨hsound, hconfir⟩ := h.responders r (mem_of_getElem? hr)
    exact forall_mem_set h.responders ⟨Handshake.step_sound hu hsound,
      Handshake.step_confirmed hu hsound hconfir⟩
  | dial client =>
    cases hstep
    refine ⟨h.responders, ?_, ?_⟩
    · exact forall_mem_concat h.initiators Initiator.start_kept
    · refine forall_mem_concat (fun r hr offer hoff => hmore (h.storing r hr offer hoff)) ?_
      intro offer hoff
      have hstart : (Initiator.start x.responder client).stage = .storing offer := hoff
      unfold Initiator.start at hstart
      split at hstart <;> cases hstart
  | initiator =>
    obtain ⟨r, hr, hstep⟩ := bind_eq_some_iff.mp hstep
    obtain ⟨s, hs, rfl⟩ := map_eq_some_iff.mp hstep
    have hkept := h.initiators r (mem_of_getElem? hr)
    refine ⟨h.responders, ?_, ?_⟩
    · exact forall_mem_set h.initiators (Initiator.step_kept hs hkept)
    · refine forall_mem_set (fun r' hr' offer hoff => hmore (h.storing r' hr' offer hoff)) ?_
      intro offer hoff
      obtain ⟨hst, _, status, rfl, hbody⟩ := (Initiator.step_frame hs).2 offer hoff
      exact hmore (hok r offer status _ hr hst hbody rfl)

theorem run_traced (hrun : run (step x) {} as = some n) (hok : Meets (step x) (Unforged x) {} as) :
    n.Traced x := by
  have hstart : Traced x ({} : Network Fp ε) := by
    refine ⟨?_, ?_, ?_⟩
    all_goals exact fun r hr => absurd hr not_mem_nil
  exact run_invariant (step x) (fun _ _ _ => step_traced) hrun hok hstart

theorem vouches_macs {c h a token confirmation} (hr : (c, h) ∈ n.responders)
    (hansw : Handshake.Answers x c h.transcript.calls a token confirmation) :
    (⟨true, c.profile, token, x.responder.fingerprint, c.peerFingerprint, a.nonce.bytes⟩ :
      MacInput Fp) ∈ n.macs x := by
  obtain ⟨⟨w, p, hslot, hopen, rfl, hproof, -⟩, g, k, hpre, -⟩ := hansw
  have hcall : Handshake.Call.verifyPairingProof a.desk c.profile c.peerFingerprint a.nonce.bytes
      a.proof a.later ∈ h.transcript.calls := hpre.subset (mem_cons_of_mem _ mem_cons_self)
  refine mem_append_left _ (mem_flatMap.mpr ⟨(c, h), hr, mem_flatMap.mpr ⟨_, hcall, ?_⟩⟩)
  have hverif : verifyProof
      ((⟨false, c.profile, p.token, x.responder.fingerprint, c.peerFingerprint, a.nonce.bytes⟩ :
      MacInput Fp).value x.responder) a.proof := verifyProof_eq_true.mpr hproof
  simp only [callMacs, hslot, hopen, Bool.false_eq_true, if_false]
  rw [if_pos hverif]
  exact mem_cons_of_mem _ mem_cons_self

/-- The desktop verified the proof of the offer, its operator confirmed and the peer was
stored, in this order, before the confirmation was sent. -/
def Agrees (x : Host Fp ε) (n : Network Fp ε) (client : Client Fp ε) (token : PairingToken)
    (nonce : Bytes) : Prop :=
  client.server = x.responder.fingerprint ∧ ∃ c h, (c, h) ∈ n.responders ∧
    c.peerFingerprint = client.fingerprint ∧ c.profile = client.profile ∧ ∃ a confirmation,
    a.nonce.bytes = nonce ∧ Handshake.Answers x c h.transcript.calls a token confirmation ∧
    ∃ env ∈ h.transcript.written, env.body = .pairResponse .accepted confirmation

/-- A device that comes to store the desktop agrees with it on everything that was
authenticated. -/
theorem pairing_agrees (hbytes : Function.Injective x.responder.asBytes)
    (hlen : ∀ fp, (x.responder.asBytes fp).length = FINGERPRINT_LEN)
    (hhex : ∀ fp, x.responder.fromHex (x.responder.toHex fp) = some fp)
    (hrun : run (step x) {} as = some n) (hok : Meets (step x) (Unforged x) {} as)
    (hfree : n.CollisionFree x) {client : Client Fp ε} {s : Initiator Fp ε} {offer : Offer Fp}
    (hdial : (client, s) ∈ n.initiators) (hstor : s.stage = .storing offer) :
    client.pairing = some offer.token ∧ n.Agrees x client offer.token offer.nonce := by
  have htraced := run_traced hrun hok
  have hkept := htraced.initiators (client, s) hdial
  obtain ⟨htoken, hlocal, -⟩ := hkept.offer offer (by rw [hstor]; rfl)
  have hident : client.fingerprint = offer.localFp := some.inj ((hhex _).symm.trans hlocal)
  have hmine : Initiator.confirmationInput client offer ∈ n.macs x :=
    mem_append_right _ (mem_flatMap.mpr ⟨(client, s), hdial, hkept.storing offer hstor⟩)
  have hsent := htraced.storing (client, s) hdial offer hstor
  refine ⟨htoken, ?_⟩
  rcases mem_append.mp hsent with hsent | hsent
  · obtain ⟨⟨c, h⟩, hr, hsent⟩ := mem_flatMap.mp hsent
    obtain ⟨env, henv, hconf⟩ := mem_filterMap.mp hsent
    have hbody : env.body = .pairResponse .accepted
        ((Initiator.confirmationInput client offer).value x.responder) := by
      unfold confirmation at hconf
      split at hconf
      · rename_i received hbody
        rw [hbody, some.inj hconf]
      · cases hconf
    obtain ⟨a, token, hansw⟩ := (htraced.responders (c, h) hr).2.sent env henv _ hbody
    have hoth := vouches_macs hr hansw
    obtain ⟨w, p, -, -, -, -, hequal⟩ := hansw.1
    obtain ⟨htok, hmess⟩ := hfree _ hmine _ hoth hequal
    obtain ⟨-, hprof, hserv, hpeer, hnonces⟩ := message_inj hbytes hlen hmess
    obtain rfl : offer.token = token := htok
    exact ⟨hserv, c, h, hr, (hident.trans hpeer).symm, hprof.symm, a, _, hnonces.symm,
      hansw, env, henv, hbody⟩
  · -- a proof is no confirmation: the two are computed in different domains
    obtain ⟨⟨client', s'⟩, hr, hsent⟩ := mem_flatMap.mp hsent
    obtain ⟨env, henv, hproof⟩ := mem_filterMap.mp hsent
    have hbody : env.body = .pairRequest ((Initiator.confirmationInput client offer).value
        x.responder) := by
      unfold proof at hproof
      split at hproof
      · rename_i received hbody
        rw [hbody, some.inj hproof]
      · cases hproof
    have hkept' := htraced.initiators (client', s') hr
    obtain ⟨u, hu, hconfirms, hvalue⟩ := hkept'.proofs env henv _ hbody
    have hoth : u ∈ n.macs x := mem_append_right _ (mem_flatMap.mpr ⟨(client', s'), hr, hu⟩)
    obtain ⟨-, hmess⟩ := hfree u hoth _ hmine hvalue
    have hdom := (message_inj hbytes hlen hmess).1
    rw [hconfirms] at hdom
    cases hdom

section Sample

def Relayed (n : Network Fp ε) : Action Fp ε → Prop
  | .initiator _ (.receive (some (.ok env))) =>
    match env.body with
    | some (.pairResponse _ received) => received ∈ n.revealed
    | _ => True
  | _ => True

instance (n : Network Fp ε) (a : Action Fp ε) : Decidable (n.Relayed a) := by
  unfold Relayed
  split
  · split <;> infer_instance
  · infer_instance

theorem Relayed.unforged (h : n.Relayed a) : n.Unforged x a := by
  unfold Unforged
  split
  · intro r _ _ _ _ _ hbody _
    unfold Relayed at h
    dsimp only at h
    rw [hbody] at h
    exact h
  · trivial

def pairHost : Host (Fin 2) Unit where
  config :=
    { registry := ["battery.v1"]
      autoGrant := ["battery.v1"]
      sanitizeDeviceName := id
      toHex := fun fp => if fp = 0 then "00" else "01"
      fromHex := fun s => if s = "00" then some 0 else some 1
      toDisplayShort := fun _ => ""
      normalize := id
      describe := fun _ => "" }
  responder :=
    { fingerprint := 0
      asBytes := fun fp => replicate 32 (UInt8.ofNat fp)
      toHex := fun fp => if fp = 0 then "00" else "01"
      fromHex := fun s => if s = "00" then some 0 else some 1
      hmacSha256 := fun key message => key ++ message
      fromHex_toHex := rfl }
  device := ⟨"desk", "Desk", 2⟩

def pairClient : Client (Fin 2) Unit :=
  ⟨pairHost.config, ⟨"phone", "Phone", 1⟩, 1, 0, .pliwee, some Desk.sampleToken, ()⟩

def pairNonce : Nonce := ⟨replicate 32 5, length_replicate⟩

def frame {Body : Type} (k : Nat) (body : Body) : Wire.Envelope Body :=
  ⟨1, replicate 16 (UInt8.ofNat k), UInt64.ofNat k, 0, [], body⟩

def pairProof : Bytes :=
  computeProof pairHost.responder .pliwee Desk.sampleToken 0 1 pairNonce.bytes

def pairConfirmation : Bytes :=
  computeConfirmation pairHost.responder .pliwee Desk.sampleToken 0 1 pairNonce.bytes

def pairs : List (Action (Fin 2) Unit) :=
  [.accept ⟨1, .pliwee⟩ ⟨.empty, []⟩ Handshake.openDesk, .dial pairClient,
    .initiator 0 (.write none 0 (.ok ())),
    .responder 0 (.receive (some
    (.ok (frame 1 (some (.hello (Initiator.hello pairHost.responder pairClient))))))),
    .responder 0 .lookup, .responder 0 .operator, .responder 0 (.window (some pairNonce)),
    .responder 0 (.write none 0 (.ok ())),
    .initiator 0 (.receive (some
    (.ok (frame 1 (some (.helloAck ⟨some pairHost.localDeviceInfo, some .pairingRequired, 1,
    ["battery.v1"], pairNonce.bytes⟩)))))), .initiator 0 (.write none 0 (.ok ())),
    .responder 0 (.receive (some (.ok (frame 2 (some (.pairRequest pairProof)))))),
    .responder 0 (.verify 0), .responder 0 .ask, .responder 0 (.answer (some true)),
    .responder 0 (.storePeer 0 (.ok ())), .responder 0 (.write none 0 (.ok ())),
    .initiator 0 (.receive (some
    (.ok (frame 2 (some (.pairResponse (some .accepted) pairConfirmation))))))]

instance (x : Host Fp ε) (n : Network Fp ε) : Decidable (n.CollisionFree x) :=
  inferInstanceAs (Decidable (∀ u ∈ n.macs x, ∀ v ∈ n.macs x, _ → _ ∧ _))

def pairOffer : Offer (Fin 2) :=
  ⟨1, Desk.sampleToken, pairHost.localDeviceInfo, 1, ["battery.v1"], pairNonce.bytes⟩

set_option maxRecDepth 4000 in
theorem run_pairs :
    ∃ n s, run (step pairHost) {} pairs = some n ∧ (pairClient, s) ∈ n.initiators ∧
      s.stage = .storing pairOffer ∧ n.CollisionFree pairHost :=
  ⟨_, _, rfl, mem_cons_self, rfl, by decide +kernel⟩

theorem pairing_agrees_sample :
    ∃ n s, run (step pairHost) {} pairs = some n ∧ (pairClient, s) ∈ n.initiators ∧
      s.stage = .storing pairOffer ∧
      n.Agrees pairHost pairClient pairOffer.token pairOffer.nonce := by
  have hrel : Meets (step pairHost) Relayed {} pairs := by decide +kernel
  have hunf := Meets.imp (step pairHost) (fun _ _ => @Relayed.unforged _ _ _ pairHost _ _) hrel
  obtain ⟨n, s, hrun, hdial, hstor, hfree⟩ := run_pairs
  have hbytes : ∀ a b, pairHost.responder.asBytes a = pairHost.responder.asBytes b → a = b :=
    by decide
  have hagr := pairing_agrees hbytes (by decide) (by decide) hrun hunf hfree hdial hstor
  exact ⟨n, s, hrun, hdial, hstor, hagr.2⟩

end Sample

end Network

namespace Files

structure StreamInput (Fp : Type) where
  profile : Profile
  challenge : StreamChallenge
  acceptor : Fp
  dialer : Fp
  transferId : TransferId

variable (x : Responder Fp)

def computeStreamMac (profile : Profile) (challenge : StreamChallenge) (acceptor dialer : Fp)
    (transferId : TransferId) : Bytes :=
  x.hmacSha256 challenge.bytes
    (dataStreamDomain profile ++ lenPrefixed (x.asBytes acceptor) ++
      lenPrefixed (x.asBytes dialer) ++ lenPrefixed transferId.bytes)

def StreamInput.value (u : StreamInput Fp) : Bytes :=
  computeStreamMac x u.profile u.challenge u.acceptor u.dialer u.transferId

omit [LinearOrder Fp] in
/-- The bytes under a MAC give back all that it was computed from but the key. -/
theorem mac_inputs_unambiguous (hbytes : Function.Injective x.asBytes)
    (hlen : ∀ fp, (x.asBytes fp).length = FINGERPRINT_LEN) :
    (∀ u v : MacInput Fp, u.value x.unkeyed = v.value x.unkeyed → u.confirms = v.confirms ∧
      u.profile = v.profile ∧ u.responder = v.responder ∧ u.initiator = v.initiator ∧
      u.nonce = v.nonce) ∧
    (∀ u v : StreamInput Fp, u.value x.unkeyed = v.value x.unkeyed → u.profile = v.profile ∧
      u.acceptor = v.acceptor ∧ u.dialer = v.dialer ∧ u.transferId = v.transferId) ∧
    ∀ (u : MacInput Fp) (v : StreamInput Fp), u.value x.unkeyed ≠ v.value x.unkeyed := by
  have hsame := fun fp fp' => (hlen fp).trans (hlen fp').symm
  refine ⟨fun u v h => ?_, fun u v h => ?_, fun u v h => ?_⟩
  · rw [value_eq, value_eq] at h
    exact message_inj hbytes hlen h
  · obtain ⟨-, hprof, hfirst, hsec, hid⟩ :=
      @framed_inj .stream .stream _ _ _ _ _ _ _ _ (hsame _ _) (hsame _ _) h
    exact ⟨hprof, hbytes hfirst, hbytes hsec,
      TransferId.key_injective (congrArg (map UInt8.toNat) hid)⟩
  · rw [value_eq, Responder.unkeyed, message, domain_eq] at h
    have hpurp := (@framed_inj _ .stream _ _ _ _ _ _ _ _ (hsame _ _) (hsame _ _) h).1
    unfold purpose at hpurp
    split at hpurp <;> cases hpurp

theorem mac_inputs_unambiguous_two_devices :
    computeProof Network.pairHost.responder.unkeyed .pliwee Desk.sampleToken 0 1 [] ≠
      computeStreamMac Network.pairHost.responder.unkeyed .pliwee ⟨replicate 32 0, rfl⟩ 0 1
      ⟨replicate 16 0, rfl⟩ := by
  have hbytes : ∀ a b, Network.pairHost.responder.asBytes a = Network.pairHost.responder.asBytes b →
      a = b := by decide
  exact (mac_inputs_unambiguous _ hbytes (by decide)).2.2
    ⟨false, .pliwee, Desk.sampleToken, 0, 1, []⟩ ⟨.pliwee, _, 0, 1, _⟩

end Files

end OmniBridge.Desktop
