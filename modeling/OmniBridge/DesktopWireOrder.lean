import OmniBridge.DesktopTraffic

/-! The frames of a connection from its handshake on, as its peer reads them. -/

namespace OmniBridge.Desktop

open List Option Wire.Envelope Wire.ReplayGuard Wire Wire.Session

variable {Fp ε : Type} [LinearOrder Fp]

namespace Handshake

variable {x : Host Fp ε} {c : Incoming Fp} {s t : Handshake Fp ε} {a : Action Fp ε}
  {as : List (Action Fp ε)} {g : Greeting}

def drawnIds : Action Fp ε → List Bytes
  | .write drawn _ _ => [randomMessageId drawn]
  | _ => []

def SameWire (s t : Handshake Fp ε) : Prop :=
  t.factory = s.factory ∧ t.transcript.written = s.transcript.written

theorem lookup_sameWire : SameWire s (s.lookup x c g) := by
  unfold lookup
  split <;> exact ⟨rfl, rfl⟩

theorem window_sameWire (revoked hasOperator : Bool) (nonce : Option Nonce) :
    SameWire s (s.window x g revoked hasOperator nonce) := by
  unfold window
  dsimp only
  split
  · exact ⟨rfl, rfl⟩
  · exact ⟨rfl, rfl⟩
  · cases nonce <;> exact ⟨rfl, rfl⟩
  · exact ⟨rfl, rfl⟩

theorem receivePairRequest_sameWire (nonce : Nonce)
    (arrived : Option (Except (Error ε) PeerEnvelope)) :
    SameWire s (s.receivePairRequest g nonce arrived) := by
  match arrived with
  | none | some (.error e) => exact ⟨rfl, rfl⟩
  | some (.ok env) =>
    unfold receivePairRequest
    dsimp only
    split <;> exact ⟨rfl, rfl⟩

theorem receiveHello_wire (arrived : Option (Except (Error ε) PeerEnvelope)) :
    (s.receiveHello x c arrived).transcript.written = s.transcript.written ∧
      ((s.receiveHello x c arrived).factory = s.factory ∨
      (s.receiveHello x c arrived).factory.sequence = 0) := by
  match arrived with
  | none | some (.error e) => exact ⟨rfl, .inl rfl⟩
  | some (.ok env) =>
    unfold receiveHello
    dsimp only
    split
    · exact ⟨rfl, .inl rfl⟩
    · split <;> exact ⟨rfl, .inr rfl⟩

theorem proceed_sameWire (outcome : Except (Error ε) Unit) (next : Next Fp ε) :
    SameWire s (s.proceed g outcome next) := by
  unfold proceed
  split <;> exact ⟨rfl, rfl⟩

/-- A write adds one frame, with the next number and the id drawn for it; only the first
frame of the peer may start the count again. -/
inductive Wires (s : Handshake Fp ε) (a : Action Fp ε) (t : Handshake Fp ε) : Prop
  | same : drawnIds a = [] → SameWire s t → Wires s a t
  | opened : drawnIds a = [] → s.stage = .awaitHello → t.transcript.written = s.transcript.written →
      t.factory.sequence = 0 → Wires s a t
  | sent (env : Envelope Reply) : drawnIds a = [env.messageId] → env.sequence = s.factory.sequence +
    1 → t.transcript.written = s.transcript.written ++ [env] →
    t.factory.sequence = s.factory.sequence + 1 → Wires s a t

theorem step_wires_of_write {drawn now outcome}
    (h : s.step x c (.write drawn now outcome) = some t) :
    Wires s (.write drawn now outcome) t := by
  dsimp only [step] at h
  split at h
  · cases h
    exact .sent _ rfl rfl rfl rfl
  · rename_i g correlate reply next hst
    cases h
    obtain ⟨hfact, hwrit⟩ := @proceed_sameWire _ _ _ (s.send correlate reply drawn now) g
      outcome next
    exact .sent (buildReply reply correlate drawn now s.factory).1 rfl rfl hwrit (congrArg _ hfact)
  · cases h

theorem step_wires (h : s.step x c a = some t) : Wires s a t := by
  cases hids : drawnIds a with
  | cons =>
    cases a with
    | write => exact step_wires_of_write h
    | _ => cases hids
  | nil =>
    cases step_cases h with
    | world | reread | operator | ask => exact .same hids ⟨rfl, rfl⟩
    | hello arrived hst =>
      obtain ⟨hwrit, hfact | hfact⟩ := @receiveHello_wire _ _ _ x c s arrived
      · exact .same hids ⟨hfact, hwrit⟩
      · exact .opened hids hst hwrit hfact
    | request g nonce arrived => exact .same hids (receivePairRequest_sameWire nonce arrived)
    | lookup => exact .same hids lookup_sameWire
    | window g revoked hasOperator nonce =>
      exact .same hids (window_sameWire revoked hasOperator nonce)
    | refuse | write => cases hids
    | verify => exact .same hids (by unfold verify; dsimp only; split <;> exact ⟨rfl, rfl⟩)
    | answer => exact .same hids (by unfold answer; dsimp only; split <;> exact ⟨rfl, rfl⟩)
    | storePeer => exact .same hids (by unfold storePeer; dsimp only; split <;> exact ⟨rfl, rfl⟩)

structure Numbered (s : Handshake Fp ε) : Prop where
  counted : s.factory.sequence = UInt64.ofNat s.transcript.written.length
  numbered : s.transcript.written.map sequence =
    (range s.transcript.written.length).map (fun k => UInt64.ofNat (k + 1))

theorem step_numbered (h : s.step x c a = some t) (hsound : s.Sound x c) (hs : s.Numbered) :
    t.Numbered := by
  cases step_wires h with
  | same _ hsame =>
    obtain ⟨hfact, hwrit⟩ := hsame
    constructor
    · rw [hfact, hwrit]
      exact hs.counted
    · rw [hwrit]
      exact hs.numbered
  | opened _ hst hwrit hfact =>
    have hex : s.transcript.Exchanged [] [] [] := hsound.standing hst
    have hnone : t.transcript.written = [] := hwrit.trans (map_eq_nil_iff.mp hex.written)
    constructor
    · rw [hfact, hnone]
      rfl
    · rw [hnone]
      rfl
  | sent _ _ hseq hwrit hfact =>
    have hnext : s.factory.sequence + 1 = UInt64.ofNat (s.transcript.written.length + 1) := by
      rw [hs.counted, UInt64.ofNat_add]
      rfl
    have hlen : t.transcript.written.length = s.transcript.written.length + 1 := by
      rw [hwrit, length_append, length_singleton]
    constructor
    · rw [hfact, hlen, hnext]
    · rw [hlen, hwrit, map_append, hs.numbered, range_succ, map_append, map_singleton,
        map_singleton, hseq, hnext]

variable {desk : Desk} {store : Store Fp}

section

variable (hrun : run (step x c) { store := store, desk := desk } as = some t)
include hrun

theorem run_numbered : t.Numbered := by
  have hstart : Sound x c ({ store := store, desk := desk } : Handshake Fp ε) := ⟨rfl, rfl, rfl⟩
  have hboth : t.Sound x c ∧ t.Numbered :=
    @run_preserves _ _ (step x c) _ _ _ (fun s => s.Sound x c ∧ s.Numbered)
      (fun _ _ _ h hs => ⟨step_sound h hs.1, step_numbered h hs.1 hs.2⟩) hrun ⟨hstart, rfl, rfl⟩
  exact hboth.2

theorem run_drawnIds :
    t.transcript.written.map messageId = emitted (step x c) (fun _ => drawnIds)
      { store := store, desk := desk } as := by
  have hkeep : ∀ past (s : Handshake Fp ε) a t, s.step x c a = some t →
      s.transcript.written.map messageId = past →
      t.transcript.written.map messageId = past ++ drawnIds a := by
    intro _ s a t h hs
    cases step_wires h with
    | same hids hsame => rw [hids, hsame.2, hs, append_nil]
    | opened hids _ hwrit => rw [hids, hwrit, hs, append_nil]
    | sent _ hids _ hwrit => rw [hids, hwrit, map_append, hs, map_singleton]
  exact @emitted_invariant _ _ (step x c) _ _ t as (fun _ => drawnIds)
    (fun past s => s.transcript.written.map messageId = past) hkeep hrun [] rfl

variable {established : Established Fp}

theorem written_length (hdone : t.stage = .returned (.ok established)) :
    t.transcript.written.length = 1 ∨ t.transcript.written.length = 2 := by
  obtain ⟨-, -, hadm⟩ := (run_sound hrun).standing hdone
  rw [← length_map body]
  cases hadm with
  | recognised g _ p hex => exact .inl (congrArg length hex.written)
  | paired g a _ k _ hex => exact .inr (congrArg length hex.written)

theorem replies_admitted (hdone : t.stage = .returned (.ok established))
    (hlen : ∀ id ∈ emitted (step x c) (fun _ => drawnIds) { store := store, desk := desk } as,
      id.length = MESSAGE_ID_LENGTH)
    (hnodup : (emitted (step x c) (fun _ => drawnIds) { store := store, desk := desk } as).Nodup) :
    ∃ peer, admitAll {} t.transcript.written = .ok peer ∧ peer.lastSequence ≤ t.factory.sequence ∧
      ∀ id ∈ peer.seen, id ∈ emitted (step x c) (fun _ => drawnIds) { store := store, desk := desk }
      as := by
  have hids := run_drawnIds hrun
  obtain ⟨hcount, hnumb⟩ := run_numbered hrun
  have hsequen : (t.transcript.written.map sequence).Pairwise (· < ·) ∧
      ∀ n ∈ t.transcript.written.map sequence, 0 < n ∧ n ≤ t.factory.sequence := by
    rw [hcount, hnumb]
    rcases written_length hrun hdone with h | h
    · simp [h, range_succ]
    · simp [h, range_succ]
  have hmem : ∀ f ∈ t.transcript.written, f.sequence ∈ t.transcript.written.map sequence :=
    fun f hf => mem_map_of_mem hf
  have hawaits : Awaits {} t.transcript.written := by
    constructor
    · exact pairwise_map.mp hsequen.1
    · exact fun f hf => (hsequen.2 _ (hmem f hf)).1
    · intro f hf
      exact hlen _ (hids ▸ mem_map_of_mem hf)
    · exact hids ▸ hnodup
    · exact fun f hf => Finset.notMem_empty _
  obtain ⟨peer, hpeer, hlast, hseen⟩ :=
    hawaits.admitAll UInt64.zero_le (fun f hf => (hsequen.2 _ (hmem f hf)).2)
  refine ⟨peer, hpeer, hlast, ?_⟩
  intro id hid
  rcases hseen id hid with hid | hid
  · exact absurd hid (Finset.notMem_empty _)
  · exact hids ▸ hid

end

end Handshake

namespace Session

variable {x : Host Fp ε} {c : Incoming Fp} {e : Established Fp} {t : Session ε}
  {as : List (Action ε)}

def addressed (id : String) (m : OutboundMessage) : Bool := m.capabilityId = id

omit [LinearOrder Fp] in
theorem handled_addressed (hsupp : ∀ id ∈ e.negotiatedCapabilities, x.config.supports id)
    (id : String) (env : Frame) :
    (handled x e env).filter (addressed id) = if id ∈
      e.negotiatedCapabilities then (carried env).filter (addressed id) else none := by
  unfold handled carried
  cases env.body with
  | capabilityMessage m =>
    dsimp only
    by_cases hid : m.capabilityId = id
    · subst hid
      by_cases hneg : m.capabilityId ∈ e.negotiatedCapabilities
      · rw [if_pos ⟨hneg, hsupp _ hneg⟩, if_pos hneg]
      · rw [if_neg (fun h => hneg h.1), if_neg hneg]
        rfl
    have hoth : addressed id m = false := decide_eq_false hid
    have hnone : (some m).filter (addressed id) = none := by rw [filter_some, hoth]; rfl
    rw [hnone, ite_self]
    split
    · exact hnone
    · rfl
  | _ => exact (ite_self none).symm

theorem Numbered.admitted {peer : ReplayGuard} {n} (ht : Numbered n t)
    (hpeer : peer.lastSequence ≤ n) {ids} (hids : List.Subperm t.usedIds ids)
    (hlen : ∀ id ∈ ids, id.length = MESSAGE_ID_LENGTH) (hnodup : ids.Nodup)
    (huns : ∀ id ∈ ids, id ∉ peer.seen) : ∃ peer', peer.admitAll t.written = .ok peer' := by
  have hwrit : t.written.Sublist t.onWire := sublist_append_left _ _
  have hused : List.Subperm (t.written.map messageId) ids :=
    ((hwrit.map _).trans (sublist_append_left _ _)).subperm.trans hids
  have hawaits : peer.Awaits t.written := by
    constructor
    · exact ht.increasing.sublist hwrit
    · exact fun f hf => UInt64.lt_of_le_of_lt hpeer (ht.ahead f (hwrit.subset hf))
    · exact fun f hf => hlen _ (hused.subset (mem_map_of_mem hf))
    · obtain ⟨l, hperm, hsub⟩ := hused
      exact hperm.nodup_iff.mp (hnodup.sublist hsub)
    · exact fun f hf => huns _ (hused.subset (mem_map_of_mem hf))
  obtain ⟨peer', hadm, -, -⟩ := hawaits.admitAll (UInt64.le_trans hpeer ht.reached)
    (fun f hf => ht.counted f (hwrit.subset hf))
  exact ⟨peer', hadm⟩

/-- From its handshake on, the frames of a connection are admitted by the peer in the
order they are written, each queue is written in the order it was filled, and a
capability is handed its own messages in the order they were admitted: as long as an
id is drawn for each frame, no two are the same, and the numbers last. -/
theorem wire_order_agrees {store : Store Fp} {desk : Desk} {h : Handshake Fp ε}
    {hs : List (Handshake.Action Fp ε)}
    (hshake : run (Handshake.step x c) { store := store, desk := desk } hs = some h)
    (hdone : h.stage = .returned (.ok e))
    (hrun : run (step x e) (start e h.factory h.guard) as = some t)
    (hlen : ∀ id ∈ emitted (Handshake.step x c) (fun _ => Handshake.drawnIds)
        { store := store, desk := desk } hs ++
      emitted (step x e) drawnIds (start e h.factory h.guard) as, id.length = MESSAGE_ID_LENGTH)
    (hnodup : (emitted (Handshake.step x c) (fun _ => Handshake.drawnIds)
        { store := store, desk := desk } hs ++
      emitted (step x e) drawnIds (start e h.factory h.guard) as).Nodup)
    (hnumbers : Meets (step x e) NumberLeft (start e h.factory h.guard) as) :
    (∃ peer peer', admitAll {} h.transcript.written = .ok peer ∧
      peer.admitAll t.written = .ok peer') ∧
    (∃ sent : List ((WriteRequest ⊕ OutboundMessage) × Frame), t.written <+: sent.map Prod.snd ∧
      (∀ p ∈ sent, Carries p) ∧
      sent.filterMap (fun p => p.1.getLeft?) ++ t.writeQueue.items =
        emitted (step x e) queuedRequests (start e h.factory h.guard) as ∧
      sent.filterMap (fun p => p.1.getRight?) ++ t.capQueue.items =
        emitted (step x e) queuedMessages (start e h.factory h.guard) as) ∧
    (emitted (step x e) (accepted e) (start e h.factory h.guard) as).Sublist
      (emitted (step x e) (fun _ => arrived) (start e h.factory h.guard) as) ∧
    ∀ id, t.messages.filter (addressed id) = if id ∈ e.negotiatedCapabilities then
      ((emitted (step x e) (accepted e) (start e h.factory h.guard) as).filterMap carried).filter
        (addressed id) else [] := by
  obtain ⟨hshak, hrunNod, hapart⟩ := nodup_append.mp hnodup
  have hsupp : ∀ id ∈ e.negotiatedCapabilities, x.config.supports id := by
    obtain ⟨-, -, hadm⟩ := (Handshake.run_sound hshake).standing hdone
    intro id hid
    cases hadm with
    | recognised _ _ _ _ _ hallow | paired _ _ _ _ _ _ _ _ hallow =>
      exact decide_eq_true (hallow.registered id hid)
  refine ⟨?_, ?_, run_waiting hrun rfl, ?_⟩
  · obtain ⟨peer, hpeer, hlast, hseen⟩ := Handshake.replies_admitted hshake hdone
      (fun id hid => hlen id (mem_append_left _ hid)) hshak
    have hnumb : Numbered h.factory.sequence t :=
      run_invariant (step x e) (fun _ _ _ => step_numbered) hrun hnumbers ⟨List.Pairwise.nil, nofun,
        nofun, UInt64.le_refl _⟩
    obtain ⟨peer', hadm⟩ := hnumb.admitted hlast (run_usedIds hrun rfl)
      (fun id hid => hlen id (mem_append_right _ hid)) hrunNod
      (fun id hid hold => hapart id (hseen id hold) id hid rfl)
    exact ⟨peer, peer', hpeer, hadm⟩
  · have hsent := run_sent hrun ⟨nofun, prefix_refl _, fun _ => rfl⟩
    refine ⟨_, (prefix_append _ _).trans hsent.isPrefix, hsent.carries, ?_, ?_⟩
    · rw [← emitted_filterMap]
      exact emitted_fifo (step x e) (fun _ _ _ h => (step_queues h).1) hrun
    · rw [← emitted_filterMap]
      exact emitted_fifo (step x e) (fun _ _ _ h => (step_queues h).2) hrun
  · intro id
    rw [run_messages hrun rfl]
    rw [filter_filterMap, funext (handled_addressed hsupp id)]
    split
    · rw [filter_filterMap]
    · simp

section Sample

open Handshake (sampleHost phone openDesk phoneHello phoneNonce phoneProof phoneSession)

def pairs : List (Handshake.Action Nat Unit) :=
  [.receive (some (.ok phoneHello)), .lookup, .operator, .window (some phoneNonce),
    .write (some (constantId 1)) 0 (.ok ()), .receive (some (.ok phoneProof)), .verify 0, .ask,
    .answer (some true), .storePeer 0 (.ok ()), .write (some (constantId 2)) 0 (.ok ()), .lookup]

def battery : OutboundMessage := ⟨"battery.v1", [80]⟩

/-- The battery is queued while a ping of the phone waits for its pong; the writer takes
the pong first. Then a message of a capability that was not negotiated is answered. -/
def mixes (drawn : Option MessageId) : List (Action Unit) :=
  opening ++ [Action.offer battery] ++
    [Action.arrive (.ok (phoneFrame 3 (.ping [7]))), Action.deliver, .poll [] none [], .push,
    .takeRequest drawn 0, .wrote (.ok ()), .takeMessage (some (constantId 4)) 0, .wrote (.ok ()),
    .arrive (.ok (phoneFrame 4 (.capabilityMessage battery))), .deliver, .poll [] none [], .push,
    .arrive (.ok (phoneFrame 5 (.capabilityMessage ⟨"files.v1", []⟩))), .deliver, .poll [] none [],
    .push, .takeRequest (some (constantId 5)) 0, .wrote (.ok ())]

theorem wire_order_agrees_sample :
    ∃ h t, run (Handshake.step sampleHost phone) { store := ⟨.empty, []⟩, desk := openDesk } pairs =
        some h ∧ h.stage = .returned (.ok phoneSession) ∧
      run (step sampleHost phoneSession) (start phoneSession h.factory h.guard)
        (mixes (some (constantId 3))) = some t ∧ t.written.map sequence = [3, 4, 5] ∧
      ∃ peer peer', admitAll {} h.transcript.written = .ok peer ∧
        peer.admitAll t.written = .ok peer' :=
  ⟨_, _, rfl, rfl, rfl, by decide +kernel, (@wire_order_agrees _ _ _ sampleHost phone phoneSession _
    (mixes (some (constantId 3))) ⟨.empty, []⟩ openDesk _ pairs rfl rfl rfl (by decide +kernel)
    (by decide +kernel) (by decide +kernel)).1⟩

end Sample

section Wraps

variable {s : Session ε}

def serveAll (m : OutboundMessage) (ids : List MessageId) : List (Action ε) :=
  ids.flatMap (fun id => [.offer m, .takeMessage (some id) 0, .wrote (.ok ())])

omit [LinearOrder Fp] in
theorem run_serves (m) (id : MessageId) (hidle : s.writer = .idle)
    (hempty : s.capQueue.items = []) :
    ∃ t, run (step x e) s [.offer m, .takeMessage (some id) 0, .wrote (.ok ())] = some t ∧
      t.writer = .idle ∧ t.capQueue.items = [] ∧ t.factory.sequence = s.factory.sequence + 1 ∧
      t.written = s.written ++ [(m.request.frame (some id) 0 s.factory).1] ∧
      emitted (step x e) drawnIds s [.offer m, .takeMessage (some id) 0, .wrote (.ok ())] =
      [id.bytes] := by
  obtain ⟨q, hq⟩ : ∃ q, s.capQueue.send m = some q := by
    cases hq : s.capQueue.send m with
    | some q => exact ⟨q, rfl⟩
    | none =>
      rw [Channel.send_eq_none, hempty] at hq
      cases hq
  have hitems := Channel.send_eq_some hq
  rw [hempty, nil_append] at hitems
  obtain ⟨r, hr⟩ : ∃ r, q.recv = some (m, r) := by
    cases hr : q.recv with
    | none =>
      rw [Channel.recv_eq_none, hitems] at hr
      cases hr
    | some p =>
      obtain ⟨_, r⟩ := p
      have hfirst := Channel.recv_eq_some hr
      rw [hitems] at hfirst
      obtain rfl := (cons.inj hfirst).1
      exact ⟨r, rfl⟩
  have hrest : r.items = [] := by
    have hfirst := Channel.recv_eq_some hr
    rw [hitems] at hfirst
    exact (cons.inj hfirst).2.symm
  have hoff : s.step x e (.offer m) = some { s with capQueue := q } := by
    simp only [step, hidle, Writer.isGone, hq]
    rfl
  have htake : step x e { s with capQueue := q } (.takeMessage (some id) 0) =
      some ({ s with capQueue := r }.write m.request (some id) 0) := by
    simp only [step, hidle, hr]
  have hwrote : step x e ({ s with capQueue := r }.write m.request (some id) 0) (.wrote (.ok ())) =
      some { { s with capQueue := r }.write m.request (some id) 0 with
        writer := .idle, written := s.written ++ [(m.request.frame (some id) 0 s.factory).1] } :=
          rfl
  refine ⟨{ { s with capQueue := r }.write m.request (some id) 0 with
    writer := .idle, written := s.written ++ [(m.request.frame (some id) 0 s.factory).1] }, ?_, rfl,
      hrest, rfl, rfl, ?_⟩
  · simp only [run, hoff, htake, hwrote, bind_some]
  · rw [emitted_cons _ hoff, emitted_cons _ htake, emitted_cons _ hwrote]
    rfl

omit [LinearOrder Fp] in
theorem run_serveAll (m) (ids : List MessageId) (hidle : s.writer = .idle)
    (hempty : s.capQueue.items = []) :
    ∃ t, run (step x e) s (serveAll m ids) = some t ∧ t.factory.sequence = s.factory.sequence +
      UInt64.ofNat ids.length ∧ (ids ≠ [] → ∃ f ∈ t.written, f.sequence = t.factory.sequence) ∧
      emitted (step x e) drawnIds s (serveAll m ids) = ids.map Wire.MessageId.bytes := by
  induction ids generalizing s with
  | nil => exact ⟨s, rfl, (UInt64.add_zero _).symm, fun h => absurd rfl h, rfl⟩
  | cons id ids ih =>
    obtain ⟨u, hu, huIdle, huEmpty, huSeq, huWr, huIds⟩ :=
      @run_serves _ _ x e s m id hidle hempty
    obtain ⟨t, ht, hseq, hlast, hids⟩ := ih huIdle huEmpty
    refine ⟨t, ?_, ?_, ?_, ?_⟩
    · exact (run_append (step x e) hu).trans ht
    · rw [hseq, huSeq, length_cons, UInt64.ofNat_add, UInt64.add_assoc, UInt64.add_comm 1]
      rfl
    · intro _
      cases ids with
      | nil =>
        obtain rfl : u = t := by simpa [serveAll, run] using ht
        refine ⟨_, huWr ▸ mem_append_right _ mem_cons_self, ?_⟩
        rw [huSeq]
        rfl
      | cons => exact hlast (by simp)
    · exact (emitted_append (step x e) hu).trans (by rw [huIds]; exact congrArg _ hids)

def countedId (n : Nat) : MessageId :=
  ⟨replicate 8 255 ++ (range 8).map (fun i => UInt8.ofNat (n / 256 ^ i)),
    by simp [MESSAGE_ID_LENGTH]⟩

theorem countedId_bytes_inj {n m} (hn : n < 2 ^ 64) (hm : m < 2 ^ 64)
    (h : (countedId n).bytes = (countedId m).bytes) : n = m := by
  have hlast := append_cancel_left h
  have hdigit : ∀ i < 8, n / 256 ^ i % 256 = m / 256 ^ i % 256 := by
    intro i hi
    have hbyte := map_inj_left.mp hlast i (mem_range.mpr hi)
    simpa using congrArg UInt8.toNat hbyte
  have hmod : ∀ k ≤ 8, n % 256 ^ k = m % 256 ^ k := by
    intro k _
    induction k with
    | zero => rw [Nat.pow_zero, Nat.mod_one, Nat.mod_one]
    | succ k ih => rw [Nat.mod_pow_succ, Nat.mod_pow_succ, ih (by omega), hdigit k (by omega)]
  have hall := hmod 8 (by omega)
  rwa [Nat.mod_eq_of_lt (by omega), Nat.mod_eq_of_lt (by omega)] at hall

def countedIds (k : Nat) : List MessageId := (range k).map countedId

theorem countedIds_nodup {k} (hk : k ≤ 2 ^ 64) :
    ((countedIds k).map Wire.MessageId.bytes).Nodup := by
  rw [countedIds, List.map_map]
  refine List.Nodup.map_on ?_ nodup_range
  intro n hn m hm h
  rw [mem_range] at hn hm
  exact countedId_bytes_inj (by omega) (by omega) h

open Handshake (sampleHost phone openDesk phoneSession) in
/-- A frame is refused where the system had no randomness for its id, and after the last
number: the next frame is numbered zero. -/
theorem frames_refused :
    (∃ h t peer, run (Handshake.step sampleHost phone) { store := ⟨.empty, []⟩, desk := openDesk }
        pairs = some h ∧ h.stage = .returned (.ok phoneSession) ∧
      run (step sampleHost phoneSession) (start phoneSession h.factory h.guard) (mixes none) =
        some t ∧
      (emitted (Handshake.step sampleHost phone) (fun _ => Handshake.drawnIds)
          { store := ⟨.empty, []⟩, desk := openDesk } pairs ++
        emitted (step sampleHost phoneSession) drawnIds (start phoneSession h.factory h.guard)
          (mixes none)).Nodup ∧
      Meets (step sampleHost phoneSession) NumberLeft (start phoneSession h.factory h.guard)
        (mixes none) ∧
      admitAll {} h.transcript.written = .ok peer ∧
      peer.admitAll t.written = .error .idLength) ∧
    ∃ h as t, run (Handshake.step sampleHost phone) { store := ⟨.empty, []⟩, desk := openDesk }
        pairs = some h ∧ h.stage = .returned (.ok phoneSession) ∧
      run (step sampleHost phoneSession) (start phoneSession h.factory h.guard) as = some t ∧
      (∀ id ∈ emitted (Handshake.step sampleHost phone) (fun _ => Handshake.drawnIds)
          { store := ⟨.empty, []⟩, desk := openDesk } pairs ++
        emitted (step sampleHost phoneSession) drawnIds (start phoneSession h.factory h.guard) as,
        id.length = MESSAGE_ID_LENGTH) ∧
      (emitted (Handshake.step sampleHost phone) (fun _ => Handshake.drawnIds)
          { store := ⟨.empty, []⟩, desk := openDesk } pairs ++
        emitted (step sampleHost phoneSession) drawnIds (start phoneSession h.factory h.guard)
          as).Nodup ∧
      ∀ peer peer' : ReplayGuard, peer.admitAll t.written ≠ .ok peer' := by
  constructor
  · exact ⟨_, _, _, rfl, rfl, rfl, by decide +kernel, by decide +kernel, rfl, rfl⟩
  · let h : Handshake Nat Unit :=
      (run (Handshake.step sampleHost phone) { store := ⟨.empty, []⟩, desk := openDesk } pairs).get
        rfl
    have hshake : run (Handshake.step sampleHost phone) { store := ⟨.empty, []⟩, desk := openDesk }
      pairs = some h := rfl
    have hrepl : emitted (Handshake.step sampleHost phone) (fun _ => Handshake.drawnIds)
        { store := ⟨.empty, []⟩, desk := openDesk } pairs = [replicate 16 1, replicate 16 2] := by
      decide +kernel
    obtain ⟨t, ht, hseq, hlast, hids⟩ := @run_serveAll _ _ sampleHost phoneSession
      (start phoneSession h.factory h.guard) battery (countedIds (2 ^ 64 - 2)) rfl rfl
    have hlen : (countedIds (2 ^ 64 - 2)).length = 2 ^ 64 - 2 :=
      by rw [countedIds, length_map, length_range]
    have hzero : t.factory.sequence = 0 := by
      rw [hseq, hlen]
      decide +kernel
    refine ⟨h, _, t, hshake, rfl, ht, ?_, ?_, ?_⟩
    · rw [hrepl, hids]
      intro id hid
      rcases mem_append.mp hid with hid | hid
      · have hshort : ∀ id ∈ [replicate 16 (1 : UInt8), replicate 16 2],
            id.length = MESSAGE_ID_LENGTH := by decide
        exact hshort id hid
      · obtain ⟨drawn, -, rfl⟩ := List.mem_map.mp hid
        exact drawn.length_eq
    · rw [hrepl, hids]
      refine nodup_append.mpr ⟨by decide, countedIds_nodup (by omega), ?_⟩
      intro id hid _ hid' heq
      obtain ⟨_, hdrawn, rfl⟩ := List.mem_map.mp hid'
      obtain ⟨n, -, rfl⟩ := List.mem_map.mp hdrawn
      have hhead : id.head? = some 255 := heq ▸ rfl
      have hoth : ∀ id ∈ [replicate 16 (1 : UInt8), replicate 16 2], id.head? ≠ some 255 :=
        by decide
      exact hoth id hid hhead
    · intro _ _ hadm
      obtain ⟨f, hf, hnumber⟩ := hlast (ne_nil_of_length_pos (by omega))
      have hpos := pos_of_admitAll hadm f hf
      rw [hnumber, hzero] at hpos
      exact absurd hpos (by decide)

end Wraps

end Session

end OmniBridge.Desktop
