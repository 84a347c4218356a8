import OmniBridge.DesktopSession

/-! What goes through a session: what enters the two queues of its writer and leaves them
again, the ids that are drawn for it, what the peer's guard makes of the frames that are
written, and which of the frames that arrive reach a capability. -/

namespace OmniBridge

open List Option Channel

namespace Wire.ReplayGuard

variable {Body : Type} {g : ReplayGuard} {es : List (Envelope Body)}

def admitAll (g : ReplayGuard) (es : List (Envelope Body)) : Except Refusal ReplayGuard :=
  es.foldlM (fun g e => g.admitEnvelope e) g

structure Awaits (g : ReplayGuard) (es : List (Envelope Body)) : Prop where
  increasing : es.Pairwise (fun a b => a.sequence < b.sequence)
  ahead : ∀ e ∈ es, g.lastSequence < e.sequence
  wellFormed : ∀ e ∈ es, e.messageId.length = MESSAGE_ID_LENGTH
  distinct : (es.map Envelope.messageId).Nodup
  unseen : ∀ e ∈ es, e.messageId ∉ g.seen

theorem Awaits.tail {e} (h : g.Awaits (e :: es)) : (g.record e).Awaits es := by
  obtain ⟨hincr, _, hlen, hdist, huns⟩ := h
  have hnext := pairwise_cons.mp hincr
  rw [map_cons, nodup_cons] at hdist
  constructor
  · exact hnext.2
  · intro a ha
    rw [record_lastSequence]
    exact hnext.1 a ha
  · exact fun a ha => hlen a (mem_cons_of_mem e ha)
  · exact hdist.2
  · intro a ha hseen
    rcases Finset.mem_insert.mp (g.record_seen_subset e hseen) with heq | hold
    · exact hdist.1 (heq ▸ mem_map_of_mem ha)
    · exact huns a (mem_cons_of_mem e ha) hold

theorem Awaits.admitAll (h : g.Awaits es) {n} (hn : g.lastSequence ≤ n)
    (hes : ∀ e ∈ es, e.sequence ≤ n) :
    ∃ g', g.admitAll es = .ok g' ∧ g'.lastSequence ≤ n ∧ ∀ id ∈ g'.seen, id ∈ g.seen ∨
      id ∈ es.map Envelope.messageId := by
  induction es generalizing g with
  | nil => exact ⟨g, rfl, hn, fun id hid => .inl hid⟩
  | cons e es ih =>
    have hfirst : g.admitEnvelope e = .ok (g.record e) :=
      admitEnvelope_ok (h.wellFormed e mem_cons_self) (h.ahead e mem_cons_self)
        (h.unseen e mem_cons_self)
    have hle : (g.record e).lastSequence ≤ n := by
      rw [record_lastSequence]
      exact hes e mem_cons_self
    obtain ⟨g', hg', hlast, hseen⟩ := ih h.tail hle (fun a ha => hes a (mem_cons_of_mem e ha))
    refine ⟨g', ?_, hlast, ?_⟩
    · have hcons : g.admitAll (e :: es) = (g.admitEnvelope e).bind (fun g => g.admitAll es) := rfl
      rw [hcons, hfirst]
      exact hg'
    · intro id hid
      rcases hseen id hid with hid | hid
      · rcases Finset.mem_insert.mp (g.record_seen_subset e hid) with rfl | hid
        · exact .inr mem_cons_self
        · exact .inl hid
      · exact .inr (mem_cons_of_mem _ hid)

theorem pos_of_admitAll {g'} (h : g.admitAll es = .ok g') : ∀ e ∈ es, 0 < e.sequence := by
  induction es generalizing g with
  | nil => nofun
  | cons e es ih =>
    have hcons : (g.admitEnvelope e).bind (fun g => g.admitAll es) = .ok g' := h
    cases hfirst : g.admitEnvelope e with
    | error =>
      rw [hfirst] at hcons
      cases hcons
    | ok =>
      rw [hfirst] at hcons
      have hahead : ¬ e.sequence ≤ g.lastSequence := by
        intro _
        unfold admitEnvelope at hfirst
        split at hfirst <;> cases hfirst
      have hpos : 0 < e.sequence := UInt64.lt_of_le_of_lt UInt64.zero_le (UInt64.not_le.mp hahead)
      exact forall_mem_cons.mpr ⟨hpos, ih hcons⟩

end Wire.ReplayGuard

namespace Desktop

namespace Session

variable {Fp ε : Type} {x : Host Fp ε} {e : Established Fp} {s t : Session ε} {a : Action ε}
  {as : List (Action ε)}

def Admits (e : Established Fp) (s : Session ε) (env : Frame) : Prop :=
  env.protocolVersion = e.protocolVersion ∧ (s.guard.admitEnvelope env).isOk

instance (s : Session ε) (env : Frame) : Decidable (Admits e s env) :=
  inferInstanceAs (Decidable (_ ∧ _))

section Events

variable (e s)

def queuedRequests : Action ε → List WriteRequest
  | .push =>
    match s.dispatch with
    | .sending request _ => if s.writer.isGone then [] else [request]
    | _ => []
  | _ => []

def queuedMessages : Action ε → List OutboundMessage
  | .offer m => [m]
  | .push =>
    match s.dispatch with
    | .handling (m :: _) | .greeting (m :: _) _ => if s.writer.isGone then [] else [m]
    | _ => []
  | _ => []

def taken : Action ε → List ((WriteRequest ⊕ OutboundMessage) × Frame)
  | .takeRequest drawn now =>
    (s.writeQueue.recv.map (fun r => (Sum.inl r.1, (r.1.frame drawn now s.factory).1))).toList
  | .takeMessage drawn now =>
    (s.capQueue.recv.map (fun m => (Sum.inr m.1, (m.1.request.frame drawn now s.factory).1))).toList
  | _ => []

def takenRequests (a : Action ε) : List WriteRequest :=
  (s.taken a).filterMap (fun p => p.1.getLeft?)

def takenMessages (a : Action ε) : List OutboundMessage :=
  (s.taken a).filterMap (fun p => p.1.getRight?)

/-- The ids that are drawn: one for each frame that is built, and one for a ping that
was asked for, before it is queued. -/
def drawnIds : Action ε → List Bytes
  | .takeRequest drawn _ | .takeMessage drawn _ => [randomMessageId drawn]
  | .poll _ drawn _ =>
    match s.dispatch, s.commands.recv with
    | .selecting .commands, some (.ping, _) => [randomMessageId drawn]
    | _, _ => []
  | _ => []

def arrived : Action ε → List Frame
  | .arrive (.ok env) => [env]
  | _ => []

def accepted : Action ε → List Frame
  | .poll _ _ _ =>
    match s.dispatch, s.inbound.recv with
    | .selecting .inbound, some (item, _) => item.toOption.toList.filter (Admits e s)
    | _, _ => []
  | _ => []

end Events

def Action.isQueueing : Action ε → Bool
  | .offer _ | .push | .takeRequest _ _ | .takeMessage _ _ => true
  | _ => false

theorem step_queues_same (ha : a.isQueueing = false) (h : s.step x e a = some t) :
    t.writeQueue = s.writeQueue ∧ t.capQueue = s.capQueue := by
  cases step_cases h with
  | offer | pushedRequest | pushedMessage | tookRequest | tookMessage => cases ha
  | received _ _ _ _ _ _ _ _ hreact | commanded _ _ _ _ _ _ _ _ hreact | ticked _ _ _ hreact =>
    cases hreact <;> exact ⟨rfl, rfl⟩
  | disconnected => split <;> exact ⟨rfl, rfl⟩
  | _ => exact ⟨rfl, rfl⟩

variable {next failed : Dispatch ε} {m : OutboundMessage}

def Dispatch.minted : Dispatch ε → List Bytes
  | .sending request _ => request.messageId.toList
  | _ => []

/-- What `push` puts into the queues, and that an id it queues was minted for it. -/
structure Pushed (s t : Session ε) : Prop where
  requests : t.writeQueue.items = s.writeQueue.items ++ s.queuedRequests .push
  messages : t.capQueue.items = s.capQueue.items ++ s.queuedMessages .push
  minted : (t.dispatch.minted ++ (s.queuedRequests .push).filterMap WriteRequest.messageId).Sublist
    s.dispatch.minted

theorem pushMessage_pushed (h : s.pushMessage m next failed = some t)
    (hreq : s.queuedRequests .push = [])
    (hmess : s.queuedMessages .push = if s.writer.isGone then [] else [m])
    (hnext : next.minted = []) (hfail : failed.minted = []) : Pushed s t := by
  unfold pushMessage at h
  split at h
  · rename_i hgone
    cases h
    rw [if_pos hgone] at hmess
    exact ⟨by rw [hreq, append_nil]; rfl, by rw [hmess, append_nil]; rfl,
      by rw [hreq]; exact hfail ▸ nil_sublist _⟩
  · rename_i hgone
    obtain ⟨q, hq, rfl⟩ := map_eq_some_iff.mp h
    rw [if_neg hgone] at hmess
    exact ⟨by rw [hreq, append_nil], by rw [hmess]; exact send_eq_some hq,
      by rw [hreq]; exact hnext ▸ nil_sublist _⟩

theorem push_pushed (h : s.push e = some t) : Pushed s t := by
  unfold push at h
  split at h
  · rename_i request ping hdisp
    split at h
    · rename_i hgone
      cases h
      constructor <;> simp [queuedRequests, queuedMessages, hdisp, hgone, leave, enter,
        Dispatch.minted]
    · rename_i hgone
      obtain ⟨q, hq, rfl⟩ := map_eq_some_iff.mp h
      constructor
      · simpa [queuedRequests, hdisp, hgone] using send_eq_some hq
      · simp [queuedMessages, hdisp]
      · cases hid : request.messageId with
        | _ => simp [queuedRequests, hdisp, hgone, Dispatch.minted, hid]
  · rename_i m sends hdisp
    exact pushMessage_pushed h (by simp [queuedRequests, hdisp])
      (by simp [queuedMessages, hdisp]) rfl rfl
  · rename_i hdisp
    cases h
    constructor <;> simp [queuedRequests, queuedMessages, hdisp, enter, Dispatch.minted]
  · rename_i m sends rest hdisp
    exact pushMessage_pushed h (by simp [queuedRequests, hdisp])
      (by simp [queuedMessages, hdisp]) rfl rfl
  · rename_i rest hdisp
    cases h
    constructor <;> simp [queuedRequests, queuedMessages, hdisp, enter, Dispatch.minted]
  · cases h

def request : WriteRequest ⊕ OutboundMessage → WriteRequest := Sum.elim id OutboundMessage.request

def Action.isTake : Action ε → Bool
  | .takeRequest _ _ | .takeMessage _ _ => true
  | _ => false

structure Took (s : Session ε) (a : Action ε) (t : Session ε)
    (item : WriteRequest ⊕ OutboundMessage) (drawn : Option Wire.MessageId) (now : Nat) : Prop where
  taken : s.taken a = [(item, ((request item).frame drawn now s.factory).1)]
  requests : s.writeQueue.items = s.takenRequests a ++ t.writeQueue.items
  messages : s.capQueue.items = s.takenMessages a ++ t.capQueue.items
  ids : s.drawnIds a = [randomMessageId drawn]
  idle : s.writer = .idle
  writing : t.writer = .writing ((request item).frame drawn now s.factory).1
  written : t.written = s.written
  factory : t.factory = ((request item).frame drawn now s.factory).2
  dispatch : t.dispatch = s.dispatch

theorem step_took (ha : a.isTake) (h : s.step x e a = some t) :
    ∃ item drawn now, Took s a t item drawn now := by
  cases step_cases h with
  | tookRequest drawn now r q hwr hq =>
    have htaken : s.taken (.takeRequest drawn now) =
        [(.inl r, (r.frame drawn now s.factory).1)] := by
      simp only [taken, hq, map_some, toList_some]
    refine ⟨.inl r, drawn, now, htaken, ?_, ?_, rfl, hwr, rfl, rfl, rfl, rfl⟩
    · rw [takenRequests, htaken]
      exact recv_eq_some hq
    · rw [takenMessages, htaken]
      rfl
  | tookMessage drawn now m q hwr hq =>
    have htaken : s.taken (.takeMessage drawn now) =
        [(.inr m, (m.request.frame drawn now s.factory).1)] := by
      simp only [taken, hq, map_some, toList_some]
    refine ⟨.inr m, drawn, now, htaken, ?_, ?_, rfl, hwr, rfl, rfl, rfl, rfl⟩
    · rw [takenRequests, htaken]
      rfl
    · rw [takenMessages, htaken]
      exact recv_eq_some hq
  | ended a _ _ hdisp | moved a _ _ _ _ _ hdisp =>
    cases a <;> first | (cases ha; done) | cases hdisp
  | _ => cases ha

theorem step_queues (h : s.step x e a = some t) :
    s.takenRequests a ++ t.writeQueue.items = s.writeQueue.items ++ s.queuedRequests a ∧
      s.takenMessages a ++ t.capQueue.items = s.capQueue.items ++ s.queuedMessages a := by
  cases a with
  | offer =>
    obtain ⟨_, h⟩ := ite_none_left_eq_some.mp h
    obtain ⟨q, hq, rfl⟩ := map_eq_some_iff.mp h
    exact ⟨(append_nil _).symm, send_eq_some hq⟩
  | push => exact ⟨(push_pushed h).requests, (push_pushed h).messages⟩
  | takeRequest | takeMessage =>
    obtain ⟨_, _, _, htook⟩ := step_took rfl h
    rw [htook.requests, htook.messages]
    exact ⟨(append_nil _).symm, (append_nil _).symm⟩
  | _ =>
    obtain ⟨hwrite, hcap⟩ := step_queues_same rfl h
    rw [hwrite, hcap]
    exact ⟨(append_nil _).symm, (append_nil _).symm⟩

def carried (env : Frame) : Option OutboundMessage :=
  match env.body with
  | .capabilityMessage m => some m
  | _ => none

/-- A frame carries what was queued: its body, what it answers, and the id it was given
before, if any. -/
def Carries (p : (WriteRequest ⊕ OutboundMessage) × Frame) : Prop :=
  p.2.body = (request p.1).body ∧ p.2.correlationId = (request p.1).correlationId ∧
    ∀ id ∈ (request p.1).messageId, p.2.messageId = id

def Writer.current : Writer ε → List Frame
  | .writing frame => [frame]
  | _ => []

def Writer.isServing : Writer ε → Bool
  | .idle | .writing _ => true
  | _ => false

def onWire (s : Session ε) : List Frame := s.written ++ s.writer.current

theorem taken_of_not_take (ha : a.isTake = false) : s.taken a = [] := by
  cases a with
  | takeRequest | takeMessage => cases ha
  | _ => rfl

/-- Where nothing is taken, what is on the wire only loses a frame that could not be
written, and with it the writer. -/
structure Idles (s t : Session ε) : Prop where
  factory : t.factory = s.factory
  isPrefix : t.onWire <+: s.onWire
  serving : t.writer.isServing → s.writer.isServing ∧ t.onWire = s.onWire

theorem Idles.refl (s : Session ε) : Idles s s := ⟨rfl, prefix_refl _, fun h => ⟨h, rfl⟩⟩

theorem Idles.gaveUp (s : Session ε) {w} (hw : w.isServing = false) :
    Idles s { s with writer := w } := by
  refine ⟨rfl, ?_, fun h => nomatch hw.symm.trans h⟩
  cases w with
  | writing => cases hw
  | _ =>
    change s.written ++ [] <+: _
    rw [append_nil]
    exact prefix_append _ _

theorem reacts_idles (h : Reacts e s t) : Idles s t := by
  cases h with
  | _ => exact { Idles.refl s with }

theorem step_idles (ha : a.isTake = false) (h : s.step x e a = some t) : Idles s t := by
  cases step_cases h with
  | received _ _ _ _ _ _ _ _ hreact | commanded _ _ _ _ _ _ _ _ hreact =>
    obtain ⟨hfact, hpre, hserv⟩ := reacts_idles hreact
    exact ⟨hfact, hpre, hserv⟩
  | ticked _ t _ hreact => exact reacts_idles hreact
  | tookRequest | tookMessage => cases ha
  | wrote frame hwr =>
    have hwire : s.onWire = s.written ++ [frame] ++ [] := by
      rw [onWire, hwr, append_nil]
      rfl
    refine ⟨rfl, hwire ▸ prefix_refl _, fun _ => ⟨?_, hwire.symm⟩⟩
    rw [hwr]
    rfl
  | failed | stopped | flushed => exact { Idles.gaveUp s rfl with }
  | disconnected => split <;> exact { Idles.refl s with }
  | expired =>
    cases hgone : s.writer.isGone with
    | true => exact { Idles.refl s with }
    | false => exact { Idles.gaveUp s rfl with }
  | _ => exact { Idles.refl s with }

theorem Took.onWire {item drawn now} (h : Took s a t item drawn now) :
    t.onWire = s.onWire ++ (s.taken a).map Prod.snd := by
  have hwas : s.onWire = s.written := by
    rw [Session.onWire, h.idle]
    exact append_nil _
  rw [hwas, h.taken, Session.onWire, h.writing, h.written]
  rfl

open WriteRequest

theorem Took.carries {item drawn now} (h : Took s a t item drawn now) :
    ∀ p ∈ s.taken a, Carries p := by
  intro p hp
  rw [h.taken, mem_singleton] at hp
  subst hp
  refine ⟨rfl, rfl, ?_⟩
  intro _ hid
  simp only [frame, mem_def.mp hid, getD_some]

/-- Everything that was taken is on the wire while the writer serves; what is on the wire
was taken in this order. -/
structure Sent (past : List ((WriteRequest ⊕ OutboundMessage) × Frame)) (s : Session ε) : Prop where
  carries : ∀ p ∈ past, Carries p
  isPrefix : s.onWire <+: past.map Prod.snd
  serving : s.writer.isServing → s.onWire = past.map Prod.snd

theorem step_sent {past} (h : s.step x e a = some t) (hs : Sent past s) :
    Sent (past ++ s.taken a) t := by
  cases ha : a.isTake with
  | false =>
    obtain ⟨-, hpre, hserv⟩ := step_idles ha h
    rw [taken_of_not_take ha, append_nil]
    refine ⟨hs.carries, hpre.trans hs.isPrefix, ?_⟩
    intro ht
    obtain ⟨hwas, hsame⟩ := hserv ht
    exact hsame.trans (hs.serving hwas)
  | true =>
    obtain ⟨_, _, _, htook⟩ := step_took ha h
    have hwas : s.writer.isServing := by rw [htook.idle]; rfl
    have hwire : t.onWire = (past ++ s.taken a).map Prod.snd :=
      by rw [htook.onWire, hs.serving hwas, map_append]
    refine ⟨?_, hwire ▸ prefix_refl _, fun _ => hwire⟩
    intro p hp
    rcases mem_append.mp hp with hp | hp
    · exact hs.carries p hp
    · exact htook.carries p hp

theorem run_sent (hrun : run (step x e) s as = some t) (hs : Sent [] s) :
    Sent (emitted (step x e) taken s as) t :=
  emitted_invariant (step x e) (fun _ _ _ _ h hs => step_sent h hs) hrun hs

def NumberLeft (s : Session ε) (a : Action ε) : Prop :=
  a.isTake → s.factory.sequence.toNat + 1 < 2 ^ 64

instance (s : Session ε) (a : Action ε) : Decidable (s.NumberLeft a) :=
  inferInstanceAs (Decidable (_ → _))

/-- The frames on the wire are numbered upwards from `n`. -/
structure Numbered (n : UInt64) (s : Session ε) : Prop where
  increasing : s.onWire.Pairwise (fun a b => a.sequence < b.sequence)
  ahead : ∀ f ∈ s.onWire, n < f.sequence
  counted : ∀ f ∈ s.onWire, f.sequence ≤ s.factory.sequence
  reached : n ≤ s.factory.sequence

theorem step_numbered {n} (hok : s.NumberLeft a) (h : s.step x e a = some t) (hs : Numbered n s) :
    Numbered n t := by
  cases ha : a.isTake with
  | false =>
    obtain ⟨hfact, hpre, -⟩ := step_idles ha h
    have hsub := hpre.subset
    refine ⟨hs.increasing.sublist hpre.sublist, fun f hf => hs.ahead f (hsub hf), ?_, ?_⟩
    · rw [hfact]
      exact fun f hf => hs.counted f (hsub hf)
    · rw [hfact]
      exact hs.reached
  | true =>
    obtain ⟨_, _, _, htook⟩ := step_took ha h
    have hnext : s.factory.sequence < s.factory.sequence + 1 :=
      Wire.EnvelopeFactory.lt_next_sequence (hok ha)
    have hwire := htook.onWire
    rw [htook.taken] at hwire
    have hseq : t.factory.sequence = s.factory.sequence + 1 := by rw [htook.factory]; rfl
    constructor
    · rw [hwire, pairwise_append]
      refine ⟨hs.increasing, pairwise_singleton _ _, ?_⟩
      intro f hf _ hf'
      obtain rfl := mem_singleton.mp hf'
      exact UInt64.lt_of_le_of_lt (hs.counted f hf) hnext
    · rw [hwire]
      exact forall_mem_concat hs.ahead (UInt64.lt_of_le_of_lt hs.reached hnext)
    · rw [hseq, hwire]
      refine forall_mem_concat (fun f hf => ?_) (UInt64.le_refl _)
      exact UInt64.le_of_lt (UInt64.lt_of_le_of_lt (hs.counted f hf) hnext)
    · rw [hseq]
      exact UInt64.le_of_lt (UInt64.lt_of_le_of_lt hs.reached hnext)

section Ids

open scoped List

def usedIds (s : Session ε) : List Bytes :=
  s.onWire.map Wire.Envelope.messageId ++
    (s.dispatch.minted ++ s.writeQueue.items.filterMap messageId)

theorem receive_minted (item : Except (Error ε) Frame) (sends : List OutboundMessage) :
    (s.receive x e item sends).dispatch.minted = [] := by
  unfold receive
  split
  · rfl
  · rfl
  dsimp only
  split
  · rfl
  split
  · rfl
  unfold handleBody
  split
  · split <;> rfl
  · split
    · split <;> rfl
    · rfl
  · split
    · rfl
    · split <;> rfl
  · rfl
  · split <;> rfl
  · rfl

theorem poll_minted {branch} (hdisp : s.dispatch = .selecting branch) (sends : List OutboundMessage)
    (drawn : Option Wire.MessageId) (payload) :
    (s.poll x e branch sends drawn payload).dispatch.minted = s.drawnIds
      (.poll sends drawn payload) := by
  unfold drawnIds
  rw [hdisp]
  unfold poll
  cases branch with
  | inbound =>
    dsimp only
    split
    · exact receive_minted _ sends
    · split <;> rfl
  | commands =>
    dsimp only
    split
    · rename_i c rest hq
      rw [hq]
      cases c <;> rfl
    · rename_i hq
      rw [hq]
      rfl
  | writer =>
    dsimp only
    split <;> rfl
  | liveness => rfl

theorem livenessTick_minted (payload : Bytes) :
    (s.livenessTick e payload).dispatch.minted = [] := by
  unfold livenessTick
  dsimp only
  split
  · rfl
  · split <;> rfl

theorem connect_minted {sends} (h : s.connect x sends = some t) : t.dispatch.minted = [] := by
  unfold connect at h
  split at h
  · cases h
    split <;> rfl
  · cases h
    rfl
  · cases h

theorem teardown_minted (h : s.teardown x = some t) : t.dispatch.minted = [] := by
  unfold teardown at h
  split at h
  · cases h
    rfl
  · cases h
    rfl
  · split at h
    · cases h
      rfl
    split at h
    · cases h
      rfl
    · cases h
  · cases h

theorem expire_minted (h : s.expire = some t) : t.dispatch.minted = [] := by
  unfold expire at h
  split at h
  · obtain ⟨-, h⟩ := ite_none_left_eq_some.mp h
    cases h
    rfl
  · cases h

theorem step_dispatch_same (ha : a.isDispatch = false) (h : s.step x e a = some t) :
    t.dispatch = s.dispatch := by
  cases step_cases h with
  | advance | arrive | deliver | command | offer | tookRequest | tookMessage | wrote | failed
  | stopped | flushed => rfl
  | ended _ _ _ hdisp | moved _ _ _ _ _ _ hdisp => cases ha.symm.trans hdisp
  | _ => cases ha

theorem step_minted (ha : a.isQueueing = false) (h : s.step x e a = some t) :
    (t.dispatch.minted).Sublist (s.dispatch.minted ++ s.drawnIds a) := by
  cases a with
  | connect => exact connect_minted h ▸ nil_sublist _
  | poll =>
    dsimp only [step] at h
    split at h
    · rename_i branch hdisp
      cases h
      rw [poll_minted hdisp]
      exact sublist_append_right _ _
    · cases h
  | tick =>
    dsimp only [step] at h
    split at h
    · cases h
      rw [livenessTick_minted]
      exact nil_sublist _
    · cases h
  | teardown => exact teardown_minted h ▸ nil_sublist _
  | expire => exact expire_minted h ▸ nil_sublist _
  | offer | push | takeRequest | takeMessage => cases ha
  | _ =>
    rw [step_dispatch_same rfl h]
    exact sublist_append_left _ _

theorem step_usedIds (h : s.step x e a = some t) : t.usedIds <+~ s.usedIds ++ s.drawnIds a := by
  obtain ⟨hwrite, -⟩ := step_queues h
  cases ha : a.isTake with
  | true =>
    obtain ⟨item, _, _, htook⟩ := step_took ha h
    have hqueue : s.writeQueue.items.filterMap messageId =
        (request item).messageId.toList ++ t.writeQueue.items.filterMap messageId := by
      rw [htook.requests, takenRequests, htook.taken]
      cases item with
      | inl r =>
        cases hid : r.messageId with
        | _ => simp [request, hid]
      | inr => rfl
    rw [subperm_ext_iff]
    intro _ _
    simp only [usedIds, htook.onWire, htook.taken, htook.ids, htook.dispatch, hqueue, count_append,
      map_append, map_cons, map_nil]
    cases hid : (request item).messageId with
    | none =>
      simp only [frame, build, hid, getD_none, toList_none, count_nil]
      omega
    | some =>
      simp only [frame, hid, getD_some, toList_some]
      omega
  | false =>
    obtain ⟨-, hpre, -⟩ := step_idles ha h
    have hwire := hpre.sublist.map Wire.Envelope.messageId
    have htaken : s.takenRequests a = [] := by rw [takenRequests, taken_of_not_take ha]; rfl
    rw [htaken, nil_append] at hwrite
    have hmint : (t.dispatch.minted ++ t.writeQueue.items.filterMap messageId) <+~
        (s.dispatch.minted ++ s.writeQueue.items.filterMap messageId) ++ s.drawnIds a := by
      rw [hwrite, filterMap_append]
      cases hqueueing : a.isQueueing with
      | false =>
        have hsame := (step_queues_same hqueueing h).1
        have hnone : s.queuedRequests a = [] := by
          rw [hsame, self_eq_append_right] at hwrite
          exact hwrite
        have hcount := fun id => (step_minted hqueueing h).count_le id
        rw [hnone, subperm_ext_iff]
        intro id _
        have hid := hcount id
        simp only [count_append, filterMap_nil, count_nil] at hid ⊢
        omega
      | true =>
        cases a with
        | push =>
          have hcount := fun id => (push_pushed h).minted.count_le id
          rw [subperm_ext_iff]
          intro id _
          have hid := hcount id
          simp only [count_append] at hid ⊢
          omega
        | offer =>
          rw [step_dispatch_same rfl h]
          simp [queuedRequests, drawnIds, List.Subperm.refl]
        | takeRequest | takeMessage => cases ha
        | _ => cases hqueueing
    have hall : t.usedIds <+~ s.onWire.map Wire.Envelope.messageId ++
        ((s.dispatch.minted ++ s.writeQueue.items.filterMap messageId) ++ s.drawnIds a) :=
      hwire.subperm.append hmint
    rwa [← append_assoc] at hall

theorem run_usedIds (hrun : run (step x e) s as = some t) (hs : s.usedIds = []) :
    t.usedIds <+~ emitted (step x e) drawnIds s as := by
  have hkeep : ∀ past (s : Session ε) a t, s.step x e a = some t → s.usedIds <+~ past →
      t.usedIds <+~ past ++ s.drawnIds a := by
    intro _ s a t h hs
    exact (step_usedIds h).trans (hs.append (List.Subperm.refl _))
  have hnil : s.usedIds <+~ [] := hs ▸ List.Subperm.refl []
  exact @emitted_invariant _ _ (step x e) _ s t as drawnIds (fun past s => s.usedIds <+~ past) hkeep
    hrun [] hnil

end Ids

section Inbound

def Call.message : Call → Option OutboundMessage
  | .onMessage m => some m
  | _ => none

def handled (x : Host Fp ε) (e : Established Fp) (env : Frame) : Option OutboundMessage :=
  match env.body with
  | .capabilityMessage m =>
    if m.capabilityId ∈ e.negotiatedCapabilities ∧ x.config.supports m.capabilityId then some m
      else none
  | _ => none

def messages (s : Session ε) : List OutboundMessage := s.calls.filterMap Call.message

theorem handleBody_messages (env : Frame) (sends) :
    (s.handleBody x e env sends).messages = s.messages ++ (handled x e env).toList := by
  unfold handleBody handled
  cases env.body with
  | ping | error =>
    rw [toList_none, append_nil]
    dsimp only
    split <;> rfl
  | pong =>
    rw [toList_none, append_nil]
    dsimp only
    split
    · split <;> rfl
    · rfl
  | capabilityMessage =>
    dsimp only
    split
    · rename_i hneg
      rw [if_neg (fun h => hneg h.1), toList_none, append_nil]
      rfl
    rename_i hneg
    split
    · rename_i hsupp
      rw [if_pos ⟨not_not.mp hneg, hsupp⟩]
      exact filterMap_append
    · rename_i hsupp
      rw [if_neg (fun h => hsupp h.2), toList_none, append_nil]
      rfl
  | _ =>
    rw [toList_none, append_nil]
    rfl

theorem receive_messages (item : Except (Error ε) Frame) (sends : List OutboundMessage) :
    (s.receive x e item sends).messages = s.messages ++
      (item.toOption.toList.filter (Admits e s)).filterMap (handled x e) := by
  unfold receive
  split
  · exact (append_nil _).symm
  · exact (append_nil _).symm
  rename_i env
  dsimp only
  split
  · rename_i hvers
    have hnot : ¬ Admits e s env := fun h => hvers h.1
    simp only [Except.toOption, toList_some, filter_singleton, hnot, decide_false, cond_false,
      filterMap_nil, append_nil]
    rfl
  rename_i hvers
  split
  · rename_i refusal href
    have hnot : ¬ Admits e s env := by
      intro h
      have hok := h.2
      rw [href] at hok
      cases hok
    simp only [Except.toOption, toList_some, filter_singleton, hnot, decide_false, cond_false,
      filterMap_nil, append_nil]
    rfl
  · rename_i guard hadm
    have hadmits : Admits e s env := ⟨not_not.mp hvers, by rw [hadm]; rfl⟩
    rw [handleBody_messages]
    simp only [Except.toOption, toList_some, filter_singleton, hadmits, decide_true, cond_true]
    rfl

def waiting (s : Session ε) : List Frame :=
  s.inbound.items.filterMap Except.toOption ++ (match s.reader with
    | .holding item => item.toOption.toList
    | _ => [])

theorem waiting_of_same (hinb : t.inbound = s.inbound) (hread : t.reader = s.reader) :
    t.waiting = s.waiting := by
  rw [waiting, waiting, hinb, hread]

theorem reacts_waiting (h : Reacts e s t) : t.waiting = s.waiting := by
  cases h with
  | _ => exact waiting_of_same rfl rfl

theorem poll_inbound {branch} (hdisp : s.dispatch = .selecting branch)
    (sends : List OutboundMessage) (drawn : Option Wire.MessageId) (payload) :
    (s.poll x e branch sends drawn payload).messages = s.messages ++
      (accepted e s (.poll sends drawn payload)).filterMap (handled x e) ∧
      (accepted e s (.poll sends drawn payload) ++
      (s.poll x e branch sends drawn payload).waiting).Sublist s.waiting := by
  unfold accepted
  rw [hdisp]
  unfold poll
  cases branch with
  | inbound =>
    cases hq : s.inbound.recv with
    | some p =>
      obtain ⟨item, _⟩ := p
      refine ⟨receive_messages item sends, ?_⟩
      rw [reacts_waiting (receive_reacts item sends), waiting, waiting, recv_eq_some hq,
        ← append_assoc]
      refine List.Sublist.append ?_ (List.Sublist.refl _)
      cases item with
      | error => exact List.Sublist.refl _
      | ok => exact filter_sublist.append (List.Sublist.refl _)
    | none =>
      dsimp only
      rw [filterMap_nil, append_nil]
      split <;> exact ⟨rfl, List.Sublist.refl _⟩
  | commands =>
    dsimp only
    rw [filterMap_nil, append_nil]
    split
    · rename_i c rest hq
      cases c <;> exact ⟨rfl, List.Sublist.refl _⟩
    · exact ⟨rfl, List.Sublist.refl _⟩
  | writer =>
    dsimp only
    rw [filterMap_nil, append_nil]
    split <;> exact ⟨rfl, List.Sublist.refl _⟩
  | liveness =>
    rw [filterMap_nil, append_nil]
    exact ⟨rfl, List.Sublist.refl _⟩

theorem livenessTick_messages (payload : Bytes) :
    (s.livenessTick e payload).messages = s.messages := by
  unfold livenessTick
  dsimp only
  split
  · rfl
  · split <;> rfl

theorem step_messages_same (h : s.step x e a = some t)
    (ha : ∀ sends drawn payload, a ≠ .poll sends drawn payload) : t.messages = s.messages := by
  cases step_cases h with
  | connected | established | closed => exact filterMap_append.trans (append_nil _)
  | received sends drawn payload | commanded sends drawn payload | joined sends drawn payload =>
    exact absurd rfl (ha sends drawn payload)
  | ticked payload t hdisp =>
    dsimp only [step] at h
    rw [hdisp] at h
    cases h
    exact livenessTick_messages payload
  | disconnected =>
    split
    · exact filterMap_append.trans (append_nil _)
    · rfl
  | _ => rfl

theorem step_waiting_same (h : s.step x e a = some t)
    (ha : ∀ sends drawn payload, a ≠ .poll sends drawn payload) :
    (t.waiting).Sublist (s.waiting ++ arrived a) := by
  have hsame : t.waiting = s.waiting → (t.waiting).Sublist (s.waiting ++ arrived a) := by
    intro hsame
    rw [hsame]
    exact sublist_append_left _ _
  cases step_cases h with
  | arrive item hread =>
    have hwas : s.waiting = s.inbound.items.filterMap Except.toOption :=
      by rw [waiting, hread, append_nil]
    rw [hwas]
    cases item with
    | _ => exact List.Sublist.refl _
  | deliver item q hread hq =>
    have hwas : s.waiting = s.inbound.items.filterMap Except.toOption ++ item.toOption.toList := by
      rw [waiting, hread]
    rw [hwas, waiting, send_eq_some hq, filterMap_append]
    cases item with
    | _ => exact List.Sublist.refl _
  | received sends drawn payload | commanded sends drawn payload | joined sends drawn payload =>
    exact absurd rfl (ha sends drawn payload)
  | ticked _ t _ hreact => exact hsame (reacts_waiting hreact)
  | disconnected =>
    apply hsame
    split <;> exact waiting_of_same rfl rfl
  | closed =>
    -- The reader is aborted, and what it held goes with it.
    rw [waiting, waiting, append_assoc]
    exact (List.Sublist.refl _).append (nil_sublist _)
  | _ => exact hsame (waiting_of_same rfl rfl)

theorem step_inbound (h : s.step x e a = some t) :
    t.messages = s.messages ++ (accepted e s a).filterMap (handled x e) ∧
      (accepted e s a ++ t.waiting).Sublist (s.waiting ++ arrived a) := by
  cases a with
  | poll sends drawn payload =>
    dsimp only [step] at h
    split at h
    · rename_i branch hdisp
      cases h
      obtain ⟨hmess, hwait⟩ := @poll_inbound _ _ x e s _ hdisp sends drawn payload
      exact ⟨hmess, hwait.trans (sublist_append_left _ _)⟩
    · cases h
  | _ =>
    have hmess := step_messages_same h nofun
    exact ⟨hmess.trans (append_nil _).symm, step_waiting_same h nofun⟩

theorem run_messages (hrun : run (step x e) s as = some t) (hs : s.messages = []) :
    t.messages = (emitted (step x e) (accepted e) s as).filterMap (handled x e) := by
  have hkeep : ∀ past (s : Session ε) a t, s.step x e a = some t →
      s.messages = past.filterMap (handled x e) → t.messages = (past ++ accepted e s a).filterMap
      (handled x e) := by
    intro _ s a t h hs
    rw [(step_inbound h).1, hs, filterMap_append]
  exact @emitted_invariant _ _ (step x e) _ s t as (accepted e)
    (fun past s => s.messages = past.filterMap (handled x e)) hkeep hrun [] hs

theorem run_waiting (hrun : run (step x e) s as = some t) (hs : s.waiting = []) :
    (emitted (step x e) (accepted e) s as).Sublist
      (emitted (step x e) (fun _ => arrived) s as) := by
  have hall := emitted_sublist (step x e) (fun _ _ _ h => (step_inbound h).2) hrun
  rw [hs, nil_append] at hall
  exact (sublist_append_left _ _).trans hall

end Inbound

end Session

end Desktop

end OmniBridge
