import OmniBridge.Run
import OmniBridge.Slots

/-! One session's wire from the phone to the desktop. An envelope takes its
sequence number when it is built, is queued in a later step and is written in
queue order; the desktop's replay guard reads what was written. -/

namespace OmniBridge.Wire

open List Option

scoped instance lawfulBEqBytes : LawfulBEq (List UInt8) := inferInstance

def MESSAGE_ID_LENGTH : Nat := 16
def DEDUP_WINDOW : Nat := 1024

structure MessageId where
  bytes : List UInt8
  length_eq : bytes.length = MESSAGE_ID_LENGTH

structure Envelope (Body : Type) where
  protocolVersion : Nat
  messageId : List UInt8
  sequence : UInt64
  timestampUnixMs : Nat
  correlationId : List UInt8
  body : Body

structure EnvelopeFactory where
  protocolVersion : Nat
  sequence : UInt64 := 0

namespace EnvelopeFactory

variable {Body : Type}

def build (id : MessageId) (now : Nat) (body : Body) (f : EnvelopeFactory) :
    Envelope Body × EnvelopeFactory :=
  let sequence := f.sequence + 1
  (⟨f.protocolVersion, id.bytes, sequence, now, [], body⟩, { f with sequence := sequence })

def buildReply (correlate : List UInt8) (id : MessageId) (now : Nat) (body : Body)
    (f : EnvelopeFactory) : Envelope Body × EnvelopeFactory :=
  let (e, f) := f.build id now body
  ({ e with correlationId := correlate }, f)

theorem lt_next_sequence {n : UInt64} (h : n.toNat + 1 < 2 ^ 64) : n < n + 1 := by
  have hone : (1 : UInt64).toNat = 1 := rfl
  rw [UInt64.lt_iff_toNat_lt, UInt64.toNat_add]
  omega

end EnvelopeFactory

inductive Refusal where
  | idLength
  | sequence
  | duplicate
deriving DecidableEq

def Refusal.message : Refusal → String
  | .idLength => "message_id must be 16 bytes"
  | .sequence => "sequence number did not increase"
  | .duplicate => "duplicate message_id"

structure ReplayGuard where
  lastSequence : UInt64 := 0
  seen : Finset (List UInt8) := ∅
  order : List (List UInt8) := []

namespace ReplayGuard

variable {Body : Type}

/-- The part of `admit` after its checks: the id enters the window, the oldest may leave it. -/
def record (e : Envelope Body) (g : ReplayGuard) : ReplayGuard :=
  let seen := insert e.messageId g.seen
  let order := g.order ++ [e.messageId]
  if DEDUP_WINDOW < order.length then
    ⟨e.sequence, order.head?.elim seen seen.erase, order.tail⟩
  else ⟨e.sequence, seen, order⟩

def admitEnvelope (e : Envelope Body) (g : ReplayGuard) : Except Refusal ReplayGuard :=
  if e.messageId.length ≠ MESSAGE_ID_LENGTH then .error .idLength
  else if e.sequence ≤ g.lastSequence then .error .sequence
  else if e.messageId ∈ g.seen then .error .duplicate
  else .ok (g.record e)

theorem admitEnvelope_ok {g : ReplayGuard} {e : Envelope Body}
    (hlen : e.messageId.length = MESSAGE_ID_LENGTH) (hseq : g.lastSequence < e.sequence)
    (hid : e.messageId ∉ g.seen) : g.admitEnvelope e = .ok (g.record e) := by
  have hle : ¬ e.sequence ≤ g.lastSequence := UInt64.not_le.mpr hseq
  simp only [admitEnvelope, hlen, ne_eq, not_true_eq_false, if_false, hle, hid]

theorem record_lastSequence (g : ReplayGuard) (e : Envelope Body) :
    (g.record e).lastSequence = e.sequence := by
  unfold record
  dsimp only
  split <;> rfl

theorem record_seen_subset (g : ReplayGuard) (e : Envelope Body) :
    (g.record e).seen ⊆ insert e.messageId g.seen := by
  unfold record
  dsimp only
  split
  · cases (g.order ++ [e.messageId]).head? with
    | none => exact Finset.Subset.refl _
    | some => exact Finset.erase_subset _ _
  · exact Finset.Subset.refl _

end ReplayGuard

/-- The coroutines that send on one session, the channel they send into, the
socket and the desktop's guard at its other end. -/
structure Session (Sender Body : Type) where
  factory : EnvelopeFactory
  building : List (Sender × Envelope Body) := []
  queue : List (Envelope Body) := []
  isOpen : Bool := true
  written : List (Envelope Body) := []
  inTransit : List (Envelope Body) := []
  guard : ReplayGuard := {}
  refusal : Option Refusal := none
  drawn : List (List UInt8) := []

inductive Action (Sender Body : Type) where
  | build (sender : Sender) (id : MessageId) (now : Nat) (body : Body)
  | reply (sender : Sender) (correlate : List UInt8) (id : MessageId) (now : Nat) (body : Body)
  | enqueue (sender : Sender)
  | cancel (sender : Sender)
  | cancelQueued (index : Nat)
  | write
  | receive
  | close

structure Opening (Body : Type) where
  id : MessageId
  now : Nat
  body : Body

namespace Session

variable {Sender Body : Type} [DecidableEq Sender]

/-- A coroutine holds the envelope it has just built; it builds no other before it has sent it. -/
def hold (sender : Sender) (built : Envelope Body × EnvelopeFactory) (s : Session Sender Body) :
    Option (Session Sender Body) :=
  if sender ∈ s.building.map Prod.fst then none
  else some { s with factory := built.2
                     building := s.building ++ [(sender, built.1)]
                     drawn := built.1.messageId :: s.drawn }

section

variable (s : Session Sender Body)

def step : Action Sender Body → Option (Session Sender Body)
  | .build sender id now body => s.hold sender (s.factory.build id now body)
  | .reply sender correlate id now body =>
    s.hold sender (s.factory.buildReply correlate id now body)
  | .enqueue sender =>
    (s.building.find? (fun b => b.1 == sender)).map (fun b =>
      { s with building := s.building.eraseP (fun b => b.1 == sender)
               queue := if s.isOpen then s.queue ++ [b.2] else s.queue })
  | .cancel sender => some { s with building := s.building.eraseP (fun b => b.1 == sender) }
  | .cancelQueued index => some { s with queue := s.queue.eraseIdx index }
  | .write =>
    match s.queue with
    | [] => none
    | e :: rest =>
      some { s with queue := rest, written := s.written ++ [e], inTransit := s.inTransit ++ [e] }
  | .receive =>
    match s.refusal, s.inTransit with
    | none, e :: rest =>
      match s.guard.admitEnvelope e with
      | .ok g => some { s with guard := g, inTransit := rest }
      | .error why => some { s with refusal := some why, inTransit := rest }
    | _, _ => none
  | .close => some { s with isOpen := false }

def sendNow (o : Opening Body) (s : Session Sender Body) : Session Sender Body :=
  let (e, f) := s.factory.build o.id o.now o.body
  { s with factory := f, written := s.written ++ [e], inTransit := s.inTransit ++ [e]
           drawn := e.messageId :: s.drawn }

/-- An established session: HELLO was sent, and PAIR_REQUEST if the desktop asked for one. -/
def start (versionMax version : Nat) (hello : Opening Body) (pairRequest : Option (Opening Body)) :
    Session Sender Body :=
  let s : Session Sender Body := sendNow hello { factory := { protocolVersion := versionMax } }
  let s := { s with factory := { s.factory with protocolVersion := version } }
  match pairRequest with
  | none => s
  | some o => s.sendNow o

/-- An envelope goes into the open channel only when no coroutine still holds an earlier one. -/
def InBuildOrder : Action Sender Body → Prop
  | .enqueue sender => s.isOpen → s.building.head?.map Prod.fst = some sender
  | _ => True

instance (s : Session Sender Body) (a : Action Sender Body) : Decidable (s.InBuildOrder a) := by
  unfold InBuildOrder
  induction a using Action.casesOn <;> infer_instance

def NumberLeft : Action Sender Body → Prop
  | .build .. | .reply .. => s.factory.sequence.toNat + 1 < 2 ^ 64
  | _ => True

instance (s : Session Sender Body) (a : Action Sender Body) : Decidable (s.NumberLeft a) := by
  unfold NumberLeft
  induction a using Action.casesOn <;> infer_instance

def FreshId : Action Sender Body → Prop
  | .build _ id _ _ | .reply _ _ id _ _ => id.bytes ∉ s.drawn
  | _ => True

instance (s : Session Sender Body) (a : Action Sender Body) : Decidable (s.FreshId a) := by
  unfold FreshId
  induction a using Action.casesOn <;> infer_instance

def outgoing : List (Envelope Body) := s.queue ++ s.building.map Prod.snd

def unread : List (Envelope Body) := s.inTransit ++ s.outgoing

end

/-- An envelope the guard has not read and will admit when its turn comes. -/
structure Awaited (s : Session Sender Body) (e : Envelope Body) : Prop where
  ahead : s.guard.lastSequence < e.sequence
  wellFormed : e.messageId.length = MESSAGE_ID_LENGTH
  unseen : e.messageId ∉ s.guard.seen
  drawn : e.messageId ∈ s.drawn

structure Ordered (s : Session Sender Body) : Prop where
  increasing : (s.written ++ s.outgoing).Pairwise (fun a b => a.sequence < b.sequence)
  counted : ∀ e ∈ s.written ++ s.outgoing, e.sequence ≤ s.factory.sequence
  transit : s.inTransit <:+ s.written
  reached : s.guard.lastSequence ≤ s.factory.sequence
  awaited : ∀ e ∈ s.unread, s.Awaited e
  distinct : (s.unread.map Envelope.messageId).Nodup
  seenDrawn : ∀ id ∈ s.guard.seen, id ∈ s.drawn
  admitted : s.refusal = none

variable {e : Envelope Body} {s t : Session Sender Body}

omit [DecidableEq Sender] in
theorem Ordered.sublist (h : s.Ordered) {building : List (Sender × Envelope Body)}
    {queue : List (Envelope Body)} (isOpen : Bool)
    (hsub : (queue ++ building.map Prod.snd).Sublist s.outgoing) :
    Ordered { s with building := building, queue := queue, isOpen := isOpen } := by
  have hunr : (s.inTransit ++ (queue ++ building.map Prod.snd)).Sublist s.unread :=
    (List.Sublist.refl s.inTransit).append hsub
  have hall : (s.written ++ (queue ++ building.map Prod.snd)).Sublist (s.written ++ s.outgoing) :=
    (List.Sublist.refl s.written).append hsub
  exact { h with
    increasing := h.increasing.sublist hall
    counted := fun e he => h.counted e (hall.subset he)
    awaited := fun e he => { h.awaited e (hunr.subset he) with }
    distinct := h.distinct.sublist (hunr.map _) }

omit [DecidableEq Sender] in
theorem Ordered.extend (h : s.Ordered) {f : EnvelopeFactory}
    {building : List (Sender × Envelope Body)}
    {written inTransit}
    (hall : written ++ (s.queue ++ building.map Prod.snd) = s.written ++ s.outgoing ++ [e])
    (hunr : inTransit ++ (s.queue ++ building.map Prod.snd) = s.unread ++ [e])
      (htran : inTransit <:+ written)
    (hseq : f.sequence = e.sequence) (hnum : s.factory.sequence < e.sequence)
    (hlen : e.messageId.length = MESSAGE_ID_LENGTH) (hfresh : e.messageId ∉ s.drawn) :
    Ordered { s with factory := f, building := building, written := written, inTransit := inTransit
                     drawn := e.messageId :: s.drawn } := by
  have hlt (n : UInt64) (hn : n ≤ s.factory.sequence) : n < e.sequence :=
    UInt64.lt_of_le_of_lt hn hnum
  refine ⟨?_, ?_, htran, ?_, ?_, ?_, fun id hid => mem_cons_of_mem _ (h.seenDrawn id hid),
    h.admitted⟩
  · refine hall ▸ pairwise_append.mpr ⟨h.increasing, pairwise_singleton _ _, ?_⟩
    intro a ha b hb
    obtain rfl := mem_singleton.mp hb
    exact hlt _ (h.counted a ha)
  · rw [hseq]
    refine hall ▸ forall_mem_concat (fun a ha => ?_) (UInt64.le_refl _)
    exact UInt64.le_of_lt (hlt _ (h.counted a ha))
  · rw [hseq]
    exact UInt64.le_of_lt (hlt _ h.reached)
  · change ∀ a ∈ inTransit ++ (s.queue ++ building.map Prod.snd), _
    refine hunr ▸ forall_mem_concat (fun a ha => ?_) ?_
    · exact { h.awaited a ha with drawn := mem_cons_of_mem _ (h.awaited a ha).drawn }
    · exact ⟨hlt _ h.reached, hlen, fun hseen => hfresh (h.seenDrawn _ hseen), mem_cons_self⟩
  · change ((inTransit ++ (s.queue ++ building.map Prod.snd)).map _).Nodup
    rw [hunr, map_append, nodup_append]
    refine ⟨h.distinct, nodup_singleton _, ?_⟩
    intro _ hid id' hid' heq
    obtain ⟨a, ha, rfl⟩ := mem_map.mp hid
    obtain rfl : id' = e.messageId := by simpa using hid'
    exact hfresh (heq ▸ (h.awaited a ha).drawn)

theorem Ordered.hold (h : s.Ordered) {sender : Sender} {f : EnvelopeFactory}
    (hs : s.hold sender (e, f) = some t) (hnum : s.factory.sequence < e.sequence)
    (hseq : f.sequence = e.sequence) (hlen : e.messageId.length = MESSAGE_ID_LENGTH)
    (hfresh : e.messageId ∉ s.drawn) : t.Ordered := by
  unfold Session.hold at hs
  split at hs
  · cases hs
  cases hs
  refine h.extend ?_ ?_ h.transit hseq hnum hlen hfresh
  · simp [outgoing]
  · simp [unread, outgoing]

section

omit [DecidableEq Sender]

theorem Ordered.sendNow (h : s.Ordered) (hout : s.outgoing = []) (o : Opening Body)
    (hnum : s.factory.sequence < s.factory.sequence + 1) (hfresh : o.id.bytes ∉ s.drawn) :
    (s.sendNow o).Ordered := by
  obtain ⟨got, hgot⟩ := h.transit
  refine h.extend (e := (s.factory.build o.id o.now o.body).1) ?_ ?_ ?_ rfl hnum o.id.length_eq
    hfresh
  · change _ ++ s.outgoing = _
    rw [hout, append_nil, append_nil]
    rfl
  · change _ ++ s.outgoing = s.inTransit ++ s.outgoing ++ _
    rw [hout, append_nil, append_nil]
    rfl
  · exact ⟨got, by simp [← hgot]⟩

theorem Ordered.write (h : s.Ordered) {rest} (hq : s.queue = e :: rest) :
    Ordered { s with
      queue := rest, written := s.written ++ [e], inTransit := s.inTransit ++ [e] } := by
  have hout : s.outgoing = e :: (rest ++ s.building.map Prod.snd) := by simp [outgoing, hq]
  have hall : s.written ++ [e] ++ (rest ++ s.building.map Prod.snd) = s.written ++ s.outgoing :=
    by simp [hout]
  have hunr : s.inTransit ++ [e] ++ (rest ++ s.building.map Prod.snd) = s.unread :=
    by simp [unread, hout]
  obtain ⟨got, hgot⟩ := h.transit
  exact { h with
    increasing := hall ▸ h.increasing
    counted := hall ▸ h.counted
    transit := ⟨got, by simp [← hgot]⟩
    awaited := fun a ha => { h.awaited a (hunr ▸ ha) with }
    distinct := (congrArg (fun es => (es.map Envelope.messageId).Nodup) hunr).mpr h.distinct }

theorem Ordered.receive (h : s.Ordered) {rest : List (Envelope Body)}
    (hr : s.inTransit = e :: rest) :
    s.guard.admitEnvelope e = .ok (s.guard.record e) ∧
      Ordered { s with guard := s.guard.record e, inTransit := rest } := by
  have hunr : s.unread = e :: (rest ++ s.outgoing) := by simp [unread, hr]
  have he := h.awaited e (by simp [hunr])
  have hseen := s.guard.record_seen_subset e
  obtain ⟨got, hgot⟩ := h.transit
  rw [hr] at hgot
  refine ⟨s.guard.admitEnvelope_ok he.wellFormed he.ahead he.unseen, ?_⟩
  have hafter : ∀ a ∈ rest ++ s.outgoing, e.sequence < a.sequence := by
    have hp := h.increasing
    rw [← hgot, append_assoc, cons_append, pairwise_append] at hp
    exact (pairwise_cons.mp hp.2.1).1
  have hdist := h.distinct
  rw [hunr, map_cons, nodup_cons] at hdist
  constructor
  · exact h.increasing
  · exact h.counted
  · exact ⟨got ++ [e], by simp [← hgot]⟩
  · rw [ReplayGuard.record_lastSequence]
    apply h.counted
    simp [← hgot]
  · intro a ha
    obtain ⟨-, hlen, huns, hdrawn⟩ := h.awaited a (hunr ▸ mem_cons_of_mem _ ha)
    refine ⟨?_, hlen, ?_, hdrawn⟩
    · rw [ReplayGuard.record_lastSequence]
      exact hafter a ha
    · intro hmem
      rcases Finset.mem_insert.mp (hseen hmem) with heq | hmem
      · exact hdist.1 (heq ▸ mem_map_of_mem ha)
      · exact huns hmem
  · exact hdist.2
  · intro id hid
    rcases Finset.mem_insert.mp (hseen hid) with rfl | hid
    · exact he.drawn
    · exact h.seenDrawn id hid
  · exact h.admitted

end

theorem step_ordered {a : Action Sender Body}
    (hok : s.InBuildOrder a ∧ s.NumberLeft a ∧ s.FreshId a) (hstep : s.step a = some t)
    (h : s.Ordered) : t.Ordered := by
  obtain ⟨horder, hnum, hfresh⟩ := hok
  cases a with
  | build _ id | reply _ _ id =>
    exact h.hold hstep (EnvelopeFactory.lt_next_sequence hnum) rfl id.length_eq hfresh
  | enqueue sender =>
    simp only [step, map_eq_some_iff] at hstep
    obtain ⟨b, hb, rfl⟩ := hstep
    have hsub := (s.building.eraseP_sublist (p := fun b => b.1 == sender)).map Prod.snd
    cases hopen : s.isOpen with
    | false => exact h.sublist _ ((List.Sublist.refl _).append hsub)
    | true =>
      apply h.sublist
      cases hbuild : s.building with
      | nil => simp [hbuild] at hb
      | cons c =>
        have hc : c.1 = sender := by simpa [hbuild] using horder hopen
        obtain rfl : c = b := by simpa [hbuild, hc] using hb
        simp [outgoing, hbuild, hc]
  | cancel =>
    cases hstep
    exact h.sublist _ ((List.Sublist.refl _).append (eraseP_sublist.map Prod.snd))
  | cancelQueued =>
    cases hstep
    exact h.sublist _ ((eraseIdx_sublist _ _).append (List.Sublist.refl _))
  | write =>
    simp only [step] at hstep
    split at hstep
    · cases hstep
    · next hq =>
      cases hstep
      exact h.write hq
  | receive =>
    simp only [step] at hstep
    split at hstep
    · next hr =>
      obtain ⟨hpass, ht⟩ := h.receive hr
      rw [hpass] at hstep
      cases hstep
      exact ht
    · cases hstep
  | close =>
    cases hstep
    exact h.sublist _ (List.Sublist.refl _)

omit [DecidableEq Sender] in
theorem start_ordered (versionMax version : Nat) (hello : Opening Body) (pairRequest)
    (hids : ∀ o ∈ pairRequest, o.id.bytes ≠ hello.id.bytes) :
    (start versionMax version hello pairRequest : Session Sender Body).Ordered := by
  have hempty (f : EnvelopeFactory) : Ordered ({ factory := f } : Session Sender Body) := by
    constructor <;> simp [outgoing, unread]
  have hfirst : (0 : UInt64) < 0 + 1 := by decide
  have hsec : (0 + 1 : UInt64) < 0 + 1 + 1 := by decide
  have hhello := (hempty { protocolVersion := versionMax }).sendNow rfl hello hfirst not_mem_nil
  have hest : (start versionMax version hello none : Session Sender Body).Ordered := by
    refine ⟨hhello.increasing, hhello.counted, hhello.transit, hhello.reached, ?_,
      hhello.distinct, hhello.seenDrawn, hhello.admitted⟩
    intro e he
    obtain ⟨hahead, hlen, hseen, hdrawn⟩ := hhello.awaited e he
    exact ⟨hahead, hlen, hseen, hdrawn⟩
  cases pairRequest with
  | none => exact hest
  | some o =>
    refine hest.sendNow rfl o hsec ?_
    simpa [start, Session.sendNow, EnvelopeFactory.build] using hids o rfl

/-- With envelopes sent in the order they were built, numbers left and fresh ids, the desktop
refuses none of what is written. -/
theorem written_increasing_and_admitted (versionMax version : Nat) (hello : Opening Body)
    (pairRequest : Option (Opening Body)) (as : List (Action Sender Body)) {t : Session Sender Body}
    (hids : ∀ o ∈ pairRequest, o.id.bytes ≠ hello.id.bytes)
    (hrun : run step (start versionMax version hello pairRequest) as = some t)
    (hok : Meets step (fun s a => s.InBuildOrder a ∧ s.NumberLeft a ∧ s.FreshId a)
      (start versionMax version hello pairRequest) as) :
    t.written.Pairwise (fun a b => a.sequence < b.sequence) ∧ t.refusal = none := by
  have hord : t.Ordered :=
    run_invariant step (fun _ _ _ => step_ordered) hrun hok
      (start_ordered versionMax version hello pairRequest hids)
  exact ⟨(pairwise_append.mp hord.increasing).1, hord.admitted⟩

def constantId (byte : UInt8) : MessageId := ⟨replicate 16 byte, length_replicate⟩

/-- Sender `1` and the read loop `0` take numbers before either has queued. -/
def racing (first second : Nat) : List (Action Nat String) :=
  [.build 1 (constantId 1) 10 "clipboard", .reply 0 [9] (constantId 2) 10 "pong",
    .enqueue first, .enqueue second, .write, .write, .receive, .receive, .receive]

theorem written_increasing_in_build_order :
    ∃ t, run step (start 1 1 ⟨constantId 0, 5, "hello"⟩ none) (racing 1 0) = some t ∧
      t.written.map Envelope.sequence = [1, 2, 3] ∧
      t.written.Pairwise (fun a b => a.sequence < b.sequence) ∧ t.refusal = none :=
  ⟨_, rfl, by decide, written_increasing_and_admitted 1 1 ⟨constantId 0, 5, "hello"⟩ none
    (racing 1 0) (by simp) rfl (by decide)⟩

theorem pong_overtakes_sender :
    Meets step (fun s a => s.NumberLeft a ∧ s.FreshId a) (start 1 1 ⟨constantId 0, 5, "hello"⟩ none)
      (racing 0 1) ∧ (run step (start 1 1 ⟨constantId 0, 5, "hello"⟩ none) (racing 0 1)).map
      (fun t => (t.written.map (fun e => (e.body, e.sequence)), t.refusal)) =
      some ([("hello", 1), ("pong", 3), ("clipboard", 2)], some .sequence) := by
  decide

end Session

end OmniBridge.Wire
