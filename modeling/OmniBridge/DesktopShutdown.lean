import OmniBridge.DesktopSession

/-! How long a peer can hold off a shutdown. The loop drains what is inbound before it
looks at its commands, and what it answers goes into queues that only the peer empties;
both are bounded where the peer neither keeps sending nor stops reading. -/

namespace OmniBridge.Desktop

open Channel

namespace Session

variable {Fp ε : Type} {x : Host Fp ε} {e : Established Fp} {s t : Session ε} {a : Action ε}

def Reader.held : Reader ε → Nat
  | .holding _ => 1
  | _ => 0

def pending (s : Session ε) : Nat := s.inbound.items.length + s.reader.held

def leavesRoom (s : Session ε) : Bool :=
  match s.dispatch with
  | .sending _ _ => s.writeQueue.items.length + 1 < WRITE_QUEUE
  | .handling (_ :: _) | .greeting (_ :: _) _ => s.capQueue.items.length + 1 < CAPABILITY_QUEUE
  | _ => true

/-- While the loop runs, the peer completes a frame only where no more than the queue and
the reader hold would be handled after a shutdown, no queue fills during a write, and the
writer takes nothing from one queue while the other is full. -/
def Paced (s : Session ε) (a : Action ε) : Prop :=
  s.dispatch.isLeaving = false →
    match a with
    | .arrive _ => ∀ n ∈ s.sinceShutdown, n + s.pending < INBOUND_QUEUE + 1
    | .push => s.writer.isBusy → s.leavesRoom
    | .offer _ => s.writer.isBusy → s.capQueue.items.length + 1 < CAPABILITY_QUEUE
    | .takeRequest _ _ => s.capQueue.items.length < CAPABILITY_QUEUE
    | .takeMessage _ _ => s.writeQueue.items.length < WRITE_QUEUE
    | _ => True

instance (s : Session ε) (a : Action ε) : Decidable (s.Paced a) := by
  unfold Paced
  induction a using Action.casesOn <;> infer_instance

def Stuck (x : Host Fp ε) (e : Established Fp) (s : Session ε) : Prop :=
  s.dispatch.isLeaving = false ∧ ∀ a : Action ε, a.isLocal → s.step x e a = none

/-- What bounds the delay: what is pending is counted with what was handled, and a write
in progress leaves room in both queues. -/
structure Timely (s : Session ε) : Prop where
  handled : ∀ n ∈ s.sinceShutdown, n ≤ INBOUND_QUEUE + 1
  pending : ∀ n ∈ s.sinceShutdown, s.dispatch.isLeaving = false → n + s.pending ≤ INBOUND_QUEUE + 1
  room : s.dispatch.isLeaving = false → s.writer.isBusy →
    s.writeQueue.items.length < WRITE_QUEUE ∧ s.capQueue.items.length < CAPABILITY_QUEUE
  writing : s.dispatch.isLeaving = false → s.writeOpen

namespace Timely

theorem of_leaving (hs : s.Timely) (hsince : t.sinceShutdown = s.sinceShutdown)
    (ht : t.dispatch.isLeaving) : t.Timely where
  handled := by
    rw [hsince]
    exact hs.handled
  pending n _ hin := absurd hin (by simp [ht])
  room hin := absurd hin (by simp [ht])
  writing hin := absurd hin (by simp [ht])

section

variable (hs : s.Timely) (hin : s.dispatch.isLeaving = false)
include hs hin

theorem enter (d : Dispatch ε) : (s.enter d).Timely :=
  ⟨hs.handled, fun n hn _ => hs.pending n hn hin, fun _ => hs.room hin, fun _ => hs.writing hin⟩

theorem reacts (h : Reacts e s t) : t.Timely := by
  cases h with
  | stays => exact { hs.enter hin _ with }
  | leaves => exact hs.of_leaving rfl rfl

theorem received {item q} (hq : s.inbound.recv = some (item, q)) :
    { s with inbound := q, sinceShutdown := s.sinceShutdown.map (· + 1) }.Timely := by
  have hlen := length_recv hq
  have hcount : ∀ n ∈ s.sinceShutdown.map (· + 1), n + (q.items.length + s.reader.held) ≤
      INBOUND_QUEUE + 1 := by
    intro n hn
    obtain ⟨m, hm, rfl⟩ := Option.map_eq_some_iff.mp hn
    have hle := hs.pending m hm hin
    unfold Session.pending at hle
    omega
  constructor
  · intro n hn
    have hle := hcount n hn
    omega
  · intro n hn _
    exact hcount n hn
  · exact hs.room
  · exact hs.writing

end

theorem command {c q} (hs : s.Timely) :
    { s with
      commands := q
      sinceShutdown := if c = Command.shutdown then s.sinceShutdown.or (some 0)
        else s.sinceShutdown }.Timely := by
  have hsince : ∀ n ∈ (if c = Command.shutdown then s.sinceShutdown.or (some 0)
      else s.sinceShutdown), n ∈ s.sinceShutdown ∨ n = 0 := by
    intro n hn
    split at hn
    · cases hold : s.sinceShutdown with
      | none =>
        rw [hold] at hn
        exact .inr (Option.some.inj hn).symm
      | some =>
        rw [hold] at hn
        exact .inl hn
    · exact .inl hn
  have hpend : s.pending ≤ INBOUND_QUEUE + 1 := by
    have hfits := s.inbound.fits
    have hheld : s.reader.held ≤ 1 := by
      cases s.reader with
      | holding => exact le_rfl
      | _ => exact Nat.zero_le 1
    unfold Session.pending
    omega
  constructor
  · intro n hn
    rcases hsince n hn with hold | rfl
    · exact hs.handled n hold
    · exact Nat.zero_le _
  · intro n hn hin
    rcases hsince n hn with hold | rfl
    · exact hs.pending n hold hin
    · rw [Nat.zero_add]
      exact hpend
  · exact hs.room
  · exact hs.writing

theorem arrive {item} (hs : s.Timely) (hpaced : s.Paced (.arrive item)) :
    { s with reader := .holding item }.Timely := by
  constructor
  · exact hs.handled
  · intro n hn hin
    have hlt := hpaced hin n hn
    unfold Session.pending at hlt ⊢
    change n + (s.inbound.items.length + 1) ≤ INBOUND_QUEUE + 1
    omega
  · exact hs.room
  · exact hs.writing

end Timely

open Dispatch

theorem step_timely (hpaced : s.Paced a) (h : s.step x e a = some t) (hs : s.Timely) :
    t.Timely := by
  cases step_cases h with
  | advance => exact { hs with }
  | arrive => exact hs.arrive hpaced
  | deliver _ q hread hq =>
    refine { hs with pending := fun n hn hin => ?_ }
    have hlen := length_send hq
    have hle := hs.pending n hn hin
    rw [pending, hread] at hle
    rw [pending, hlen]
    split <;> exact hle
  | command => exact hs.command
  | offer m q _ hq =>
    refine ⟨hs.handled, hs.pending, fun hin hbusy => ?_, hs.writing⟩
    have hroom := hpaced hin hbusy
    have hlen := length_send hq
    exact ⟨(hs.room hin hbusy).1, by dsimp only; omega⟩
  | connected _ _ _ hdisp => exact { hs.enter (in_of_eq hdisp rfl) _ with }
  | established _ hdisp => exact { hs.enter (in_of_eq hdisp rfl) _ with }
  | received _ _ _ _ q t hdisp hq hreact =>
    have hin := in_of_eq hdisp rfl
    exact (hs.received hin hq).reacts hin hreact
  | commanded _ _ _ c q t hdisp _ hreact =>
    have hs' : { s with commands := q }.Timely := { hs with }
    exact hs'.reacts (in_of_eq hdisp rfl) hreact
  | ticked _ t hdisp hreact => exact hs.reacts (in_of_eq hdisp rfl) hreact
  | ended | joined | closed | panicked | drained | expired => exact hs.of_leaving rfl rfl
  | moved a d hin => exact hs.enter hin d
  | pushedRequest _ _ _ q hdisp _ hq =>
    have hin := in_of_eq hdisp rfl
    refine ⟨hs.handled, fun n hn _ => hs.pending n hn hin, fun _ hbusy => ?_,
      fun _ => hs.writing hin⟩
    have hroom := hpaced hin hbusy
    rw [leavesRoom, hdisp] at hroom
    have hlt := of_decide_eq_true hroom
    have hlen := length_send hq
    exact ⟨by dsimp only; omega, (hs.room hin hbusy).2⟩
  | pushedMessage m d q hsends _ hq =>
    obtain ⟨hin, -, -, -⟩ := hsends.place
    refine ⟨hs.handled, fun n hn _ => hs.pending n hn hin, fun _ hbusy => ?_,
      fun _ => hs.writing hin⟩
    have hroom := hpaced hin hbusy
    have hlt : s.capQueue.items.length + 1 < CAPABILITY_QUEUE := by
      unfold leavesRoom at hroom
      generalize s.dispatch = old at hsends hroom
      cases hsends with
      | _ => exact of_decide_eq_true hroom
    have hlen := length_send hq
    exact ⟨(hs.room hin hbusy).1, by dsimp only; omega⟩
  | tookRequest _ _ _ q _ hq =>
    have hlen := length_recv hq
    have hfits := s.writeQueue.fits
    refine ⟨hs.handled, hs.pending, fun hin _ => ?_, hs.writing⟩
    have hroom := hpaced hin
    exact ⟨by change q.items.length < WRITE_QUEUE; omega, hroom⟩
  | tookMessage _ _ m q _ hq =>
    have hlen := length_recv hq
    have hfits := s.capQueue.fits
    refine ⟨hs.handled, hs.pending, fun hin _ => ?_, hs.writing⟩
    have hroom := hpaced hin
    exact ⟨hroom, by change q.items.length < CAPABILITY_QUEUE; omega⟩
  | wrote | flushed => exact { hs with room := fun _ => nofun }
  | failed _ _ hwr =>
    have hbusy : s.writer.isBusy := by rw [hwr]; rfl
    exact { hs with room := fun hin _ => hs.room hin hbusy }
  | stopped _ hopen =>
    refine ⟨hs.handled, hs.pending, fun hin => ?_, hs.writing⟩
    have hwrit := hs.writing hin
    rw [hopen] at hwrit
    cases hwrit
  | disconnected => split <;> exact hs.of_leaving rfl rfl

theorem Timely.not_stuck (hs : s.Timely) : ¬ s.Stuck x e := by
  rintro ⟨hin, hstuck⟩
  have hpush := hstuck .push rfl
  have hreq := hstuck (.takeRequest none 0) rfl
  have hmess := hstuck (.takeMessage none 0) rfl
  have hidle : s.writer.isGone = false → s.writeQueue.items.length = WRITE_QUEUE ∨
      s.capQueue.items.length = CAPABILITY_QUEUE → s.writer = .idle := by
    intro hgone _
    cases hwr : s.writer with
    | idle => rfl
    | writing | flushing =>
      have hroom := hs.room hin (by rw [hwr]; rfl)
      omega
    | _ => simp [hwr, Writer.isGone] at hgone
  -- a full capability queue is emptied by the writer
  have hcap : ∀ m next failed, s.pushMessage m next failed ≠ none := by
    intro m _ _ hnone
    unfold pushMessage at hnone
    split at hnone
    · cases hnone
    rename_i hgone
    have hfull := send_eq_none.mp (Option.map_eq_none_iff.mp hnone)
    have hwr := hidle (Bool.eq_false_iff.mpr hgone) (.inr hfull)
    cases hq : s.capQueue.recv with
    | none =>
      rw [recv_eq_none.mp hq] at hfull
      cases hfull
    | some => simp [step, hwr, hq] at hmess
  cases hdisp : s.dispatch with
  | connecting rest =>
    have hconn := hstuck (.connect []) rfl
    cases rest <;> simp [step, connect, hdisp] at hconn
  | selecting =>
    have hpoll := hstuck (.poll [] none []) rfl
    simp [step, hdisp] at hpoll
  | greeting sends | handling sends =>
    cases sends with
    | nil => simp [step, push, hdisp] at hpush
    | cons =>
      simp only [step, push, hdisp] at hpush
      exact hcap _ _ _ hpush
  | sending =>
    simp only [step, push, hdisp] at hpush
    split at hpush
    · cases hpush
    rename_i hgone
    have hfull := send_eq_none.mp (Option.map_eq_none_iff.mp hpush)
    have hwr := hidle (Bool.eq_false_iff.mpr hgone) (.inl hfull)
    cases hq : s.writeQueue.recv with
    | none =>
      rw [recv_eq_none.mp hq] at hfull
      cases hfull
    | some => simp [step, hwr, hq] at hreq
  | _ => simp [hdisp, isLeaving] at hin

/-- Where the peer paces itself, no more frames are handled after a shutdown is queued
than the queue and the reader hold, and the tasks never all wait with it queued. -/
theorem shutdown_not_held_off {as : List (Action ε)} {factory : Wire.EnvelopeFactory}
    {guard : Wire.ReplayGuard} (hrun : run (step x e) (start e factory guard) as = some t)
    (hpaced : Meets (step x e) Paced (start e factory guard) as) :
    (∀ n ∈ t.sinceShutdown, n ≤ INBOUND_QUEUE + 1) ∧
      ¬ (Command.shutdown ∈ t.commands.items ∧ t.Stuck x e) := by
  have htim : t.Timely :=
    run_invariant (step x e) (fun _ _ _ => step_timely) hrun hpaced
      ⟨by simp [start], by simp [start], by simp [start, Writer.isBusy], by simp [start]⟩
  exact ⟨htim.handled, fun h => htim.not_stuck h.2⟩

/-- The loop waits for room in the writer's queue, the writer for the peer and the reader
for the loop. -/
def wedged (s : Session ε) : Bool :=
  match s.dispatch, s.writer, s.reader with
  | .sending _ _, .writing _, .holding _ =>
    s.writeQueue.items.length = WRITE_QUEUE ∧ s.inbound.items.length = INBOUND_QUEUE
  | _, _, _ => false

theorem stuck_of_wedged (h : s.wedged) : s.Stuck x e := by
  unfold wedged at h
  split at h
  · rename_i request ping frame item hdisp hwr hread
    obtain ⟨hwrite, hinb⟩ := of_decide_eq_true h
    have hfull : ∀ r, s.writeQueue.send r = none := fun r => send_eq_none.mpr hwrite
    have hheld : s.inbound.send item = none := send_eq_none.mpr hinb
    refine ⟨by rw [hdisp]; rfl, fun a ha => ?_⟩
    cases a with
    | deliver => simp [step, hread, hheld]
    | connect => simp [step, connect, hdisp]
    | poll => simp [step, hdisp]
    | push => simp [step, push, hdisp, hwr, Writer.isGone, hfull]
    | takeRequest | takeMessage | stop => simp [step, hwr]
    | teardown => simp [step, teardown, hdisp]
    | _ => cases ha
  · cases h

section Sample

open Handshake (sampleHost phoneSession)

def pingThenShutdown : List (Action Unit) :=
  opening ++ hear 1 (.ping [1]) ++
    [Action.push, .takeRequest none 0, .command .shutdown, .wrote (.ok ()), .poll [] none [],
    .poll [] none []]

theorem shutdown_not_held_off_idle :
    ∃ t, run (step sampleHost phoneSession) phoneStart pingThenShutdown = some t ∧
      t.dispatch.isLeaving ∧ (∀ n ∈ t.sinceShutdown, n ≤ INBOUND_QUEUE + 1) :=
  ⟨_, rfl, rfl, (@shutdown_not_held_off _ _ sampleHost phoneSession _ pingThenShutdown ⟨1, 0⟩ {} rfl
    (by decide)).1⟩

def chatter : List (Action Unit) :=
  opening ++ [.command .shutdown] ++ (List.range (INBOUND_QUEUE + 2)).flatMap
    (fun k => hear (k + 1) (.pong []))

def unread : List (Action Unit) :=
  opening ++ hear 1 (.ping []) ++ [Action.push, .takeRequest none 0] ++
    (List.range WRITE_QUEUE).flatMap (fun k => hear (k + 2) (.ping []) ++ [.push]) ++
    hear 34 (.ping []) ++ (List.range INBOUND_QUEUE).flatMap
    (fun k => [.arrive (.ok (phoneFrame (k + 35) (.ping []))), .deliver]) ++
    [Action.arrive (.ok (phoneFrame 43 (.ping []))), .command .shutdown]

theorem shutdown_held_off :
    (∃ t, run (step sampleHost phoneSession) phoneStart chatter = some t ∧
      Command.shutdown ∈ t.commands.items ∧ t.dispatch.isLeaving = false ∧
      t.sinceShutdown = some (INBOUND_QUEUE + 2)) ∧
      ∃ t, run (step sampleHost phoneSession) phoneStart unread = some t ∧
      Command.shutdown ∈ t.commands.items ∧ t.Stuck sampleHost phoneSession := by
  refine ⟨⟨_, rfl, by decide, rfl, rfl⟩, ?_⟩
  have hwedges : (run (step sampleHost phoneSession) phoneStart unread).any
      (fun t => t.wedged && decide (Command.shutdown ∈ t.commands.items)) := by decide +kernel
  cases hrun : run (step sampleHost phoneSession) phoneStart unread with
  | none =>
    rw [hrun] at hwedges
    cases hwedges
  | some t =>
    rw [hrun, Option.any_some, Bool.and_eq_true] at hwedges
    exact ⟨t, rfl, of_decide_eq_true hwedges.2, stuck_of_wedged hwedges.1⟩

end Sample

end Session

end OmniBridge.Desktop
