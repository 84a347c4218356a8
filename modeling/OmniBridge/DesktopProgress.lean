import OmniBridge.DesktopTraffic
import Mathlib.Algebra.Order.Ring.Nat

/-! The reader, the loop and the writer do not wait for each other in a circle: the loop
waits for the writer only, and the writer for the peer only. A capability that sends
from inside a call finishes once the peer has read what is in its way. -/

namespace OmniBridge.Desktop.Session

open List Option Channel Dispatch Session.Action

variable {Fp ε : Type} {x : Host Fp ε} {e : Established Fp} {s t : Session ε}
  {sends : List OutboundMessage} {a : Action ε} {as : List (Action ε)}

def Action.isTask : Action ε → Bool
  | .wrote (.ok ()) | .flushed => true
  | a => a.isLocal

def Dispatch.isOver : Dispatch ε → Bool
  | .returned _ _ | .panicked => true
  | _ => false

def Dispatch.isClosed : Dispatch ε → Bool
  | .draining _ | .returned _ _ | .panicked => true
  | _ => false

def Dispatch.isHandling : Dispatch ε → Bool
  | .handling _ => true
  | _ => false

/-- The loop keeps the write queue open until it is left, and the writer is aborted only
at the very end. -/
structure Wired (s : Session ε) : Prop where
  opened : s.writeOpen = !s.dispatch.isClosed
  aborted : s.writer = .aborted → s.dispatch.isOver

theorem Dispatch.open_of_in {d : Dispatch ε} (h : d.isLeaving = false) :
    d.isClosed = false ∧ d.isOver = false := by
  cases d with
  | draining | returned | panicked => cases h
  | _ => exact ⟨rfl, rfl⟩

theorem Wired.enter (hs : s.Wired) (hin : s.dispatch.isLeaving = false) (d : Dispatch ε)
    (hd : d.isClosed = false) : (s.enter d).Wired := by
  obtain ⟨hcl, hover⟩ := open_of_in hin
  constructor
  · exact hs.opened.trans (congrArg (!·) (hcl.trans hd.symm))
  · intro h
    cases hover.symm.trans (hs.aborted h)

theorem reacts_wired (hloop : s.dispatch.isLoop) (h : Reacts e s t) (hs : s.Wired) : t.Wired := by
  have hin := in_of_loop hloop
  cases h with
  | stays _ _ _ _ d hd => exact { hs.enter hin d (open_of_in (in_of_loop hd)).1 with }
  | leaves => exact { hs.enter hin _ rfl with }

theorem step_wired (h : s.step x e a = some t) (hs : s.Wired) : t.Wired := by
  cases step_cases h with
  | connected _ _ _ hdisp | established _ hdisp | joined _ _ _ _ hdisp
  | pushedRequest _ _ _ _ hdisp => exact { hs.enter (by rw [hdisp]; rfl) _ rfl with }
  | received _ _ _ _ _ _ hdisp _ hreact | commanded _ _ _ _ _ _ hdisp _ hreact =>
    exact reacts_wired (by rw [hdisp]; rfl) hreact { hs with }
  | ticked _ t hdisp hreact => exact reacts_wired (by rw [hdisp]; rfl) hreact hs
  | ended a hloop => exact hs.enter (in_of_loop hloop) _ rfl
  | moved a d hin hd => exact hs.enter hin d (open_of_in hd).1
  | pushedMessage m d q hsends =>
    obtain ⟨hin, -, hd, -⟩ := hsends.place
    exact { hs.enter hin d (open_of_in hd).1 with }
  | tookRequest | tookMessage | wrote | failed | stopped | flushed => exact ⟨hs.opened, nofun⟩
  | disconnected _ _ _ hdisp =>
    have hopen := hs.opened
    rw [hdisp] at hopen
    have hgone : s.writer ≠ .aborted := by
      intro h
      have hover := hs.aborted h
      rw [hdisp] at hover
      cases hover
    split <;> exact ⟨hopen, fun h => absurd h hgone⟩
  | closed _ hdisp =>
    refine ⟨rfl, ?_⟩
    intro h
    have hover := hs.aborted h
    rw [hdisp] at hover
    cases hover
  | panicked _ hdisp | drained _ _ hdisp | expired _ hdisp =>
    have hopen := hs.opened
    rw [hdisp] at hopen
    exact ⟨hopen, fun _ => rfl⟩
  | _ => exact { hs with }

section NotStuck

variable (x e)

def CanGoOn (s : Session ε) : Prop := ∃ a t, a.isTask ∧ s.step x e a = some t

variable {x e}

theorem canGoOn_of_ne_none (a) (ha : a.isTask) (h : s.step x e a ≠ none) : s.CanGoOn x e := by
  obtain ⟨t, ht⟩ := ne_none_iff_exists'.mp h
  exact ⟨a, t, ha, ht⟩

theorem canGoOn_of_queued (hgone : s.writer.isGone = false)
    (hqd : s.writeQueue.items ≠ [] ∨ s.capQueue.items ≠ []) : s.CanGoOn x e := by
  cases hwr : s.writer with
  | idle =>
    rcases hqd with hqd | hqd
    · refine canGoOn_of_ne_none (.takeRequest none 0) rfl ?_
      cases hq : s.writeQueue.recv with
      | none => exact absurd (recv_eq_none.mp hq) hqd
      | some =>
        simp only [step, hwr, hq]
        exact nofun
    · refine canGoOn_of_ne_none (.takeMessage none 0) rfl ?_
      cases hq : s.capQueue.recv with
      | none => exact absurd (recv_eq_none.mp hq) hqd
      | some =>
        simp only [step, hwr, hq]
        exact nofun
  | writing =>
    refine canGoOn_of_ne_none (.wrote (.ok ())) rfl ?_
    simp only [step, hwr]
    exact nofun
  | flushing =>
    refine canGoOn_of_ne_none .flushed rfl ?_
    simp only [step, hwr]
    exact nofun
  | _ =>
    rw [hwr] at hgone
    cases hgone

theorem canGoOn_of_pushMessage {m next failed}
    (hpush : s.step x e .push = s.pushMessage m next failed) : s.CanGoOn x e := by
  cases hroom : s.pushMessage m next failed with
  | some t => exact ⟨.push, t, rfl, hpush.trans hroom⟩
  | none =>
    unfold pushMessage at hroom
    split at hroom
    · cases hroom
    rename_i hgone
    have hfull := send_eq_none.mp (map_eq_none_iff.mp hroom)
    refine canGoOn_of_queued (Bool.eq_false_iff.mpr hgone) (.inr ?_)
    exact ne_nil_of_length_pos (by rw [hfull]; decide)

theorem Wired.canGoOn (hs : s.Wired) (hover : s.dispatch.isOver = false) : s.CanGoOn x e := by
  cases hdisp : s.dispatch with
  | connecting rest =>
    refine canGoOn_of_ne_none (.connect []) rfl ?_
    cases rest <;> simp [step, connect, hdisp]
  | greeting sends | handling sends =>
    cases sends with
    | nil =>
      refine canGoOn_of_ne_none .push rfl ?_
      simp [step, push, hdisp]
    | cons => exact canGoOn_of_pushMessage (by simp only [step, push, hdisp]; rfl)
  | selecting =>
    refine canGoOn_of_ne_none (.poll [] none []) rfl ?_
    simp [step, hdisp]
  | sending =>
    cases hroom : s.step x e .push with
    | some t => exact ⟨.push, t, rfl, hroom⟩
    | none =>
      simp only [step, push, hdisp] at hroom
      split at hroom
      · cases hroom
      rename_i hgone
      have hfull := send_eq_none.mp (map_eq_none_iff.mp hroom)
      refine canGoOn_of_queued (Bool.eq_false_iff.mpr hgone) (.inl ?_)
      exact ne_nil_of_length_pos (by rw [hfull]; decide)
  | disconnecting rest =>
    refine canGoOn_of_ne_none .teardown rfl ?_
    cases rest <;> simp [step, teardown, hdisp]
  | draining =>
    have hopen : s.writeOpen = false := by
      rw [hs.opened, hdisp]
      rfl
    cases hwr : s.writer with
    | idle =>
      cases hq : s.writeQueue.recv with
      | none =>
        refine canGoOn_of_ne_none .stop rfl ?_
        simp [step, hwr, hq, hopen]
      | some =>
        refine canGoOn_of_queued (by rw [hwr]; rfl) (.inl ?_)
        rw [recv_eq_some hq]
        exact nofun
    | writing =>
      refine canGoOn_of_ne_none (.wrote (.ok ())) rfl ?_
      simp [step, hwr]
    | flushing =>
      refine canGoOn_of_ne_none .flushed rfl ?_
      simp [step, hwr]
    | finished =>
      refine canGoOn_of_ne_none .teardown rfl ?_
      cases hjoin : s.joined <;> simp [step, teardown, hdisp, hwr, hjoin]
    | aborted =>
      have hgone := hs.aborted hwr
      rw [hover] at hgone
      cases hgone
  | _ =>
    rw [hdisp] at hover
    cases hover

end NotStuck

section Finishing

/-- A run of the tasks in which nothing is put into the queue of the capabilities. -/
def Quietly (x : Host Fp ε) (e : Established Fp) (s : Session ε) (bs : List (Action ε))
    (t : Session ε) : Prop :=
  (∀ a ∈ bs, a.isTask) ∧ run (step x e) s bs = some t ∧ t.dispatch = s.dispatch ∧
    emitted (step x e) queuedMessages s bs = []

theorem Quietly.refl : Quietly x e s [] s := ⟨nofun, rfl, rfl, rfl⟩

theorem Quietly.cons {u bs} (ha : a.isTask) (h : s.step x e a = some u)
    (hsame : u.dispatch = s.dispatch) (hquiet : s.queuedMessages a = [])
    (hrest : Quietly x e u bs t) : Quietly x e s (a :: bs) t := by
  obtain ⟨htasks, hrun, hdisp, hnoth⟩ := hrest
  refine ⟨forall_mem_cons.mpr ⟨ha, htasks⟩, ?_, hdisp.trans hsame, ?_⟩
  · simp only [run, h, bind_some, hrun]
  · rw [emitted_cons _ h, hquiet, hnoth]
    rfl

theorem clears_of_idle (hidle : s.writer = .idle) :
    ∃ bs t, Quietly x e s bs t ∧ t.writer.isServing ∧
      t.capQueue.items.length < CAPABILITY_QUEUE := by
  by_cases hroom : s.capQueue.items.length < CAPABILITY_QUEUE
  · exact ⟨[], s, .refl, by rw [hidle]; rfl, hroom⟩
  cases hq : s.capQueue.recv with
  | none =>
    rw [recv_eq_none.mp hq] at hroom
    exact absurd (by decide) hroom
  | some p =>
    obtain ⟨m, q⟩ := p
    have htake : s.step x e (.takeMessage none 0) =
        some ({ s with capQueue := q }.write m.request none 0) := by
      simp only [step, hidle, hq]
    refine ⟨[.takeMessage none 0], _, .cons rfl htake rfl rfl .refl, rfl, ?_⟩
    have hlen := length_recv hq
    have hfits := s.capQueue.fits
    show q.items.length < CAPABILITY_QUEUE
    omega

theorem clears (hgone : s.writer.isGone = false) :
    ∃ bs t, Quietly x e s bs t ∧
      (s.writer.isServing → t.writer.isServing ∧ t.capQueue.items.length < CAPABILITY_QUEUE) ∧
      (s.writer.isServing = false → t.writer.isGone) := by
  cases hwr : s.writer with
  | idle =>
    obtain ⟨bs, t, hquiet, hserv, hroom⟩ := @clears_of_idle _ _ x e s hwr
    exact ⟨bs, t, hquiet, fun _ => ⟨hserv, hroom⟩, nofun⟩
  | writing frame =>
    have hwrote : s.step x e (.wrote (.ok ())) = some { s with
        writer := .idle, written := s.written ++ [frame] } := by
      simp only [step, hwr]
    obtain ⟨_, t, hquiet, hserv, hroom⟩ :=
      @clears_of_idle _ _ x e { s with writer := .idle, written := s.written ++ [frame] } rfl
    exact ⟨_, t, .cons rfl hwrote rfl rfl hquiet, fun _ => ⟨hserv, hroom⟩, nofun⟩
  | flushing result =>
    have hflush : s.step x e .flushed = some { s with writer := .finished result } :=
      by simp only [step, hwr]
    exact ⟨_, _, .cons rfl hflush rfl rfl .refl, nofun, fun _ => rfl⟩
  | _ =>
    rw [hwr] at hgone
    cases hgone

/-- The tasks can bring the call that is handled to its end; while the writer serves, all
that is left to send is queued on the way. -/
def Finishes (x : Host Fp ε) (e : Established Fp) (s : Session ε) (sends : List OutboundMessage) :
    Prop :=
  ∃ bs t, (∀ a ∈ bs, a.isTask) ∧ run (step x e) s bs = some t ∧ t.dispatch = .selecting .inbound ∧
    (s.writer.isServing → emitted (step x e) queuedMessages s bs = sends)

theorem finishes_of_gone (hdisp : s.dispatch = .handling sends) (hgone : s.writer.isGone) :
    Finishes x e s sends := by
  have hserv : s.writer.isServing = false := by
    cases hwr : s.writer with
    | finished | aborted => rfl
    | _ =>
      rw [hwr] at hgone
      cases hgone
  have hlast : ∀ u : Session ε, u.dispatch = .handling [] →
      u.step x e .push = some (u.enter (.selecting .inbound)) := by
    intro u hu
    simp only [step, push, hu]
  cases sends with
  | nil =>
    refine ⟨[.push], s.enter (.selecting .inbound), by simp [isTask, isLocal], ?_, rfl,
      fun h => absurd h (by rw [hserv]; nofun)⟩
    simp only [run, hlast s hdisp, bind_some]
  | cons =>
    have hfails : s.step x e .push = some (s.enter (.handling [])) := by
      simp only [step, push, hdisp, pushMessage, hgone, if_true]
    refine ⟨[.push, .push], (s.enter (.handling [])).enter (.selecting .inbound),
      by simp [isTask, isLocal], ?_, rfl, fun h => absurd h (by rw [hserv]; nofun)⟩
    simp only [run, hfails, hlast (s.enter (.handling [])) rfl, bind_some]

theorem Quietly.finishes {bs} (h : Quietly x e s bs t)
    (hserv : s.writer.isServing → t.writer.isServing) (ht : Finishes x e t sends) :
    Finishes x e s sends := by
  obtain ⟨htasks, hrun, _, hnoth⟩ := h
  obtain ⟨cs, u, htasks', hrun', hdone, hqd⟩ := ht
  refine ⟨bs ++ cs, u, ?_, (run_append (step x e) hrun).trans hrun', hdone, ?_⟩
  · intro a ha
    rcases mem_append.mp ha with ha | ha
    · exact htasks a ha
    · exact htasks' a ha
  · intro hs
    rw [emitted_append (step x e) hrun, hnoth, hqd (hserv hs)]
    rfl

theorem finishes (hdisp : s.dispatch = .handling sends) : Finishes x e s sends := by
  induction sends generalizing s with
  | nil =>
    have hlast : s.step x e .push = some (s.enter (.selecting .inbound)) :=
      by simp only [step, push, hdisp]
    have hquiet : s.queuedMessages .push = [] := by simp only [queuedMessages, hdisp]
    refine ⟨[.push], s.enter (.selecting .inbound), by simp [isTask, isLocal], ?_, rfl, ?_⟩
    · simp only [run, hlast, bind_some]
    · intro _
      rw [emitted_cons _ hlast, hquiet]
      rfl
  | cons m sends ih =>
    cases hgone : s.writer.isGone with
    | true => exact finishes_of_gone hdisp hgone
    | false =>
      obtain ⟨_, u, hquiet, hclears, hends⟩ := @clears _ _ x e s hgone
      have hu : u.dispatch = .handling (m :: sends) := hquiet.2.2.1.trans hdisp
      cases hserv : s.writer.isServing with
      | false => exact hquiet.finishes (by simp [hserv]) (finishes_of_gone hu (hends hserv))
      | true =>
        obtain ⟨huSer, _⟩ := hclears hserv
        refine hquiet.finishes (fun _ => huSer) ?_
        have huGone : u.writer.isGone = false := by
          cases hwr : u.writer with
          | idle | writing => rfl
          | _ =>
            rw [hwr] at huSer
            cases huSer
        obtain ⟨q, hq⟩ : ∃ q, u.capQueue.send m = some q := by
          refine ne_none_iff_exists'.mp ?_
          intro hfull
          rw [send_eq_none] at hfull
          omega
        have hpush : u.step x e .push = some { u with
            capQueue := q, dispatch := .handling sends } := by
          simp [step, push, hu, pushMessage, huGone, hq]
        have hqueues : u.queuedMessages .push = [m] := by simp [queuedMessages, hu, huGone]
        obtain ⟨cs, v, htasks, hrun, hdone, hqd⟩ :=
          @ih { u with capQueue := q, dispatch := .handling sends } rfl
        refine ⟨.push :: cs, v, forall_mem_cons.mpr ⟨rfl, htasks⟩, ?_, hdone, ?_⟩
        · simp only [run, hpush, bind_some, hrun]
        · intro _
          rw [emitted_cons _ hpush, hqueues, hqd huSer]
          rfl

end Finishing

section Bound

def Dispatch.owed : Dispatch ε → Nat
  | .handling sends => 4 * sends.length + 1
  | _ => 0

def Writer.owed : Writer ε → Nat
  | .writing _ => 2
  | .flushing _ => 1
  | _ => 0

def Reader.owed : Reader ε → Nat
  | .holding _ => 1
  | _ => 0

/-- How many steps of the tasks are left for what is there: a message that is still to be
sent is queued, taken and written, and a frame that was read is delivered. -/
def owed (s : Session ε) : Nat :=
  s.dispatch.owed + 3 * (s.writeQueue.items.length + s.capQueue.items.length) + s.writer.owed +
    s.reader.owed

def Action.adds : Action ε → Nat
  | .offer _ => 3
  | .arrive _ => 1
  | _ => 0

def Action.effort (a : Action ε) : Nat := if a.isTask then 1 else 0

theorem push_owed (hs : s.dispatch.isHandling) (h : s.push e = some t)
    (ht : t.dispatch.isHandling) : t.owed < s.owed := by
  cases hdisp : s.dispatch with
  | handling sends =>
    simp only [push, hdisp] at h
    cases sends with
    | nil =>
      cases h
      cases ht
    | cons =>
      dsimp only at h
      unfold pushMessage at h
      split at h
      · cases h
        simp only [owed, enter, hdisp, Dispatch.owed, length_cons, length_nil]
        omega
      obtain ⟨q, hq, rfl⟩ := map_eq_some_iff.mp h
      have hlen := length_send hq
      simp only [owed, hdisp, Dispatch.owed, length_cons, hlen]
      omega
  | _ =>
    rw [hdisp] at hs
    cases hs

theorem step_owed (hwired : s.Wired) (hs : s.dispatch.isHandling) (h : s.step x e a = some t)
    (ht : t.dispatch.isHandling) : a.effort + t.owed ≤ s.owed + a.adds := by
  obtain ⟨sends, hdisp⟩ : ∃ sends, s.dispatch = .handling sends := by
    cases hdisp : s.dispatch with
    | handling sends => exact ⟨sends, rfl⟩
    | _ =>
      rw [hdisp] at hs
      cases hs
  cases a with
  | advance =>
    cases h
    exact le_of_eq (Nat.zero_add _)
  | arrive =>
    dsimp only [step] at h
    split at h
    · rename_i hread
      cases h
      change 0 + _ ≤ _ + 1
      simp only [owed, hread, Reader.owed]
      omega
    · cases h
  | deliver =>
    dsimp only [step] at h
    split at h
    · rename_i item hread
      obtain ⟨q, _, rfl⟩ := map_eq_some_iff.mp h
      have hafter : (if item.isOk then Reader.reading else .stopped : Reader ε).owed = 0 :=
        by split <;> rfl
      change 1 + _ ≤ _ + 0
      simp only [owed, hread, hafter]
      simp only [Reader.owed]
      omega
    · cases h
  | command =>
    obtain ⟨_, h⟩ := ite_none_right_eq_some.mp h
    obtain ⟨q, _, rfl⟩ := map_eq_some_iff.mp h
    exact le_of_eq (Nat.zero_add _)
  | offer =>
    obtain ⟨_, h⟩ := ite_none_left_eq_some.mp h
    obtain ⟨q, hq, rfl⟩ := map_eq_some_iff.mp h
    have hlen := length_send hq
    change 0 + _ ≤ _ + 3
    simp only [owed, hlen]
    omega
  | connect =>
    simp only [step, connect, hdisp] at h
    cases h
  | poll | tick =>
    simp only [step, hdisp] at h
    cases h
  | push =>
    have hless := push_owed hs h ht
    change 1 + _ ≤ _ + 0
    omega
  | takeRequest | takeMessage =>
    dsimp only [step] at h
    split at h
    · rename_i r q hwr hq
      cases h
      have hlen := length_recv hq
      change 1 + _ ≤ _ + 0
      simp only [owed, write, hwr, hlen, Writer.owed]
      omega
    · cases h
  | wrote =>
    dsimp only [step] at h
    split at h
    · rename_i frame hwr
      cases h
      change 1 + _ ≤ _ + 0
      simp only [owed, hwr, Writer.owed]
      omega
    · rename_i frame failure hwr
      cases h
      change 0 + _ ≤ _ + 0
      simp only [owed, hwr, Writer.owed]
      omega
    · cases h
  | stop =>
    have hopen := hwired.opened
    rw [hdisp] at hopen
    simp only [step, hopen] at h
    split at h <;> cases h
  | flushed =>
    dsimp only [step] at h
    split at h
    · rename_i result hwr
      cases h
      change 1 + _ ≤ _ + 0
      simp only [owed, hwr, Writer.owed]
      omega
    · cases h
  | teardown =>
    simp only [step, teardown, hdisp] at h
    cases h
  | expire =>
    simp only [step, expire, hdisp] at h
    cases h

theorem run_owed {bs} (hwired : s.Wired) (hrun : run (step x e) s bs = some t)
    (hs : Always (step x e) (·.dispatch.isHandling) s bs) :
    (bs.map effort).sum + t.owed ≤ s.owed + (bs.map adds).sum := by
  induction bs generalizing s with
  | nil =>
    obtain rfl : s = t := by simpa [run] using hrun
    simp
  | cons a _ ih =>
    obtain ⟨u, hu, ht⟩ := run_cons_eq_some (step x e) hrun
    have hrest := hs.2 u hu
    have hstep := step_owed hwired hs.1 hu hrest.head
    have htail := ih (step_wired hu hwired) ht hrest
    rw [map_cons, map_cons, sum_cons, sum_cons]
    omega

end Bound

/-- No state of a session is stuck before it is over: some task can take a step. A
capability that handles a message, whatever number of messages it sends, can finish
and has then queued them all unless the writer is gone; and no schedule keeps it from
finishing: the steps the tasks take while it does not are bounded by what was there
and by what the peer and the rest of the daemon add meanwhile. -/
theorem dispatch_never_stuck {factory : Wire.EnvelopeFactory} {guard : Wire.ReplayGuard}
    (hrun : run (step x e) (start e factory guard) as = some s) :
    (s.dispatch.isOver = false → s.CanGoOn x e) ∧
    ∀ sends, s.dispatch = .handling sends → Finishes x e s sends ∧
      ∀ bs t, run (step x e) s bs = some t → Always (step x e) (·.dispatch.isHandling) s bs →
        (bs.map effort).sum + t.owed ≤ s.owed + (bs.map adds).sum := by
  have hwired : s.Wired := run_preserves _ (fun _ _ _ => step_wired) hrun ⟨rfl, nofun⟩
  refine ⟨hwired.canGoOn, ?_⟩
  intro _ hdisp
  exact ⟨finishes hdisp, fun bs t ht hs => run_owed hwired ht hs⟩

section Sample

open Handshake (sampleHost phoneSession)

def floods : List (Action Unit) :=
  opening ++ [Action.arrive (.ok (phoneFrame 1 (.capabilityMessage ⟨"battery.v1", []⟩))),
    Action.deliver, .poll (replicate 100 ⟨"battery.v1", [1]⟩) none []]

theorem dispatch_never_stuck_flood :
    ∃ s, run (step sampleHost phoneSession) phoneStart floods = some s ∧
      s.dispatch = .handling (replicate 100 ⟨"battery.v1", [1]⟩) ∧
      Finishes sampleHost phoneSession s (replicate 100 ⟨"battery.v1", [1]⟩) :=
  ⟨_, rfl, rfl,
    ((@dispatch_never_stuck _ _ sampleHost phoneSession _ floods ⟨1, 0⟩ {} rfl).2 _ rfl).1⟩

end Sample

end OmniBridge.Desktop.Session
