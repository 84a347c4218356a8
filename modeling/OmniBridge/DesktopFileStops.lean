import OmniBridge.DesktopTransferStreams

/-! A transfer that has ended stops its bytes. A stream sees the end of its transfer on the
channel it subscribes to with its plan, so that it writes at most what it is writing; an end
that comes before the subscription is one it never sees. -/

namespace OmniBridge.Desktop.Files

open List Option Bool

def Job.isWriting {Fp : Type} : Job Fp → Bool
  | .send _ _ stage => stage.isWriting
  | _ => false

def TransferRecord.Signals {Fp : Type} (r : TransferRecord Fp) (version : Nat) : Prop :=
  r.state.isActive ∧ r.cancel = version ∨ r.state.isTerminal ∧ r.cancel ≠ version

theorem TransferRecord.Signals.evolves {Fp : Type} {r r' : TransferRecord Fp} {version}
    (hr : r.Signals version) (h : r.Evolves r') : r'.Signals version := by
  rcases hr with ⟨hact, hcancel⟩ | ⟨hterm, hcancel⟩
  · rcases h.moves with ⟨hstate, hsame⟩ | ⟨-, hmoved⟩
    · exact .inl ⟨hstate ▸ hact, hsame.trans hcancel⟩
    by_cases hend : r'.state.isTerminal
    · rw [if_pos hend] at hmoved
      exact .inr ⟨hend, by omega⟩
    · rw [if_neg hend] at hmoved
      exact .inl ⟨by simp [TransferState.isActive, hend], hmoved.trans hcancel⟩
  · obtain ⟨hstate, hsame⟩ := h.terminal hterm
    exact .inr ⟨hstate ▸ hterm, hsame ▸ hcancel⟩

namespace TransferManager

variable {Fp : Type} [DecidableEq Fp] {host : Host Fp} {s₀ s t : TransferManager Fp}
  {id : TransferId} {a : Action Fp} {i n : Nat} {task : Task Fp} {input : Input} {plan : StreamPlan}
  {out : Outcome Fp} {r : TransferRecord Fp}

/-- A stream takes its plan, and with it subscribes, while the transfer is active. -/
def Subscribes (s : TransferManager Fp) : Action Fp → Prop
  | .proceed i _ =>
    ∀ task ∈ s.tasks[i]?, ∀ id ∈ task.job.runs, ∀ r ∈ s.transfers.get id, r.state.isActive
  | _ => True

instance (s : TransferManager Fp) (a : Action Fp) : Decidable (s.Subscribes a) := by
  unfold Subscribes
  induction a using Action.casesOn <;> infer_instance

section Watched

structure Watches (s : TransferManager Fp) (task : Task Fp) : Prop where
  served : ∀ id plan, task.job.plan = some (id, plan) → task.serves = some plan.seq ∧
    0 < s.recorded plan.seq
  signals : ∀ id plan, task.job.plan = some (id, plan) → ∀ r, s.transfers.get id = some r →
    r.seq = plan.seq → r.Signals plan.seen
  chunk : ∀ id plan stage, task.job = .send id plan stage → ∀ chunk ∈ stage.chunk,
    chunk.length ≤ COPY_BUFFER_BYTES

structure Watched (s : TransferManager Fp) : Prop where
  numbered : s.Numbered
  watches : ∀ task ∈ s.tasks, s.Watches task

omit [DecidableEq Fp] in
theorem watches_of_plan_eq_none (h : task.job.plan = none) : s.Watches task := by
  refine ⟨?_, ?_, ?_⟩
  · intro _ _ hplan
    cases h.symm.trans hplan
  · intro _ _ hplan
    cases h.symm.trans hplan
  · intro _ _ _ hjob
    rw [hjob] at h
    cases h

theorem signals_step (hs : s.Numbered) (h : Stepped host s a t) (hknown : 0 < s.recorded plan.seq)
    (hsign : ∀ r, s.transfers.get id = some r → r.seq = plan.seq → r.Signals plan.seen) (r)
    (hr : t.transfers.get id = some r) (hseq : r.seq = plan.seq) : r.Signals plan.seen := by
  rcases h.before hr with ⟨i, _, _, -, htask, hr', -⟩ | ⟨e, r₀, -, hr₀, halt⟩
  · have hfree := hs.apart_inserting (mem_of_getElem? htask) hr'
    rw [hseq] at hfree
    omega
  · exact (hsign r₀ hr₀ (halt.evolves.seq.symm.trans hseq)).evolves halt.evolves

omit [DecidableEq Fp] in
theorem stage_of_runSend {stage stage'} (h : s.runSend task id plan stage input = some out)
    (hjob : out.task.job = .send id plan stage') :
    (stage'.isWriting → s.hasChanged id plan = false) ∧ ∀ chunk ∈ stage'.chunk,
      chunk.length ≤ COPY_BUFFER_BYTES ∨ ∃ whole ∈ stage.chunk, chunk.length ≤ whole.length := by
  have hplain : stage'.isWriting = false → stage'.chunk = none →
      (stage'.isWriting → s.hasChanged id plan = false) ∧ ∀ chunk ∈ stage'.chunk,
      chunk.length ≤ COPY_BUFFER_BYTES ∨ ∃ whole ∈ stage.chunk, chunk.length ≤ whole.length := by
    intro hwrit hchunk
    rw [hwrit, hchunk]
    simp
  unfold runSend at h
  split at h
  case h_3 | h_4 | h_5 | h_8 | h_9 => cases h; cases hjob; exact hplain rfl rfl
  · split at h <;> cases h <;> cases hjob
    exact hplain rfl rfl
  · split at h
    · rename_i hfits
      cases h
      cases hjob
      simp only [fits, and_eq_true, decide_eq_true_eq] at hfits
      refine ⟨by rintro ⟨⟩, ?_⟩
      rintro _ ⟨⟩
      exact .inl hfits.2
    · cases h
  · rename_i rest chunk
    cases h
    by_cases hchan : s.hasChanged id plan
    · simp only [Task.goes, hchan, if_true, Job.send.injEq] at hjob
      obtain ⟨-, -, rfl⟩ := hjob
      exact hplain rfl rfl
    simp only [Task.goes, hchan, false_eq_true, if_false, Job.send.injEq] at hjob
    obtain ⟨-, -, rfl⟩ := hjob
    refine ⟨fun _ => eq_false_iff.mpr hchan, ?_⟩
    rintro _ ⟨⟩
    exact .inr ⟨chunk, rfl, Nat.le_refl _⟩
  · rename_i rest chunk count
    split at h
    · cases h
      cases hjob
      refine ⟨by rintro ⟨⟩, ?_⟩
      rintro _ ⟨⟩
      exact .inr ⟨chunk, rfl, Nat.le_refl _⟩
    split at h
    · cases h
      by_cases hall : count = chunk.length
      · simp only [hall, if_true, Job.send.injEq] at hjob
        obtain ⟨-, -, rfl⟩ := hjob
        exact hplain rfl rfl
      simp only [hall, if_false, Job.send.injEq] at hjob
      obtain ⟨-, -, rfl⟩ := hjob
      refine ⟨by rintro ⟨⟩, ?_⟩
      rintro _ ⟨⟩
      exact .inr ⟨chunk, rfl, by simp⟩
    · cases h
  · cases h
    revert hjob
    split
    · rintro ⟨⟩
    · intro hjob
      cases hjob
      exact hplain rfl rfl
    · rintro ⟨⟩
  · split at h
    · cases h; cases hjob
    · split at h
      · cases h; cases hjob
      · cases h; cases hjob; exact hplain rfl rfl
  · cases h

theorem sends_of_advance {stage} (h : s.advance host task input = some out)
    (hjob : out.task.job = .send id plan stage) :
    stage = .opening ∨ ∃ stage₀, task.job = .send id plan stage₀ ∧
      s.runSend task id plan stage₀ input = some out := by
  have hlead := (advance_advanced h).leads
  rw [hjob] at hlead
  cases htask : task.job with
  | runStream =>
    rw [htask] at hlead
    exact .inl hlead.2
  | send _ _ stage₀ =>
    rw [htask] at hlead
    obtain ⟨rfl, rfl⟩ := hlead
    refine .inr ⟨stage₀, rfl, ?_⟩
    unfold advance at h
    rw [htask] at h
    exact h
  | _ =>
    rw [htask] at hlead
    exact hlead.elim

theorem step_watched (hsub : s.Subscribes a) (h : s.step host a = some t) (hs : s.Watched) :
    t.Watched := by
  have hstp := step_stepped h
  refine ⟨step_numbered hstp hs.numbered, hstp.forall_tasks ?_ ?_ ?_⟩
  · intro j task htask _
    have hwatch := hs.watches task (mem_of_getElem? htask)
    refine ⟨?_, ?_, hwatch.chunk⟩
    · intro id plan hplan
      obtain ⟨hserv, hknown⟩ := hwatch.served id plan hplan
      exact ⟨hserv, hknown.trans_le (recorded_step hstp _)⟩
    · intro id plan hplan
      exact signals_step hs.numbered hstp (hwatch.served id plan hplan).2
        (hwatch.signals id plan hplan)
  · intro _ _ hstart _
    refine watches_of_plan_eq_none ?_
    cases hstart <;> rfl
  · rintro i _ task _ rfl htask hadv rfl
    have hwatch := hs.watches task (mem_of_getElem? htask)
    refine ⟨⟨?_, ?_, ?_⟩, ?_⟩
    · intro id plan hplan
      rcases (advance_noted hadv).plan id plan hplan with ⟨hplan₀, hserv⟩ |
        ⟨r, _, hr, rfl, hserv, _⟩
      · obtain ⟨hserv₀, hknown⟩ := hwatch.served id plan hplan₀
        exact ⟨hserv.trans hserv₀, hknown.trans_le (recorded_step hstp _)⟩
      · exact ⟨hserv, (recorded_pos (mem_records_of_get hr)).trans_le (recorded_step hstp _)⟩
    · intro id plan hplan
      rcases (advance_noted hadv).plan id plan hplan with ⟨hplan₀, -⟩ | ⟨r, hjob, hr, rfl, -, heff⟩
      · exact signals_step hs.numbered hstp (hwatch.served id plan hplan₀).2
          (hwatch.signals id plan hplan₀)
      intro _ hr' _
      rw [heff] at hr'
      obtain rfl := mem_unique hr hr'
      have hruns : task.job.runs = some id := by rw [hjob]; rfl
      exact .inl ⟨hsub task htask id hruns r hr, rfl⟩
    · intro id plan _ hjob chunk hchunk
      rcases sends_of_advance hadv hjob with rfl | ⟨stage₀, htaskj, hsend⟩
      · cases hchunk
      · rcases (stage_of_runSend hsend hjob).2 chunk hchunk with hle | ⟨whole, hwhole, hle⟩
        · exact hle
        · exact hle.trans (hwatch.chunk id plan stage₀ htaskj whole hwhole)
    · intro task' htask'
      refine watches_of_plan_eq_none ?_
      cases (advance_advanced hadv).spawned task' htask' <;> rfl

end Watched

section Stopped

/-- After transfer `n` has ended in `s₀`: a stream that runs by its plan did so then, and has
written or is writing at most one more piece. -/
structure Stopped (n : Nat) (s₀ s : TransferManager Fp) : Prop where
  known : 0 < s.recorded n
  ended : ∀ id r, s.transfers.get id = some r → r.seq = n → r.state.isTerminal
  wrote : ∀ (i : Nat) task, s.tasks[i]? = some task → task.serves = some n →
    ∃ (task₀ : Task Fp) (more : List Bytes), s₀.tasks[i]? = some task₀ ∧
    task.wrote = task₀.wrote ++ more ∧ more.length + (if task.job.isWriting then 1 else 0) ≤ 1 ∧
    ∀ chunk ∈ more, chunk.length ≤ COPY_BUFFER_BYTES

omit [DecidableEq Fp] in
theorem hasChanged_of_ended (hs : s.Watched) (hstop : Stopped n s₀ s) (htask : task ∈ s.tasks)
    (hplan : task.job.plan = some (id, plan)) (hserv : task.serves = some n) :
    s.hasChanged id plan := by
  have hwatch := hs.watches task htask
  obtain rfl : plan.seq = n := some.inj ((hwatch.served id plan hplan).1.symm.trans hserv)
  unfold hasChanged
  cases hr : s.transfers.get id with
  | none => rfl
  | some r =>
    rw [all_some, or_eq_true, decide_eq_true_eq, decide_eq_true_eq]
    by_cases hseq : r.seq = plan.seq
    · right
      have hterm := hstop.ended id r hr hseq
      rcases hwatch.signals id plan hplan r hr hseq with ⟨hact, -⟩ | ⟨-, hcancel⟩
      · simp [TransferState.isActive, hterm] at hact
      · exact hcancel
    · exact .inl hseq

theorem ended_step (hs : s.Watched) (hstop : Stopped n s₀ s) (h : Stepped host s a t)
    (hr : t.transfers.get id = some r) (hseq : r.seq = n) : r.state.isTerminal := by
  rcases h.before hr with ⟨i, _, _, -, htask, hr', -⟩ | ⟨e, r₀, -, hr₀, halt⟩
  · have hfree := hs.numbered.apart_inserting (mem_of_getElem? htask) hr'
    rw [hseq] at hfree
    have hknown := hstop.known
    omega
  · have hterm := hstop.ended id r₀ hr₀ (halt.evolves.seq.symm.trans hseq)
    exact (halt.evolves.terminal hterm).1 ▸ hterm

theorem isWriting_of_advance (hs : s.Watched) (hstop : Stopped n s₀ s) (htask : task ∈ s.tasks)
    (hadv : s.advance host task input = some out) (hserv : task.serves = some n) :
    out.task.job.isWriting = false := by
  cases hjob : out.task.job with
  | send id plan =>
    rcases sends_of_advance hadv hjob with rfl | ⟨_, htaskj, hsend⟩
    · rfl
    have hplan : task.job.plan = some (id, plan) := by rw [htaskj]; rfl
    have hchan := hasChanged_of_ended hs hstop htask hplan hserv
    by_contra hwrit
    rw [not_eq_false] at hwrit
    cases hchan.symm.trans ((stage_of_runSend hsend hjob).1 hwrit)
  | _ => rfl

theorem step_stopped (hsub : s.Subscribes a) (hs : s.Watched) (h : s.step host a = some t)
    (hstop : Stopped n s₀ s) : Stopped n s₀ t := by
  have hstp := step_stepped h
  refine ⟨hstop.known.trans_le (recorded_step hstp n), fun id r hr hseq =>
    ended_step hs hstop hstp hr hseq, hstp.forall_getElem ?_ ?_ ?_⟩
  · intro j task htask _
    exact hstop.wrote j task htask
  · intro j _ _ _ _ hserv
    cases hserv
  · rintro i _ task _ rfl htask hadv rfl
    have hmem := mem_of_getElem? htask
    have hnoted := advance_noted hadv
    refine ⟨?_, ?_⟩
    · intro hserv
      -- the plan of an ended transfer is not taken, so the stream had it before
      have hserv₀ : task.serves = some n := by
        rcases hnoted.serves with hsame | ⟨id, r, hjob, hr, hnew⟩
        · exact hsame ▸ hserv
        have hruns : task.job.runs = some id := by rw [hjob]; rfl
        have hact := hsub task htask id hruns r hr
        have hterm := hstop.ended id r hr (some.inj (hnew.symm.trans hserv))
        simp [TransferState.isActive, hterm] at hact
      have hidle := isWriting_of_advance hs hstop hmem hadv hserv₀
      obtain ⟨task₀, more, htask₀, hwrote, hlen, hmore⟩ := hstop.wrote i task htask hserv₀
      rcases hnoted.wrote with hsame | ⟨id, plan, _, chunk, count, _, htaskj, _, -, hadds⟩
      · refine ⟨task₀, more, htask₀, hsame.trans hwrote, ?_, hmore⟩
        rw [hidle, if_neg Bool.false_ne_true]
        omega
      refine ⟨task₀, more ++ [chunk.take count], htask₀, ?_, ?_, ?_⟩
      · rw [hadds, hwrote, append_assoc]
      · have hwrit : task.job.isWriting := by rw [htaskj]; rfl
        rw [hwrit, if_pos rfl] at hlen
        rw [hidle, if_neg Bool.false_ne_true, length_append, length_singleton]
        omega
      · refine forall_mem_concat hmore ?_
        exact (length_take_le' _ _).trans ((hs.watches task hmem).chunk id plan _ htaskj chunk rfl)
    · intro j task' htask' hserv
      cases (advance_advanced hadv).spawned task' htask' <;> cases hserv

end Stopped

/-- However the calls interleave, where no transfer ends between the opening of a stream and
its subscription: from a state in which a transfer has ended, each stream of it writes at most
one more piece, which is at most a chunk. -/
theorem ended_transfer_stops {disk : Disk} {as bs : List (Action Fp)}
    (hrun : run (step host) (start disk) as = some s) (hrun' : run (step host) s bs = some t)
    (hsub : Meets (step host) Subscribes (start disk) (as ++ bs)) (hr : s.transfers.get id = some r)
    (hended : r.state.isTerminal) (htask : t.tasks[i]? = some task)
    (hserv : task.serves = some r.seq) :
    ∃ task₀ more, s.tasks[i]? = some task₀ ∧ task.wrote = task₀.wrote ++ more ∧ more.length ≤ 1 ∧
      ∀ chunk ∈ more, chunk.length ≤ COPY_BUFFER_BYTES := by
  obtain ⟨hsub, hsub'⟩ := hsub.of_append (step host) hrun
  have hwatched : s.Watched := by
    refine run_invariant (step host) ?_ hrun hsub ⟨numbered_start disk, fun _ h =>
      absurd h not_mem_nil⟩
    exact fun s a t hok hstep hs => step_watched hok hstep hs
  have hstop : Stopped r.seq s s := by
    refine ⟨recorded_pos (mem_records_of_get hr), ?_, ?_⟩
    · intro _ _ hr' hseq
      exact hwatched.numbered.unique (mem_records_of_get hr) (mem_records_of_get hr') hseq ▸ hended
    · intro i task htask _
      refine ⟨task, [], htask, (append_nil _).symm, ?_, nofun⟩
      split <;> simp
  have hend : t.Watched ∧ Stopped r.seq s t := by
    have hboth : ∀ u a v, Subscribes u a → step host u a = some v → u.Watched ∧ Stopped r.seq s u →
        v.Watched ∧ Stopped r.seq s v :=
      fun u a v hok hstep hu => ⟨step_watched hok hstep hu.1, step_stopped hok hu.1 hstep hu.2⟩
    exact run_invariant (step host) hboth hrun' hsub' ⟨hwatched, hstop⟩
  obtain ⟨task₀, more, htask₀, hwrote, _, hmore⟩ := hend.2.wrote i task htask hserv
  exact ⟨task₀, more, htask₀, hwrote, by omega, hmore⟩

section Sample

/-- The stream runs and is writing when the user cancels. -/
def cancelledWhileWriting : List (Action Nat) :=
  sendsFile [5, 6, 7] ++ [Action.proceed 2 .go, .proceed 2 (.outcome true), .proceed 2 (.bytes [5]),
    .proceed 2 .go] ++ cancels 3 (sampleId 1)

def writesOn : List (Action Nat) := [.proceed 2 (.wrote 1), .proceed 2 (.bytes [6]), .proceed 2 .go]

theorem ended_transfer_stops_cancelled :
    ∃ s t r task, run (step (sampleHost .acceptor)) (start {}) cancelledWhileWriting = some s ∧
      run (step (sampleHost .acceptor)) s writesOn = some t ∧
      s.transfers.get (sampleId 1) = some r ∧ r.state = .cancelled ∧ t.tasks[2]? = some task ∧
      task.wrote = [[5]] ∧ ∃ task₀ more, s.tasks[2]? = some task₀ ∧
      task.wrote = task₀.wrote ++ more ∧ more.length ≤ 1 ∧ ∀ chunk ∈ more,
      chunk.length ≤ COPY_BUFFER_BYTES := by
  have hany : (run (step (sampleHost .acceptor)) (start {}) cancelledWhileWriting).any (fun s =>
      (s.transfers.get (sampleId 1)).any (fun r => r.state = .cancelled &&
        (run (step (sampleHost .acceptor)) s writesOn).any (fun t => (t.tasks[2]?).any (fun task =>
          task.wrote = [[5]] && task.serves = some r.seq)))) := by decide +kernel
  obtain ⟨s, hrun, hs⟩ := (any_eq_true _ _).mp hany
  obtain ⟨r, hr, hs⟩ := (any_eq_true _ _).mp hs
  obtain ⟨hstate, hs⟩ := and_eq_true_iff.mp hs
  obtain ⟨t, hrun', ht⟩ := (any_eq_true _ _).mp hs
  obtain ⟨task, htask, ht⟩ := (any_eq_true _ _).mp ht
  obtain ⟨hwrote, hserv⟩ := and_eq_true_iff.mp ht
  have hcanc := of_decide_eq_true hstate
  exact ⟨s, t, r, task, hrun, hrun', hr, hcanc, htask, of_decide_eq_true hwrote,
    ended_transfer_stops hrun hrun' (by decide +kernel) hr (by rw [hcanc]; rfl) htask
    (of_decide_eq_true hserv)⟩

/-- The user cancels after the stream was authorised and before it has its plan; it then
sends the whole file. -/
theorem cancelled_transfer_sent :
    ∃ s t r task₀ task, run (step (sampleHost .acceptor)) (start {})
      (sendsFile [5, 6, 7] ++ cancels 3 (sampleId 1)) = some s ∧
      s.transfers.get (sampleId 1) = some r ∧ r.direction = .sending ∧ r.state = .cancelled ∧
      s.tasks[2]? = some task₀ ∧ task₀.wrote = [] ∧
      run (step (sampleHost .acceptor)) s ([.proceed 2 .go, .proceed 2 (.outcome true)] ++
      sendsChunk 2 [5] ++ sendsChunk 2 [6] ++ sendsChunk 2 [7]) = some t ∧ t.tasks[2]? = some task ∧
      task.serves = some r.seq ∧ task.wrote = [[5], [6], [7]] := by
  have hany : (run (step (sampleHost .acceptor)) (start {})
      (sendsFile [5, 6, 7] ++ cancels 3 (sampleId 1))).any (fun s =>
      (s.transfers.get (sampleId 1)).any
        (fun r => (r.direction = .sending && r.state = .cancelled) && (s.tasks[2]?).any
        (fun task₀ => task₀.wrote = []) &&
        (run (step (sampleHost .acceptor)) s ([.proceed 2 .go, .proceed 2 (.outcome true)] ++
        sendsChunk 2 [5] ++ sendsChunk 2 [6] ++ sendsChunk 2 [7])).any
        (fun t => (t.tasks[2]?).any (fun task =>
            task.serves = some r.seq && task.wrote = [[5], [6], [7]])))) := by decide +kernel
  obtain ⟨s, hrun, hs⟩ := (any_eq_true _ _).mp hany
  obtain ⟨r, hr, hs⟩ := (any_eq_true _ _).mp hs
  obtain ⟨hs, hrest⟩ := and_eq_true_iff.mp hs
  obtain ⟨hrec, hs⟩ := and_eq_true_iff.mp hs
  obtain ⟨hdir, hstate⟩ := and_eq_true_iff.mp hrec
  obtain ⟨task₀, htask₀, hnone⟩ := (any_eq_true _ _).mp hs
  obtain ⟨t, hrun', ht⟩ := (any_eq_true _ _).mp hrest
  obtain ⟨task, htask, ht⟩ := (any_eq_true _ _).mp ht
  obtain ⟨hserv, hwrote⟩ := and_eq_true_iff.mp ht
  exact ⟨s, t, r, task₀, task, hrun, hr, of_decide_eq_true hdir, of_decide_eq_true hstate, htask₀,
    of_decide_eq_true hnone, hrun', htask, of_decide_eq_true hserv, of_decide_eq_true hwrote⟩

end Sample

end TransferManager

end OmniBridge.Desktop.Files
