import OmniBridge.DesktopTransferHistory
import OmniBridge.DesktopFileSecrets

/-! A received file is complete only when a stream has verified and stored it, and a transfer
has one stream. A challenge is in one record, is sent by the call that drew it, and is used up
by the stream that shows it. -/

namespace OmniBridge.Desktop.Files

open List Option

section Completed

variable {Fp : Type} {host : Host Fp} {s t : TransferManager Fp} {id : TransferId} {task : Task Fp}
  {r r' : TransferRecord Fp} {a : Action Fp} {i : Nat} {input : Input} {out : Outcome Fp}

theorem Evidence.congr (h : Evidence host task r) (hfixed : r'.fixed = r.fixed) (job : Job Fp) :
    Evidence host (task.goes job) r' := by
  have hseq : r'.seq = r.seq := (congrArg TransferRecord.seq hfixed :)
  have hsize : r'.sizeBytes = r.sizeBytes := (congrArg TransferRecord.sizeBytes hfixed :)
  have hsha : r'.sha256 = r.sha256 := (congrArg TransferRecord.sha256 hfixed :)
  exact ⟨hseq ▸ h.opened, hseq ▸ h.serves, hsize ▸ h.size, hsha ▸ h.digest, h.promoted, h.handler⟩

theorem Job.LeadsTo.isStream {job job' : Job Fp} (h : job.LeadsTo job')
    (hjob : job.isStream = false) : job'.isStream = false := by
  cases job' with
  | acceptStream | dial | runStream | send | receive =>
    cases job with
    | acceptStream | dial | runStream | send | receive => cases hjob
    | _ => exact h.elim
  | _ => rfl

namespace TransferManager

variable [DecidableEq Fp] {failure : Option FailureReason}

theorem enters_completed (hproc : Proceeds host s a i input task out)
    (heff : out.effect = .transition id .completed failure) :
    ∃ call doomed toCheck, task.job = .ending call doomed toCheck ∧ call.id = id ∧
      call.next = .completed := by
  obtain ⟨hent, -⟩ := from_of_advance hproc.advances heff
  unfold Job.enters at hent
  split at hent
  · cases hent
  · cases hent
  · cases hent
  · rename_i call doomed toCheck hjob
    cases hent
    exact ⟨_, doomed, toCheck, hjob, rfl, rfl⟩
  · cases hent

theorem evidence_of_completes (hs : s.Followed host) (hproc : Proceeds host s a i input task out)
    (heff : out.effect = .transition id .completed failure) (hoff : s.offer id = some r)
    (hdir : r.direction = .receiving) : task.job.isStream = false ∧ Evidence host task r := by
  obtain ⟨_, _, _, hjob, hid, hnext⟩ := enters_completed hproc heff
  have hfol := hs.follows task (mem_of_getElem? hproc.slot)
  unfold Task.Follows at hfol
  rw [hjob] at hfol
  obtain ⟨r', hr', hcase⟩ := hfol hnext
  obtain rfl : r = r' := by
    rw [hid, hoff] at hr'
    exact some.inj hr'
  refine ⟨by rw [hjob]; rfl, hcase.resolve_left ?_⟩
  rw [hdir]
  nofun

def Completed (host : Host Fp) (s : TransferManager Fp) : Prop :=
  ∀ id r, s.record id = some r → r.direction = .receiving → r.state = .completed →
    ∃ task ∈ s.tasks, task.job.isStream = false ∧ Evidence host task r

theorem evidence_persists (h : Stepped host s a t) (htask : task ∈ s.tasks)
    (hstr : task.job.isStream = false) (hevid : Evidence host task r)
    (hfixed : r'.fixed = r.fixed) :
    ∃ task' ∈ t.tasks, task'.job.isStream = false ∧ Evidence host task' r' := by
  obtain ⟨j, hj⟩ := mem_iff_getElem?.mp htask
  rcases h.persists hj with hkept | ⟨_, out, -, hadvan, -, hout⟩
  · exact ⟨task, mem_of_getElem? hkept, hstr, hevid.congr hfixed task.job⟩
  have hadv := advance_advanced hadvan
  refine ⟨out.task, mem_of_getElem? hout, hadv.leads.isStream hstr, ?_⟩
  rw [hadv.keeps hstr]
  exact hevid.congr hfixed _

theorem step_completed (hfresh : s.Fresh a) (h : Stepped host s a t) (hs : s.Followed host)
    (hcomp : s.Completed host) : t.Completed host := by
  intro id _ hr' hdir hstate
  cases h.recalled hfresh hs.kept id with
  | inserted i _ task r _ htask hr _ _ hget =>
    obtain rfl := mem_unique (record_of_get hget) hr'
    rw [(new_of_inserts hr (hs.made task (mem_of_getElem? htask))).1] at hstate
    split at hstate <;> cases hstate
  | kept e f he hrec hf =>
    rw [hrec] at hr'
    obtain ⟨r, hr, rfl⟩ := map_eq_some_iff.mp hr'
    have hevol := (hf r).evolves
    rcases (hf r).state with hsame | ⟨_, heq⟩
    · obtain ⟨_, htask, hstr, hevid⟩ :=
        hcomp id r hr (hevol.direction.symm.trans hdir) (hsame.symm.trans hstate)
      exact evidence_persists h htask hstr hevid hevol.fixed
    rw [hstate] at heq
    subst heq
    obtain ⟨i, _, _, _, hproc, heff, -⟩ := he.proceeds nofun
    obtain ⟨hstr, hevid⟩ := evidence_of_completes hs hproc heff (offer_eq_of_record hr)
      (hevol.direction.symm.trans hdir)
    exact evidence_persists h (mem_of_getElem? hproc.slot) hstr hevid hevol.fixed

theorem handler_completes_no_receive (hs : s.Followed host)
    (h : s.step host (.proceed i input) = some t) (htask : s.tasks[i]? = some task)
    (hhand : task.handler.isSome) (hr : t.transfers.get id = some r)
    (hdir : r.direction = .receiving) (hstate : r.state = .completed) :
    ∃ r₀, s.transfers.get id = some r₀ ∧ r₀.state = .completed := by
  rcases (step_stepped h).before hr with ⟨i', input', task', -, htask', hr', -⟩
    | ⟨e, r₀, he, hr₀, halt⟩
  · rw [(new_of_inserts hr' (hs.made task' (mem_of_getElem? htask'))).1] at hstate
    split at hstate <;> cases hstate
  rcases halt.state with hsame | ⟨_, heq⟩
  · exact ⟨r₀, hr₀, hsame.symm.trans hstate⟩
  rw [hstate] at heq
  subst heq
  obtain ⟨_, _, _, _, hproc, heff, -⟩ := he.proceeds nofun
  have hevid := (evidence_of_completes hs hproc heff
    (offer_eq_of_record (record_of_get hr₀)) (halt.evolves.direction.symm.trans hdir)).2
  obtain ⟨ha, hslot, -⟩ := hproc
  cases ha
  obtain rfl := mem_unique hslot htask
  rw [hevid.handler] at hhand
  cases hhand

/-- However the calls interleave, where every id is inserted once and no stream shows a MAC of
a challenge that was not sent: a received transfer is complete only when a stream has read the
bytes that were offered and has stored them; no message of the peer completes it; and at most
one stream passes for it. -/
theorem receive_verified {disk : Disk} {as : List (Action Fp)} (hrole : host.role = .acceptor)
    (hrun : run (step host) (start disk) as = some s)
    (hunf : Meets (step host) (Unforged host) (start disk) as)
    (hfresh : Meets (step host) Fresh (start disk) as) :
    (∀ id r, s.record id = some r → r.direction = .receiving → r.state = .completed →
      ∃ task ∈ s.tasks, task.serves = some r.seq ∧ task.read.length = r.sizeBytes ∧
      host.sha256 task.read = r.sha256 ∧ task.promoted.isSome ∧ task.handler = none) ∧
    (∀ i input task t, s.tasks[i]? = some task → task.handler.isSome →
      s.step host (.proceed i input) = some t → ∀ id r, t.transfers.get id = some r →
      r.direction = .receiving → r.state = .completed →
      ∃ r₀, s.transfers.get id = some r₀ ∧ r₀.state = .completed) ∧
    ∀ n, s.tasks.countP (fun task => task.opened = some n) ≤ 1 := by
  have hinv : s.Followed host ∧ s.Completed host ∧ s.Secret := by
    have hboth : ∀ s a t, Unforged host s a ∧ Fresh s a → step host s a = some t →
        s.Followed host ∧ s.Completed host ∧ s.Secret → t.Followed host ∧ t.Completed host ∧
        t.Secret := by
      rintro s a t ⟨hun, hfr⟩ hstep ⟨hfoll, hcomp, hsec⟩
      have hstp := step_stepped hstep
      exact ⟨step_followed hfr hstp hfoll, step_completed hfr hstp hfoll hcomp,
        step_secret hrole hun hstp hsec⟩
    refine run_invariant (step host) hboth hrun (hunf.and (step host) hfresh)
      ⟨followed_start disk, ?_, secret_start disk⟩
    intro _ r hr
    cases hr
  obtain ⟨hfoll, hcomp, hsec⟩ := hinv
  refine ⟨?_, ?_, hsec.once⟩
  · intro id r hr hdir hstate
    obtain ⟨task, htask, -, hevid⟩ := hcomp id r hr hdir hstate
    exact ⟨task, htask, hevid.serves, hevid.size, hevid.digest, hevid.promoted, hevid.handler⟩
  · intro i _ _ t htask hhand hstep _ r hr hdir hstate
    exact handler_completes_no_receive hfoll hstep htask hhand hr hdir hstate

section Sample

def receivesWhole : List (Action Nat) :=
  receivesFile [5, 6] ++ copiesFile 2 [5, 6] ++ promotesFile 2 ++ completesFile 2

theorem receive_verified_whole :
    ∃ s r, run (step (sampleHost .acceptor)) (start {}) receivesWhole = some s ∧
      s.record (sampleId 1) = some r ∧ r.direction = .receiving ∧ r.state = .completed ∧
      ∃ task ∈ s.tasks, task.serves = some r.seq ∧ task.read.length = r.sizeBytes ∧
      (sampleHost .acceptor).sha256 task.read = r.sha256 ∧ task.promoted.isSome ∧
      task.handler = none := by
  refine exists_some_imp₂ (P := fun _ r => r.direction = .receiving ∧ r.state = .completed)
    (exists_of_any₂ (by decide +kernel)) ?_
  intro s r hrun hr ⟨hdir, hstate⟩
  have hver := receive_verified rfl hrun (by decide +kernel) (by decide +kernel)
  exact ⟨hdir, hstate, hver.1 (sampleId 1) r hr hdir hstate⟩

/-- Peers 1 and 2 offer under one id and both offers pass the check. The first is cancelled once
its stream has read the file; the stream goes on when the second is accepted. -/
def completesOther : List (Action Nat) :=
  [Action.connect 1 .pliwee, .connect 2 .pliwee, .control 0 (.offer (sampleOffer (sampleId 1) [5])),
    .control 1 (.offer (sampleOffer (sampleId 1) [6, 7]))] ++
  checksOffer 0 ++ checksOffer 1 ++ insertsOffer 0 ++ approves 2 (sampleChallenge 1) ++
  [Action.proceed 2 (.outcome true),
  .stream 1 .pliwee ⟨1, (sampleId 1).bytes, (sampleChallenge 1).bytes ++ (sampleId 1).bytes⟩,
  .proceed 3 (.outcome true), .proceed 3 .go, .proceed 3 (.outcome true), .proceed 3 .go] ++
  copiesFile 3 [5] ++ cancels 4 (sampleId 1) ++ [Action.proceed 4 .go, .proceed 4 .go] ++
  insertsOffer 1 ++ approves 5 (sampleChallenge 2) ++ promotesFile 3 ++ completesFile 3

/-- The receive from peer 2 is complete, and no stream was ever opened for it. -/
theorem unread_receive_completed :
    Meets (step (sampleHost .acceptor)) (Unforged (sampleHost .acceptor)) (start {})
      completesOther ∧ ∃ s r, run (step (sampleHost .acceptor)) (start {}) completesOther = some s ∧
      s.transfers.get (sampleId 1) = some r ∧ r.peer = 2 ∧ r.direction = .receiving ∧
      r.state = .completed ∧ r.sizeBytes = 2 ∧ ∀ task ∈ s.tasks, task.opened ≠ some r.seq ∧
      task.serves ≠ some r.seq ∧ task.read.length ≠ 2 :=
  ⟨by decide +kernel, exists_of_any₂ (by decide +kernel)⟩

end Sample

end TransferManager

end Completed

end OmniBridge.Desktop.Files
