import OmniBridge.DesktopFileLeftovers

/-! What a transfer leaves in the table when it is over: no challenge, where none was put in
its record after its end, and no temp path once the calls that work on it have finished. -/

namespace OmniBridge.Desktop.Files

open List Option

variable {Fp : Type} {host : Host Fp} {s t : TransferManager Fp} {id : TransferId} {task : Task Fp}
  {r r' : TransferRecord Fp} {a : Action Fp}

def Job.issues : Job Fp → Option TransferId
  | .approval request _ _ (.recording (some _)) => some request.transferId
  | .onAccept _ id _ (.challenging _ _) | .onReady _ id _ (.challenging _) => some id
  | _ => none

namespace TransferManager

/-- A challenge is put in a record only while the transfer is active. -/
def Issues (s : TransferManager Fp) : Action Fp → Prop
  | .proceed i _ =>
    ∀ task ∈ s.tasks[i]?, ∀ id ∈ task.job.issues, ∀ r ∈ s.transfers.get id,
      r.state.isTerminal = false
  | _ => True

instance (s : TransferManager Fp) (a : Action Fp) : Decidable (s.Issues a) := by
  unfold Issues
  induction a using Action.casesOn <;> infer_instance

structure Cleared (s : TransferManager Fp) : Prop where
  made : ∀ task ∈ s.tasks, task.job.Made
  challenge : ∀ id r, s.transfers.get id = some r → r.state.isTerminal → r.challenge = none
  temp : ∀ id r, s.transfers.get id = some r → r.state.isTerminal → r.temp.isSome →
    ∃ task ∈ s.tasks, task.job.settles = some id

section Steps

variable [DecidableEq Fp] {i : Nat} {input : Input} {out : Outcome Fp}

theorem Issues.proceeds (hok : s.Issues a) (h : Proceeds host s a i input task out)
    (hid : task.job.issues = some id) (hr : s.transfers.get id = some r) :
    r.state.isTerminal = false := by
  obtain ⟨rfl, hslot, -⟩ := h
  exact hok task hslot id hid r hr

section

variable (h : Stepped host s a t)
include h

theorem challenge_of_transition {next failure}
    (he : IsEffect host s a (.transition id next failure)) (hnext : next.isTerminal)
    (hr' : t.transfers.get id = some r') : r'.challenge = none := by
  obtain ⟨i, _, _, _, hproc, heff, -, hcan⟩ := he.proceeds nofun
  obtain ⟨r, hr, hcan⟩ := (any_eq_true _ _).mp hcan
  have hget := get_update s id id (.enter next failure (s.clock + host.config.deadlineFor next))
  rw [hr, map_some, if_pos rfl, TransferRecord.enter, if_pos hcan] at hget
  rw [(h.result hproc).1, heff] at hr'
  obtain rfl := mem_unique hget hr'
  exact if_pos hnext

theorem challenge_step (hok : s.Issues a) (hs : s.Cleared) (hr' : t.transfers.get id = some r')
    (hover : r'.state.isTerminal) : r'.challenge = none := by
  rcases h.before hr' with ⟨i, input, task, -, htask, hr, -⟩ | ⟨e, r, he, hr, halt⟩
  · exact (new_of_inserts hr (hs.made task (mem_of_getElem? htask))).2.1
  rcases halt.state with hsame | ⟨_, rfl⟩
  · have hbef := hs.challenge id r hr (hsame ▸ hover)
    rcases halt.challenge with hkept | hnone | ⟨challenge, rfl, -⟩ | ⟨_, rfl⟩
    · exact hkept.trans hbef
    · exact hnone
    · obtain ⟨i, _, _, _, hproc, -, horig, -⟩ := he.proceeds (by simp)
      have hact := hok.proceeds hproc
        (by unfold Job.challenges at horig; split at horig <;> simp_all [Job.issues]) hr
      simp [← hsame, hover] at hact
    obtain ⟨i, _, _, _, hproc, -, horig, -⟩ := he.proceeds (by simp)
    cases hchal : r'.challenge with
    | none => rfl
    | some =>
      rw [hchal] at horig
      have hact := hok.proceeds hproc
        (by obtain ⟨_, _, _, hjob, rfl⟩ := Job.records_eq_some horig; rw [hjob]; rfl) hr
      simp [← hsame, hover] at hact
  · exact challenge_of_transition h he hover hr'

theorem settles_step {path} (htask : task ∈ s.tasks) (hsett : task.job.settles = some id)
    (hr : s.transfers.get id = some r) (hover : r.state.isTerminal) (hpath : r.temp = some path)
    (hr' : t.transfers.get id = some r') (htemp : r'.temp.isSome) :
    ∃ task ∈ t.tasks, task.job.settles = some id := by
  obtain ⟨j, hj⟩ := mem_iff_getElem?.mp htask
  rcases h.persists hj with hkept | ⟨_, out, rfl, hadv, ht, hout⟩
  · exact ⟨task, mem_of_getElem? hkept, hsett⟩
  rcases settles_of_advance hadv hsett with hsett' | hcan | htakes
  · exact ⟨out.task, mem_of_getElem? hout, hsett'⟩
  · rw [canTransition, hr] at hcan
    have hact := TransferState.isActive_of_canTransitionTo hcan
    simp [TransferState.isActive, hover] at hact
  have heff := (htakes path (by rw [hr]; exact hpath)).2
  have hget := get_update s id id ({ · with temp := none })
  rw [hr, map_some, if_pos rfl] at hget
  rw [ht, heff] at hr'
  obtain rfl := mem_unique hget hr'
  cases htemp

theorem temp_settles (hs : s.Cleared) (hr' : t.transfers.get id = some r')
    (hover : r'.state.isTerminal) (htemp : r'.temp.isSome) :
    ∃ task ∈ t.tasks, task.job.settles = some id := by
  rcases h.before hr' with ⟨i, input, task, -, htask, hr, -⟩ | ⟨e, r, he, hr, halt⟩
  · rw [(new_of_inserts hr (hs.made task (mem_of_getElem? htask))).2.2] at htemp
    cases htemp
  rcases halt.state with hsame | ⟨_, rfl⟩
  · rcases halt.temp with hkept | ⟨hnone, -⟩ | ⟨path, _, rfl, -⟩
    · obtain ⟨_, hpath⟩ := isSome_iff_exists.mp htemp
      rw [hsame] at hover
      rw [hkept] at hpath htemp
      obtain ⟨_, htask, hsett⟩ := hs.temp id r hr hover htemp
      exact settles_step h htask hsett hr hover hpath hr' (hkept ▸ htemp)
    · rw [hnone] at htemp
      cases htemp
    obtain ⟨i, _, task, out, hproc, _, horig, -⟩ := he.proceeds (by simp)
    obtain ⟨_, _, _, hjob, rfl⟩ := Job.records_eq_some horig
    refine ⟨out.task, (h.result hproc).2, ?_⟩
    cases advance_approves hproc.advances hjob with
    | records _ _ _ hjob' => rw [hjob']; rfl
    | _ => grind
  · obtain ⟨i, _, task, out, hproc, heff, -⟩ := he.proceeds (by simp)
    exact ⟨out.task, (h.result hproc).2,
      Job.settles_of_takes (takes_of_enters hproc.advances heff hover)⟩

end

theorem step_cleared (hok : s.Issues a) (hstep : s.step host a = some t) (hs : s.Cleared) :
    t.Cleared := by
  have h := step_stepped hstep
  exact ⟨step_made h hs.made, fun _ _ hr hover => challenge_step h hok hs hr hover,
    fun _ _ hr hover htemp => temp_settles h hs hr hover htemp⟩

end Steps

/-- However the calls interleave, where no challenge is put in a record after its end: a record
that is over has no challenge, and no temp path once no call works on its transfer. -/
theorem terminal_holds_nothing [DecidableEq Fp] {disk : Disk} {as : List (Action Fp)}
    (hrun : run (step host) (start disk) as = some s)
    (hiss : Meets (step host) Issues (start disk) as) (hr : s.transfers.get id = some r)
    (hover : r.state.isTerminal) :
    r.challenge = none ∧ ((∀ task ∈ s.tasks, task.job.transfer ≠ some id) → r.temp = none) := by
  have hstart : (start disk : TransferManager Fp).Cleared := by
    refine ⟨fun _ h => absurd h not_mem_nil, fun id r hr => ?_, fun id r hr => ?_⟩
    all_goals cases (SortedMap.get_empty id).symm.trans hr
  have hs : s.Cleared := run_invariant (step host) (fun _ _ _ => step_cleared) hrun hiss hstart
  refine ⟨hs.challenge id r hr hover, ?_⟩
  intro hdone
  cases htemp : r.temp with
  | none => rfl
  | some =>
    obtain ⟨task, htask, hsett⟩ := hs.temp id r hr hover (by rw [htemp]; rfl)
    exact absurd (Job.transfer_of_settles hsett) (hdone task htask)

section Sample

def cancelsAccepted : List (Action Nat) :=
  [Action.connect 1 .pliwee, .control 0 (.offer (sampleOffer (sampleId 1) [5, 6]))] ++
    checksOffer 0 ++ insertsOffer 0 ++
  approves 1 (sampleChallenge 1) ++ [.proceed 1 (.outcome true)] ++ cancels 2 (sampleId 1) ++
  [Action.proceed 2 .go, Action.proceed 2 .go, .proceed 2 (.outcome true)]

theorem terminal_holds_nothing_cancelled :
    ∃ s r, run (step (sampleHost .acceptor)) (start {}) cancelsAccepted = some s ∧
      s.transfers.get (sampleId 1) = some r ∧ r.state = .cancelled ∧ r.challenge = none ∧
      r.temp = none := by
  refine exists_some_imp₂ (P := fun s r => r.state = .cancelled ∧ ∀ task ∈ s.tasks,
    task.job.transfer ≠ some (sampleId 1)) (exists_of_any₂ (by decide +kernel)) ?_
  intro s r hrun hr ⟨hstate, hdone⟩
  obtain ⟨hchal, htemp⟩ := terminal_holds_nothing hrun (by decide +kernel) hr (by rw [hstate]; rfl)
  exact ⟨hstate, hchal, htemp hdone⟩

/-- A file of ours is accepted by the peer; it is cancelled while the accept is being handled. -/
theorem challenge_in_cancelled_record :
    ∃ s r, run (step (sampleHost .acceptor)) (start {})
      ((sendsFile [5]).take 11 ++ cancels 2 (sampleId 1) ++ [.proceed 2 .go,
      .proceed 2 (.outcome true), .proceed 1 .go, .proceed 1 .go]) = some s ∧
      s.transfers.get (sampleId 1) = some r ∧ r.state = .cancelled ∧
      (∀ task ∈ s.tasks, task.isDone) ∧ r.challenge = some (sampleChallenge 1) :=
  exists_of_any₂ (by decide +kernel)

end Sample

end TransferManager

end OmniBridge.Desktop.Files
