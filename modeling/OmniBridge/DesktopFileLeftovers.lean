import OmniBridge.DesktopTransferTemps

/-! A partial file is owed by someone as long as it is there: by the approval that has yet to
record it, by a call that is about to remove it, or by a record that is active or has a call
to take it. A transfer that is over and has no calls left has no partial file. -/

namespace OmniBridge.Desktop.Files

open List Option

section Leftovers

variable {Fp : Type} {host : Host Fp} {s t : TransferManager Fp} {id : TransferId} {task : Task Fp}
  {r r' : TransferRecord Fp} {a : Action Fp} {i j n : Nat} {input : Input} {out : Outcome Fp}

def Input.isUngenerated : Input → Bool
  | .generated none => true
  | _ => false

def Job.settles : Job Fp → Option TransferId
  | .approval request _ _ (.activating _) => some request.transferId
  | job => job.takes

variable {job : Job Fp}

theorem Job.settles_eq_some (h : job.settles = some id) :
    (∃ request session seq challenge, job = .approval request session seq (.activating challenge) ∧
      request.transferId = id) ∨ job.takes = some id := by
  unfold settles at h
  split at h
  · cases h
    exact .inl ⟨_, _, _, _, rfl, rfl⟩
  · exact .inr h

theorem Job.settles_of_takes (h : job.takes = some id) : job.settles = some id := by
  unfold settles
  split
  · cases h
  · exact h

theorem Job.transfer_of_settles (h : job.settles = some id) : job.transfer = some id := by
  rcases settles_eq_some h with ⟨_, _, _, _, rfl, rfl⟩ | htakes
  · rfl
  · exact transfer_of_takes htakes

namespace TransferManager

def Generates (s : TransferManager Fp) : Action Fp → Prop
  | .proceed i input =>
    ∀ task ∈ s.tasks[i]?, task.job.unrecorded.isSome → input.isUngenerated = false
  | _ => True

instance (s : TransferManager Fp) (a : Action Fp) : Decidable (s.Generates a) := by
  unfold Generates
  induction a using Action.casesOn <;> infer_instance

def Idle (s : TransferManager Fp) : Action Fp → Prop
  | .forgetFinished keep => ∀ p ∈ s.forgotten keep, ∀ task ∈ s.tasks, task.job.transfer ≠ some p.1
  | _ => True

instance (s : TransferManager Fp) (a : Action Fp) : Decidable (s.Idle a) := by
  unfold Idle
  induction a using Action.casesOn <;> infer_instance

inductive Owed (s : TransferManager Fp) (id : TransferId) : Prop
  | unrecorded (task : Task Fp) (n : Nat) (htask : task ∈ s.tasks)
    (hn : task.job.unrecorded = some (id, n))
  | removing (task : Task Fp) (htask : task ∈ s.tasks)
    (hpath : task.job.removes = some (tempName id))
  | recorded (r : TransferRecord Fp) (hr : s.transfers.get id = some r)
    (htemp : r.temp = some (tempName id))
      (hends : r.state.isActive ∨ ∃ task ∈ s.tasks, task.job.settles = some id)

structure Tidy (s : TransferManager Fp) : Prop where
  owed : ∀ id n, s.disk.createdAt (tempName id) = some n → s.Owed id
  approval : ∀ task ∈ s.tasks, ∀ request session seq stage, task.job = .approval request session seq
    stage → (s.transfers.get request.transferId).isSome
  storing : ∀ task ∈ s.tasks, ∀ id plan path, task.job = .receive id plan (.storing path) →
    plan.temp.isSome ∧ s.disk.createdAt (tempName id) = none

section Steps

variable {plan : StreamPlan}

theorem not_opened_again {stage task' request} {session seq} (hfoll : s.Followed host)
    (hs : s.Stocked) (htask : task ∈ s.tasks) (hjob : task.job = .receive id plan stage)
    (htemp : plan.temp.isSome) (htask' : task' ∈ s.tasks)
    (hjob' : task'.job = .approval request session seq .opening) : request.transferId ≠ id := by
  rintro rfl
  obtain ⟨path, hpath⟩ := isSome_iff_exists.mp htemp
  have hcre := (hs.plan task htask request.transferId plan path (by rw [hjob]; rfl) hpath).2
  have hfol := hfoll.follows task htask
  have hfol' := hfoll.follows task' htask'
  unfold Task.Follows at hfol hfol'
  rw [hjob] at hfol
  rw [hjob'] at hfol'
  obtain ⟨r, hr, -, -, -, -, hmatch, -⟩ := hfol
  obtain ⟨_, hr', hseq, -⟩ := hfol'
  obtain rfl := mem_unique hr' hr
  have hunop : 0 < s.tasks.countP (fun task => task.job.unopened = some plan.seq) := by
    refine countP_pos_iff.mpr ⟨task', htask', decide_eq_true ?_⟩
    rw [hjob', hmatch.seq, hseq]
    rfl
  have honce := hs.once plan.seq
  rw [allotted] at honce
  omega

theorem tidy_start {disk} (hdisk : disk.Plain) : (start disk : TransferManager Fp).Tidy := by
  refine ⟨?_, fun _ h => absurd h not_mem_nil, fun _ h => absurd h not_mem_nil⟩
  intro _ n hn
  obtain ⟨f, -, hf⟩ := bind_eq_some_iff.mp hn
  obtain ⟨file, hfile, hcreator⟩ := bind_eq_some_iff.mp hf
  cases (hdisk.found file (mem_of_getElem? hfile)).symm.trans hcreator

variable [DecidableEq Fp]

theorem get_isSome_step (h : Stepped host s a t) (hidle : s.Idle a) (htask : task ∈ s.tasks)
    (hid : task.job.transfer = some id) (hget : (s.transfers.get id).isSome) :
    (t.transfers.get id).isSome := by
  cases h.recorded id with
  | kept e f _ hget' => rw [hget', isSome_map]; exact hget
  | inserted i _ _ r _ _ _ _ hget' => rw [hget']; rfl
  | forgotten _ r ha hr =>
    subst ha
    exact absurd hid (hidle (id, r) hr task htask)

theorem approval_step (h : Stepped host s a t) (hidle : s.Idle a) (hfoll : s.Followed host)
    (hs : ∀ task ∈ s.tasks, ∀ request session seq stage, task.job = .approval request session seq
      stage → (s.transfers.get request.transferId).isSome) :
    ∀ task ∈ t.tasks, ∀ request session seq stage, task.job = .approval request session seq stage →
      (t.transfers.get request.transferId).isSome := by
  have hkept : ∀ task ∈ s.tasks, ∀ request session seq stage,
      task.job = .approval request session seq stage →
      (t.transfers.get request.transferId).isSome := by
    intro task htask request session seq stage hjob
    exact get_isSome_step h hidle htask (by rw [hjob]; rfl)
      (hs task htask request session seq stage hjob)
  refine h.forall_tasks ?_ ?_ ?_
  · intro j task htask _
    exact hkept task (mem_of_getElem? htask)
  · intro _ _ hstart _ _ _ _ _ hjob
    cases hstart <;> cases hjob
  · rintro i _ task _ rfl htask hadv rfl
    have hmem := mem_of_getElem? htask
    have hadvan := advance_advanced hadv
    refine ⟨?_, ?_⟩
    · intro request session seq _ hout
      have hlead := hadvan.leads
      rw [hout] at hlead
      obtain ⟨stage', hjob⟩ := hlead.approval_inv
      exact hkept task hmem request session seq stage' hjob
    · intro task' htask' _ _ _ _ hjob'
      cases hadvan.spawned task' htask' with
      | dial => cases hjob'
      | approval _ _ _ r hjob =>
        cases hjob'
        have hins : task.job.inserts = some r := by rw [hjob]; rfl
        have hmade := hfoll.made task hmem
        rw [hjob] at hmade
        obtain ⟨⟨hid, -⟩, -⟩ := hmade
        rw [(advance_inserting hadv hins).1, ← hid]
        exact isSome_iff_exists.mpr ⟨r, SortedMap.get_insert_self _ _ _⟩

theorem promotes_of_advance {path} (h : s.advance host task input = some out)
    (hout : out.task.job = .receive id plan (.storing path)) :
    task.job = .receive id plan .promoting ∧ ∃ temp, plan.temp = some temp ∧
      out.effect = .rename temp path := by
  have hlead := (advance_advanced h).leads
  rw [hout] at hlead
  obtain ⟨_, hjob⟩ := hlead.receive_inv.resolve_right (fun hopening => nomatch hopening.2)
  cases advance_copies h hjob with
  | promotes temp _ hst htemp _ heff htask =>
    subst hst
    rw [htask] at hout
    cases hout
    exact ⟨hjob, temp, htemp, heff⟩
  | opens _ _ _ _ htask | reads _ _ _ _ htask | writes _ _ _ _ htask | stores _ _ _ _ htask =>
    rw [htask] at hout; cases hout
  | passes _ htask _ _ _ _ hst =>
    rw [htask] at hout
    cases hout
    exact absurd rfl (hst path)
  | leaves _ htask hjob' =>
    rw [htask] at hout
    rcases hjob' with rfl | ⟨reason, rfl⟩ <;> cases hout

section

variable (h : Stepped host s a t)
include h

theorem createdAt_before (hnam : s.Named a) (hs : s.Stocked)
    (hn : t.disk.createdAt (tempName id) = some n) :
    s.disk.createdAt (tempName id) = some n ∨ ∃ i input task out request session,
      Proceeds host s a i input task out ∧ task.job = .approval request session n .opening ∧
      out.effect = .openTemp request.transferId n ∧ request.transferId = id := by
  cases h.filed with
  | same halike => exact .inl ((halike.createdAt _).symm.trans hn)
  | removed i _ _ _ _ _ _ _ hdisk =>
    rw [hdisk, Disk.createdAt_remove] at hn
    split at hn
    · cases hn
    · exact .inl hn
  | renamed i _ _ _ _ _ _ path hproc hjob htemp hprom _ hdisk =>
    have hpath : tempName id ≠ path := by
      rintro rfl
      cases (isTempName_tempName id).symm.trans (hnam.ne_tempName hproc hjob htemp hprom)
    rw [hdisk, Disk.createdAt_rename, if_neg hpath] at hn
    split at hn
    · cases hn
    · exact .inl hn
  | opened i input task out request session _ hproc hjob heff hopen =>
    rw [Disk.createdAt_openTemp hs.sound hopen] at hn
    by_cases hid : id = request.transferId
    · rw [if_pos (congrArg tempName hid)] at hn
      cases hn
      exact .inr ⟨i, input, task, out, request, session, hproc, hjob, heff, hid.symm⟩
    · rw [if_neg (fun heq => hid (tempName_injective heq))] at hn
      exact .inl hn

theorem storing_step (hnam : s.Named a) (hfoll : s.Followed host) (hstock : s.Stocked)
    (hs : ∀ task ∈ s.tasks, ∀ id plan path, task.job = .receive id plan (.storing path) →
      plan.temp.isSome ∧ s.disk.createdAt (tempName id) = none) :
    ∀ task ∈ t.tasks, ∀ id plan path, task.job = .receive id plan (.storing path) →
      plan.temp.isSome ∧ t.disk.createdAt (tempName id) = none := by
  refine h.forall_tasks ?_ ?_ ?_
  · intro j task htask _ id plan path hjob
    have hmem := mem_of_getElem? htask
    obtain ⟨htemp, hnone⟩ := hs task hmem id plan path hjob
    refine ⟨htemp, eq_none_iff_forall_ne_some.mpr ?_⟩
    intro n hn
    rcases createdAt_before h hnam hstock hn with hbef | ⟨i, _, _, _, _, _, hproc, hjob', -, hid⟩
    · cases hnone.symm.trans hbef
    · exact not_opened_again hfoll hstock hmem hjob htemp (mem_of_getElem? hproc.slot) hjob' hid
  · intro _ _ hstart _ _ _ _ hjob
    cases hstart <;> cases hjob
  · rintro i _ task out rfl htask hadv rfl
    refine ⟨?_, ?_⟩
    · intro id plan path hout
      obtain ⟨hjob, temp, htemp, heff⟩ := promotes_of_advance hadv hout
      obtain ⟨hname, -⟩ := hstock.plan task (mem_of_getElem? htask) id plan temp
        (by rw [hjob]; rfl) htemp
      refine ⟨isSome_iff_exists.mpr ⟨temp, htemp⟩, ?_⟩
      have hdisk : ((s.apply host out.effect).resume i out).disk = s.disk.rename temp path :=
        by rw [heff]; rfl
      rw [hdisk, Disk.createdAt_rename, if_pos hname.symm]
    · intro task' htask' _ _ _ hjob
      cases (advance_advanced hadv).spawned task' htask' <;> cases hjob

theorem owed_unrecorded (hgen : s.Generates a) (hs : s.Tidy) (htask : task ∈ s.tasks)
    (hn : task.job.unrecorded = some (id, n)) : t.Owed id := by
  obtain ⟨j, hj⟩ := mem_iff_getElem?.mp htask
  rcases h.persists hj with hkept | ⟨_, out, rfl, hadv, ht, hout⟩
  · exact .unrecorded task n (mem_of_getElem? hkept) hn
  obtain ⟨request, session, stage, hjob, rfl, hst⟩ := Job.unrecorded_eq_some hn
  have hget := hs.approval task htask request session n stage hjob
  have hmem := mem_of_getElem? hout
  cases advance_approves hadv hjob with
  | draws _ _ _ hjob' => exact .unrecorded out.task n hmem (by rw [hjob']; rfl)
  | records challenge _ heff hjob' =>
    obtain ⟨r, hr⟩ := isSome_iff_exists.mp hget
    refine .recorded { r with temp := some (tempName request.transferId), challenge := challenge }
      ?_ rfl (.inr ⟨out.task, hmem, by rw [hjob']; rfl⟩)
    rw [ht, heff]
    change (s.update _ _).transfers.get _ = _
    rw [get_update, hr, map_some, if_pos rfl]
  | leaves _ _ hgener hrec =>
    rcases hst with rfl | ⟨challenge, rfl⟩
    · have hinput := hgen task hj (by rw [hn]; rfl)
      rw [hgener rfl] at hinput
      cases hinput
    · rw [hrec challenge rfl] at hget
      cases hget
  | asks hst' => rcases hst' with ⟨rfl, -⟩ | ⟨rfl, -⟩ <;> simp at hst
  | opens hst' | activates challenge hst' | discards challenge hst' | takes path hst'
  | removes path hst' =>
    subst hst'
    simp at hst

theorem owed_removing (htask : task ∈ s.tasks) (hpath : task.job.removes = some (tempName id))
    (hn : t.disk.createdAt (tempName id) = some n) : t.Owed id := by
  obtain ⟨j, hj⟩ := mem_iff_getElem?.mp htask
  rcases h.persists hj with hkept | ⟨_, _, rfl, hadv, ht, _⟩
  · exact .removing task (mem_of_getElem? hkept) hpath
  have hdisk : t.disk = s.disk.remove (tempName id) := by
    rw [ht, advance_removes hadv hpath]
    rfl
  rw [hdisk, Disk.createdAt_remove, if_pos rfl] at hn
  cases hn

end

theorem settles_of_advance (h : s.advance host task input = some out)
    (hsett : task.job.settles = some id) :
    out.task.job.settles = some id ∨ s.canTransition id .transferring ∨ ∀ path,
      (s.transfers.get id).bind TransferRecord.temp = some path → out.task.job.removes = some path ∧
      out.effect = .takeTemp id := by
  rcases Job.settles_eq_some hsett with ⟨_, _, _, challenge, hjob, rfl⟩ | htakes
  · cases advance_approves h hjob with
    | discards _ _ _ hjob' => exact .inl (by rw [hjob']; rfl)
    | activates _ _ heff => exact .inr (.inl (from_of_advance h heff).2)
    | leaves _ _ _ _ hact => exact absurd rfl (hact challenge)
    | asks hst => rcases hst with ⟨hst, -⟩ | ⟨hst, -⟩ <;> cases hst
    | opens hst | draws challenge' hst | records challenge' hst | takes path hst
    | removes path hst => cases hst
  · exact .inr (.inr fun path hpath => advance_takes h htakes hpath)

theorem owed_kept (h : Stepped host s a t) {e} (he : IsEffect host s a e)
    (hr : s.transfers.get id = some r) (htemp : r.temp = some (tempName id))
    (hends : r.state.isActive ∨ ∃ task ∈ s.tasks, task.job.settles = some id)
    (hr' : t.transfers.get id = some r') (halt : e.Alters id r r')
    (htemp' : r'.temp = some (tempName id)) : t.Owed id := by
  by_cases hactive' : r'.state.isActive
  · exact .recorded r' hr' htemp' (.inl hactive')
  have hterm : r'.state.isTerminal := by simpa [TransferState.isActive] using hactive'
  have howed : r.state.isActive → t.Owed id := by
    intro hactive
    rcases halt.state with hsame | ⟨_, rfl⟩
    · exact absurd (hsame ▸ hactive) hactive'
    · obtain ⟨i, _, task, out, hproc, heff, -⟩ := he.proceeds (by simp)
      have htakes := takes_of_enters hproc.advances heff hterm
      exact .recorded r' hr' htemp'
        (.inr ⟨out.task, (h.result hproc).2, Job.settles_of_takes htakes⟩)
  rcases hends with hactive | ⟨task, htask, hsett⟩
  · exact howed hactive
  obtain ⟨j, hj⟩ := mem_iff_getElem?.mp htask
  rcases h.persists hj with hkept | ⟨_, out, rfl, hadv, _, hout⟩
  · exact .recorded r' hr' htemp' (.inr ⟨task, mem_of_getElem? hkept, hsett⟩)
  have hmem := mem_of_getElem? hout
  rcases settles_of_advance hadv hsett with hsett' | hcan | htakes
  · exact .recorded r' hr' htemp' (.inr ⟨out.task, hmem, hsett'⟩)
  · rw [canTransition, hr] at hcan
    exact howed (TransferState.isActive_of_canTransitionTo hcan)
  · exact .removing out.task hmem (htakes (tempName id) (by rw [hr]; exact htemp)).1

theorem owed_recorded (h : Stepped host s a t) (hfresh : s.Fresh a) (hidle : s.Idle a) (hs : s.Tidy)
    (hr : s.transfers.get id = some r) (htemp : r.temp = some (tempName id))
    (hends : r.state.isActive ∨ ∃ task ∈ s.tasks, task.job.settles = some id)
    (hn : s.disk.createdAt (tempName id) = some n) : t.Owed id := by
  cases h.recorded id with
  | inserted i _ task r' ha htask hr' hid =>
    subst ha
    have hnone := hfresh task htask r' hr'
    rw [hid, record_of_get hr] at hnone
    cases hnone
  | forgotten _ _ ha hr' =>
    subst ha
    obtain ⟨hget', hterm⟩ := mem_forgotten hr'
    obtain rfl := mem_unique hr hget'
    obtain ⟨task, htask, hsett⟩ :=
      hends.resolve_left (by simp [TransferState.isActive, hterm])
    exact absurd (Job.transfer_of_settles hsett) (hidle (id, r) hr' task htask)
  | kept e f he hget hf =>
    rw [hr, map_some] at hget
    have halt := hf r
    rcases halt.temp with hsame | ⟨-, hclear⟩ | ⟨path, _, rfl, hpath⟩
    · exact owed_kept h he hr htemp hends hget halt (hsame.trans htemp)
    · rcases hclear with rfl | ⟨path, rfl⟩
      · obtain ⟨i, _, task, out, hproc, -, horig⟩ := he.proceeds (by simp)
        have hfound : (s.transfers.get id).bind TransferRecord.temp = some (tempName id) :=
          by rw [hr]; exact htemp
        exact .removing out.task (h.result hproc).2 (advance_takes hproc.advances horig hfound).1
      -- a file that is stored is no longer under its temp name
      obtain ⟨i, _, task, _, hproc, -, horig⟩ := he.proceeds (by simp)
      obtain ⟨plan, hjob⟩ := Job.stores_eq_some horig
      have hnone := (hs.storing task (mem_of_getElem? hproc.slot) id plan path hjob).2
      cases hnone.symm.trans hn
    · obtain ⟨i, _, _, _, _, -, horig⟩ := he.proceeds (by simp)
      exact owed_kept h he hr htemp hends hget halt (hpath.trans (congrArg some horig.2.1))

theorem step_tidy (h : Stepped host s a t) (hfresh : s.Fresh a) (hnam : s.Named a)
    (hgen : s.Generates a) (hidle : s.Idle a) (hfoll : s.Followed host) (hstock : s.Stocked)
    (hs : s.Tidy) : t.Tidy := by
  refine ⟨?_, approval_step h hidle hfoll hs.approval,
    storing_step h hnam hfoll hstock hs.storing⟩
  intro id n hn
  rcases createdAt_before h hnam hstock hn with hbef | ⟨i, _, task, out, _, _, hproc,
    hjob, heff, rfl⟩
  · cases hs.owed id n hbef with
    | unrecorded _ m htask hm => exact owed_unrecorded h hgen hs htask hm
    | removing _ htask hpath => exact owed_removing h htask hpath hn
    | recorded r hr htemp hends => exact owed_recorded h hfresh hidle hs hr htemp hends hbef
  cases advance_approves hproc.advances hjob with
  | opens _ _ hjob' =>
    refine .unrecorded out.task n (h.result hproc).2 ?_
    rcases hjob' with hjob' | hjob' <;> rw [hjob'] <;> rfl
  | asks _ heff' => cases heff'.symm.trans heff
  | leaves _ heff' =>
    rcases heff' with heff' | ⟨message, heff'⟩ <;> cases heff'.symm.trans heff
  | draws challenge hst | records challenge hst | activates challenge hst
  | discards challenge hst
  | takes path hst | removes path hst => cases hst

end Steps

/-- However the calls interleave, where every id is inserted once, no file is given a name like
one of a temp file, an approval that has created its temp file gets its challenge, and a record
is forgotten when no call works on its transfer: once a transfer is over or forgotten and its
calls have finished, its temp name leads to no file that was created for a transfer. -/
theorem no_partial_left [DecidableEq Fp] {disk : Disk} {as : List (Action Fp)} (hdisk : disk.Plain)
    (hrun : run (step host) (start disk) as = some s)
    (hfresh : Meets (step host) Fresh (start disk) as)
    (hnam : Meets (step host) Named (start disk) as)
    (hgen : Meets (step host) Generates (start disk) as)
    (hidle : Meets (step host) Idle (start disk) as) {id : TransferId}
    (hover : ∀ r, s.transfers.get id = some r → r.state.isTerminal)
    (hdone : ∀ task ∈ s.tasks, task.job.transfer ≠ some id) :
    s.disk.createdAt (tempName id) = none := by
  have hinv : s.Followed host ∧ s.Stocked ∧ s.Tidy := by
    have hall : ∀ s a t, ((Fresh s a ∧ Named s a) ∧ Generates s a ∧ Idle s a) →
        step host s a = some t → s.Followed host ∧ s.Stocked ∧ s.Tidy → t.Followed host ∧
        t.Stocked ∧ t.Tidy := by
      rintro s a t ⟨⟨hfr, hna⟩, hge, hid⟩ hstep ⟨hfoll, hstock, htidy⟩
      have hstp := step_stepped hstep
      exact ⟨step_followed hfr hstp hfoll, step_stocked hstp hfr hna hfoll hstock,
        step_tidy hstp hfr hna hge hid hfoll hstock htidy⟩
    exact run_invariant (step host) hall hrun ((hfresh.and (step host) hnam).and (step host)
      (hgen.and (step host) hidle)) ⟨followed_start disk, stocked_start hdisk, tidy_start hdisk⟩
  obtain ⟨-, hstock, htidy⟩ := hinv
  refine eq_none_iff_forall_ne_some.mpr ?_
  intro n hn
  cases htidy.owed id n hn with
  | unrecorded task m htask hm =>
    obtain ⟨_, _, _, hjob, rfl, -⟩ := Job.unrecorded_eq_some hm
    exact hdone task htask (by rw [hjob]; rfl)
  | removing task htask hpath =>
    obtain ⟨_, htran, hname⟩ := hstock.removes task htask (tempName id) hpath
    exact hdone task htask (tempName_injective hname ▸ htran)
  | recorded r hr _ hends =>
    rcases hends with hactive | ⟨task, htask, hsett⟩
    · rw [TransferState.isActive, hover r hr] at hactive
      cases hactive
    · exact hdone task htask (Job.transfer_of_settles hsett)

section Sample

/-- Peer 1 offers a file; it is accepted, and cancelled while the temp file is being recorded. -/
def cancelsApproval : List (Action Nat) :=
  [Action.connect 1 .pliwee, .control 0 (.offer (sampleOffer (sampleId 1) [5, 6]))] ++
    checksOffer 0 ++ insertsOffer 0 ++
  [Action.proceed 1 (.outcome true), .proceed 1 (.outcome true), .proceed 1 (.outcome true),
    .proceed 1 (.generated (some (sampleChallenge 1)))] ++
  cancels 2 (sampleId 1) ++ [Action.proceed 1 .go, .proceed 2 .go, .proceed 2 .go,
  .proceed 2 (.outcome true), .proceed 1 .go, .proceed 1 .go]

theorem no_partial_left_cancelled :
    ∃ s r, run (step (sampleHost .acceptor)) (start {}) cancelsApproval = some s ∧
      s.transfers.get (sampleId 1) = some r ∧ r.state = .cancelled ∧ s.disk.created r.seq = 1 ∧
      s.disk.createdAt (tempName (sampleId 1)) = none := by
  refine exists_some_imp₂ (P := fun s r => r.state = .cancelled ∧ s.disk.created r.seq = 1 ∧
    ∀ task ∈ s.tasks, task.job.transfer ≠ some (sampleId 1)) (exists_of_any₂ (by decide +kernel)) ?_
  intro s r hrun hr ⟨hstate, hcre, hdone⟩
  have hplain : ({} : Disk).Plain := ⟨nofun, nofun⟩
  refine ⟨hstate, hcre, no_partial_left hplain hrun (by decide +kernel) (by decide +kernel)
    (by decide +kernel) (by decide +kernel) ?_ hdone⟩
  intro _ hr'
  obtain rfl := mem_unique hr hr'
  rw [hstate]
  rfl

/-- Peer 1 offers a file; the temp file is created, but the challenge is not, and the transfer
fails. -/
def failsChallenge : List (Action Nat) :=
  [Action.connect 1 .pliwee, .control 0 (.offer (sampleOffer (sampleId 1) [5, 6]))] ++
    checksOffer 0 ++ insertsOffer 0 ++
  [Action.proceed 1 (.outcome true), .proceed 1 (.outcome true), .proceed 1 (.outcome true),
  .proceed 1 (.generated none), .proceed 1 .go, .proceed 1 .go, .proceed 1 .go,
  .proceed 1 (.outcome true)]

/-- The transfer has failed and no call is left, but its temp file is there. -/
theorem partial_left_without_challenge :
    ∃ s r, run (step (sampleHost .acceptor)) (start {}) failsChallenge = some s ∧
      s.transfers.get (sampleId 1) = some r ∧ r.state = .failed ∧ (∀ task ∈ s.tasks, task.isDone) ∧
      s.disk.createdAt (tempName (sampleId 1)) = some r.seq := by
  exact exists_of_any₂ (by decide +kernel)

end Sample

end TransferManager

end Leftovers

end OmniBridge.Desktop.Files
