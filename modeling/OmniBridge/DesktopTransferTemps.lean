import OmniBridge.DesktopTransferDisk

/-! A transfer has one temp file: it is created by the approval of the offer, once, and the
record, the plans of its streams and the calls that remove it all have its name. -/

namespace OmniBridge.Desktop.Files

open List Option Disk

namespace TransferManager

variable {Fp : Type} {host : Host Fp} {s t : TransferManager Fp} {id : TransferId} {task : Task Fp}
  {r r' : TransferRecord Fp} {a : Action Fp} {i j n : Nat} {input : Input} {out : Outcome Fp}
  {path : String}

def allotted (s : TransferManager Fp) (n : Nat) : Nat :=
  s.disk.created n + s.tasks.countP (fun task => task.job.unopened = some n)

structure Stocked (s : TransferManager Fp) : Prop where
  sound : s.disk.Sound
  once : ∀ n, s.allotted n ≤ 1
  known : ∀ n, s.recorded n = 0 → s.allotted n = 0
  unrecorded : ∀ task ∈ s.tasks, ∀ id n, task.job.unrecorded = some (id, n) → 0 < s.disk.created n
  temp : ∀ id r path, s.transfers.get id = some r → r.temp = some path → path = tempName id ∧
    0 < s.disk.created r.seq
  plan : ∀ task ∈ s.tasks, ∀ id plan path, task.job.plan = some (id, plan) → plan.temp = some path →
    path = tempName id ∧ 0 < s.disk.created plan.seq
  removes : ∀ task ∈ s.tasks, ∀ path, task.job.removes = some path →
    ∃ id, task.job.transfer = some id ∧ path = tempName id
  named : ∀ id r, s.offer id = some r → 0 < s.disk.created r.seq →
    s.disk.names (tempName id) = none ∨ s.disk.createdAt (tempName id) = some r.seq

section Steps

variable [DecidableEq Fp]

theorem created_step (h : Stepped host s a t) (n) : s.disk.created n ≤ t.disk.created n := by
  cases h.filed with
  | same halike => exact (halike.created n).ge
  | opened i _ _ _ _ _ _ _ _ _ hopen =>
    rw [created_openTemp hopen]
    exact Nat.le_add_right _ _
  | removed _ _ _ _ _ _ _ _ hdisk | renamed _ _ _ _ _ _ _ _ _ _ _ _ _ hdisk =>
    rw [hdisk]; exact Nat.le_refl _

theorem sound_step (h : Stepped host s a t) (hs : s.disk.Sound) : t.disk.Sound := by
  cases h.filed with
  | same halike => exact halike.sound hs
  | opened i _ _ _ _ _ _ _ _ _ hopen => exact sound_openTemp hs hopen
  | removed i _ _ _ path _ _ _ hdisk => exact hdisk ▸ sound_remove hs path
  | renamed i _ _ _ _ _ temp path _ _ _ _ _ hdisk => exact hdisk ▸ sound_rename hs temp path

omit [DecidableEq Fp] in
theorem unopened_of_starts {job : Job Fp} (h : job.Starts) : job.unopened = none := by
  cases h <;> rfl

theorem countP_unopened_spawned (h : s.advance host task input = some out) (n) :
    out.spawned.countP (fun task => task.job.unopened = some n) ≤ if task.job.inserts.any
      (·.seq = n) then 1 else 0 := by
  by_cases hins : ∃ r, task.job.inserts = some r
  · obtain ⟨r, hr⟩ := hins
    rcases (advance_inserting h hr).2 with ⟨_, _, -, -, hspawn⟩ | ⟨_, _, _, -, -, hspawn⟩
    · rw [hspawn]
      exact Nat.zero_le _
    · rw [hspawn, hr]
      simp [countP_singleton, Job.unopened]
  · have hzero : out.spawned.countP (fun task => task.job.unopened = some n) = 0 := by
      refine countP_eq_zero.mpr ?_
      intro task' htask'
      cases (advance_advanced h).spawned task' htask' with
      | approval _ _ _ r hjob => exact absurd ⟨r, by rw [hjob]; rfl⟩ hins
      | dial => simp [Job.unopened]
    rw [hzero]
    exact Nat.zero_le _

theorem created_proceeds (htask : s.tasks[i]? = some task)
    (hadv : s.advance host task input = some out) (n) :
    ((s.apply host out.effect).resume i out).disk.created n = s.disk.created n ∨
      (task.job.unopened = some n ∧ out.task.job.unopened = none) ∧
      ((s.apply host out.effect).resume i out).disk.created n = s.disk.created n + 1 := by
  have hproc : Proceeds host s (.proceed i input) i input task out := ⟨rfl, htask, hadv⟩
  cases (Stepped.proceeds htask hadv).filed with
  | same halike => exact .inl (halike.created n)
  | removed _ _ _ _ _ _ _ _ hdisk | renamed _ _ _ _ _ _ _ _ _ _ _ _ _ hdisk =>
    rw [hdisk]; exact .inl rfl
  | opened _ _ _ out' _ _ seq hproc' hjob heff hopen =>
    obtain ⟨rfl, rfl, rfl⟩ := hproc.unique hproc'
    rw [created_openTemp hopen]
    by_cases hseq : seq = n
    · subst hseq
      refine .inr ⟨⟨by rw [hjob]; rfl, ?_⟩, by rw [if_pos rfl]⟩
      cases hout : out'.task.job.unopened with
      | none => rfl
      | some => exact absurd heff ((unopened_of_advance hadv hout).2 _ _)
    · rw [if_neg hseq]
      exact .inl rfl

theorem allotted_resume (htask : s.tasks[i]? = some task)
    (hadv : s.advance host task input = some out) (n) :
    ((s.apply host out.effect).resume i out).allotted n ≤ s.allotted n + if task.job.inserts.any
      (·.seq = n) then 1 else 0 := by
  have hspawn := countP_unopened_spawned hadv n
  have hset := countP_set_add htask (fun task => task.job.unopened = some n) out.task
  have htasks : ((s.apply host out.effect).resume i out).tasks = s.tasks.set i out.task ++
      out.spawned := by
    rw [resume, apply_tasks]
  have hkept : decide (out.task.job.unopened = some n) → decide (task.job.unopened = some n) := by
    intro hn
    exact decide_eq_true (unopened_of_advance hadv (of_decide_eq_true hn)).1
  rw [allotted, allotted, htasks, countP_append]
  rcases created_proceeds htask hadv n with _ | ⟨⟨hbef, hafter⟩, _⟩
  · by_cases hn : decide (out.task.job.unopened = some n)
    · rw [if_pos hn, if_pos (hkept hn)] at hset
      omega
    · rw [if_neg hn] at hset
      omega
  · rw [if_pos (decide_eq_true hbef), if_neg (by simp [hafter])] at hset
    omega

theorem allotted_step (h : Stepped host s a t) (hnumb : s.Numbered) (honce : ∀ n, s.allotted n ≤ 1)
    (hknown : ∀ n, s.recorded n = 0 → s.allotted n = 0) :
    (∀ n, t.allotted n ≤ 1) ∧ ∀ n, t.recorded n = 0 → t.allotted n = 0 := by
  have hbef : ∀ n, t.recorded n = 0 → s.recorded n = 0 := by
    intro n _
    have hle := recorded_step h n
    omega
  have hsame : (∀ n, t.allotted n ≤ s.allotted n) → (∀ n, t.allotted n ≤ 1) ∧
      ∀ n, t.recorded n = 0 → t.allotted n = 0 := by
    intro hle
    refine ⟨fun n => (hle n).trans (honce n), ?_⟩
    intro n hn
    have hzero := hknown n (hbef n hn)
    have hn := hle n
    omega
  cases h with
  | environment | forgets => exact hsame (fun n => Nat.le_refl _)
  | starts _ hstart =>
    refine hsame (fun n => ?_)
    simp [allotted, spawn, unopened_of_starts hstart]
  | @proceeds i _ task out htask hadv =>
    have hle := allotted_resume htask hadv
    cases hr : task.job.inserts with
    | none =>
      refine hsame (fun n => ?_)
      simpa [hr] using hle n
    | some r =>
      have hfree := hknown r.seq (hnumb.apart_inserting (mem_of_getElem? htask) hr)
      have hrecor : 0 < ((s.apply host out.effect).resume i out).recorded r.seq := by
        have happly := recorded_apply host s out.effect r.seq
        rw [(advance_inserting hadv hr).1] at happly ⊢
        simp only [Effect.inserting, countP_singleton, decide_true, if_true] at happly
        change ((s.apply host (.insert r)).recorded r.seq) > 0
        omega
      simp only [hr, any_some, decide_eq_true_eq] at hle
      refine ⟨?_, ?_⟩
      · intro n
        have hn := hle n
        by_cases hseq : r.seq = n
        · subst hseq
          rw [if_pos rfl] at hn
          omega
        · rw [if_neg hseq] at hn
          exact hn.trans (honce n)
      · intro n hzero
        have hn := hle n
        by_cases hseq : r.seq = n
        · subst hseq
          omega
        · rw [if_neg hseq, hknown n (hbef n hzero)] at hn
          omega

omit [DecidableEq Fp] in
theorem seq_of_approval {request session seq stage} (hs : s.Followed host) (htask : task ∈ s.tasks)
    (hjob : task.job = .approval request session seq stage)
    (hr : s.record request.transferId = some r) : r.seq = seq := by
  have hfol := hs.follows task htask
  unfold Task.Follows at hfol
  rw [hjob] at hfol
  obtain ⟨_, hr', hseq, -⟩ := hfol
  rw [offer_eq_of_record hr] at hr'
  cases hr'
  exact hseq

section

variable (h : Stepped host s a t)
include h

theorem unrecorded_step
    (hs : ∀ task ∈ s.tasks, ∀ id n, task.job.unrecorded = some (id, n) → 0 < s.disk.created n) :
    ∀ task ∈ t.tasks, ∀ id n, task.job.unrecorded = some (id, n) → 0 < t.disk.created n := by
  refine h.forall_tasks ?_ ?_ ?_
  · intro j task htask _ id n hn
    exact (hs task (mem_of_getElem? htask) id n hn).trans_le (created_step h n)
  · intro _ _ hstart _ _ n hn
    cases hstart <;> cases hn
  · rintro i _ task out rfl htask hadv rfl
    refine ⟨?_, ?_⟩
    · intro id n hn
      rcases unrecorded_of_advance hadv hn with hbef | heff
      · exact (hs task (mem_of_getElem? htask) id n hbef).trans_le (created_step h n)
      obtain ⟨d, hd⟩ := isSome_iff_exists.mp (from_of_advance hadv heff).2
      have hcre := created_openTemp hd n
      have hdisk : ((s.apply host out.effect).resume i out).disk = d := by
        rw [heff]
        exact congrArg (getD · s.disk) hd
      rw [hdisk, hcre, if_pos rfl]
      exact Nat.succ_pos _
    · intro task' htask' _ n hn
      cases (advance_advanced hadv).spawned task' htask' <;> cases hn

theorem temp_step (hfoll : s.Followed host)
    (hunr : ∀ task ∈ s.tasks, ∀ id n, task.job.unrecorded = some (id, n) → 0 < s.disk.created n)
    (hs : ∀ id r path, s.transfers.get id = some r → r.temp = some path → path = tempName id ∧
      0 < s.disk.created r.seq) :
    ∀ id r path, t.transfers.get id = some r → r.temp = some path → path = tempName id ∧
      0 < t.disk.created r.seq := by
  intro id _ path hr' hpath
  rcases h.before hr' with ⟨i, input, task, -, htask, hr, -⟩ | ⟨e, r, he, hr, halt⟩
  · cases (new_of_inserts hr (hfoll.made task (mem_of_getElem? htask))).2.2.symm.trans hpath
  have hseq := halt.evolves.seq
  rcases halt.temp with hsame | ⟨hnone, -⟩ | ⟨_, _, rfl, htemp⟩
  · obtain ⟨hname, hcre⟩ := hs id r path hr (hsame.symm.trans hpath)
    exact ⟨hname, hseq ▸ hcre.trans_le (created_step h r.seq)⟩
  · cases hnone.symm.trans hpath
  -- the approval that created the file has its record's number
  obtain ⟨i, _, task, _, hproc, -, hrec, hname, -⟩ := he.proceeds nofun
  obtain rfl := mem_unique htemp hpath
  obtain ⟨request, _, seq, hjob, rfl⟩ := Job.records_eq_some hrec
  have hmem := mem_of_getElem? hproc.slot
  have hcre := hunr task hmem request.transferId seq (by rw [hjob]; rfl)
  have hrseq := seq_of_approval hfoll hmem hjob (record_of_get hr)
  rw [hseq, hrseq]
  exact ⟨hname, hcre.trans_le (created_step h seq)⟩

theorem plan_step
    (htemp : ∀ id r path, s.transfers.get id = some r → r.temp = some path → path = tempName id ∧
      0 < s.disk.created r.seq)
    (hs : ∀ task ∈ s.tasks, ∀ id plan path, task.job.plan = some (id, plan) →
      plan.temp = some path → path = tempName id ∧ 0 < s.disk.created plan.seq) :
    ∀ task ∈ t.tasks, ∀ id plan path, task.job.plan = some (id, plan) → plan.temp = some path →
      path = tempName id ∧ 0 < t.disk.created plan.seq := by
  refine h.forall_tasks ?_ ?_ ?_
  · intro j task htask _ id plan path hplan hpath
    obtain ⟨hname, hcre⟩ := hs task (mem_of_getElem? htask) id plan path hplan hpath
    exact ⟨hname, hcre.trans_le (created_step h plan.seq)⟩
  · intro _ _ hstart _ _ _ _ hplan _
    cases hstart <;> cases hplan
  · rintro i _ task _ rfl htask hadv rfl
    refine ⟨?_, ?_⟩
    · intro id plan path hplan hpath
      have hbef : path = tempName id ∧ 0 < s.disk.created plan.seq := by
        rcases (advance_noted hadv).plan id plan hplan with ⟨hsame, -⟩ | ⟨r, -, hr, rfl, -⟩
        · exact hs task (mem_of_getElem? htask) id plan path hsame hpath
        · exact htemp id r path hr hpath
      exact ⟨hbef.1, hbef.2.trans_le (created_step h plan.seq)⟩
    · intro task' htask' _ _ _ hplan _
      cases (advance_advanced hadv).spawned task' htask' <;> cases hplan

theorem removes_step
    (htemp : ∀ id r path, s.transfers.get id = some r → r.temp = some path → path = tempName id ∧
      0 < s.disk.created r.seq)
    (hs : ∀ task ∈ s.tasks, ∀ path, task.job.removes = some path →
      ∃ id, task.job.transfer = some id ∧ path = tempName id) :
    ∀ task ∈ t.tasks, ∀ path, task.job.removes = some path → ∃ id, task.job.transfer = some id ∧
      path = tempName id := by
  refine h.forall_tasks ?_ ?_ ?_
  · intro j task htask _
    exact hs task (mem_of_getElem? htask)
  · intro _ _ hstart _ _ hpath
    cases hstart <;> cases hpath
  · rintro i _ _ _ rfl _ hadv rfl
    refine ⟨?_, ?_⟩
    · intro path hpath
      obtain ⟨id, -, hfound, htran⟩ := removes_of_advance hadv hpath
      obtain ⟨r, hr, hrtemp⟩ := bind_eq_some_iff.mp hfound
      exact ⟨id, htran, (htemp id r path hr hrtemp).1⟩
    · intro task' htask' _ hpath
      cases (advance_advanced hadv).spawned task' htask' <;> cases hpath

theorem offer_before (hfresh : s.Fresh a) (hs : s.Kept) (hr : t.offer id = some r) :
    s.offer id = some r ∨ s.recorded r.seq = 0 := by
  obtain ⟨x, hx, rfl⟩ := map_eq_some_iff.mp hr
  cases h.recalled hfresh hs id with
  | kept e f _ hrecord hf =>
    rw [hrecord] at hx
    obtain ⟨r₀, hr₀, rfl⟩ := map_eq_some_iff.mp hx
    exact .inl ((offer_eq_of_record hr₀).trans (congrArg some (hf r₀).evolves.fixed.symm))
  | inserted i _ _ r' _ htask hr' _ _ hget =>
    obtain rfl := mem_unique (record_of_get hget) hx
    have hnew : s.recorded r'.seq = 0 := hs.numbered.apart_inserting (mem_of_getElem? htask) hr'
    exact .inr hnew

theorem named_step (hfresh : s.Fresh a) (hnam : s.Named a) (hfoll : s.Followed host)
    (hs : s.Stocked) :
    ∀ id r, t.offer id = some r → 0 < t.disk.created r.seq → t.disk.names (tempName id) = none ∨
      t.disk.createdAt (tempName id) = some r.seq := by
  intro id r hr hpos
  have hbef : 0 < s.disk.created r.seq → s.disk.names (tempName id) = none ∨
      s.disk.createdAt (tempName id) = some r.seq := by
    intro hpos
    rcases offer_before h hfresh hfoll.kept hr with hr | hnew
    · exact hs.named id r hr hpos
    · have hzero := hs.known r.seq hnew
      rw [allotted] at hzero
      omega
  cases h.filed with
  | same halike =>
    rw [halike.created] at hpos
    rw [halike.names, halike.createdAt]
    exact hbef hpos
  | removed i _ _ _ path _ _ _ hdisk =>
    rw [hdisk] at hpos ⊢
    by_cases hpath : tempName id = path
    · exact .inl (by rw [names_remove, if_pos hpath])
    · rw [createdAt_remove, names_remove, if_neg hpath, if_neg hpath]
      exact hbef hpos
  | renamed i _ _ _ _ _ temp path hproc hjob htemp hprom _ hdisk =>
    rw [hdisk] at hpos ⊢
    have hpath : tempName id ≠ path := by
      rintro rfl
      cases (isTempName_tempName id).symm.trans (hnam.ne_tempName hproc hjob htemp hprom)
    by_cases htemp' : tempName id = temp
    · exact .inl (by rw [names_rename, if_pos htemp'])
    · rw [createdAt_rename, names_rename, if_neg htemp', if_neg hpath, if_neg htemp', if_neg hpath]
      exact hbef hpos
  | opened i _ task _ request _ seq hproc hjob _ hopen =>
    have hfol := hfoll.follows task (mem_of_getElem? hproc.slot)
    unfold Task.Follows at hfol
    rw [hjob] at hfol
    obtain ⟨_, hr₀, hseq, -⟩ := hfol
    have hr₀' := offer_step h hfresh hfoll.kept hr₀
    by_cases hid : id = request.transferId
    · subst hid
      obtain rfl := mem_unique hr₀' hr
      right
      rw [createdAt_openTemp hs.sound hopen, if_pos rfl, hseq]
    have hne : seq ≠ r.seq := by
      intro heq
      exact hid (id_of_offer_seq (step_kept h hfresh hfoll.kept) hr₀' hr (heq.symm.trans hseq.symm))
    have hname : tempName id ≠ tempName request.transferId := fun heq =>
      hid (tempName_injective heq)
    rw [created_openTemp hopen, if_neg hne, Nat.add_zero] at hpos
    rw [createdAt_openTemp hs.sound hopen, names_openTemp hopen, if_neg hname, if_neg hname]
    exact hbef hpos

theorem step_stocked (hfresh : s.Fresh a) (hnam : s.Named a) (hfoll : s.Followed host)
    (hs : s.Stocked) : t.Stocked := by
  obtain ⟨honce, hknown⟩ := allotted_step h hfoll.kept.numbered hs.once hs.known
  exact ⟨sound_step h hs.sound, honce, hknown, unrecorded_step h hs.unrecorded,
    temp_step h hfoll hs.unrecorded hs.temp, plan_step h hs.temp hs.plan,
    removes_step h hs.temp hs.removes, named_step h hfresh hnam hfoll hs⟩

end

end Steps

theorem stocked_start {disk} (hdisk : disk.Plain) : (start disk : TransferManager Fp).Stocked := by
  have hzero : ∀ n, disk.created n = 0 := by
    intro n
    refine countP_eq_zero.mpr ?_
    intro file hfile
    simp [hdisk.found file hfile]
  refine ⟨hdisk.sound, ?_, ?_, ?_, ?_, ?_, ?_, ?_⟩
  · intro n
    change disk.created n + 0 ≤ 1
    rw [hzero n]
    exact Nat.zero_le 1
  · intro n _
    exact hzero n
  · exact fun _ h => absurd h not_mem_nil
  · intro id r _ hr
    cases (SortedMap.get_empty id).symm.trans hr
  · exact fun _ h => absurd h not_mem_nil
  · exact fun _ h => absurd h not_mem_nil
  · intro _ r hr
    cases hr

end TransferManager

end OmniBridge.Desktop.Files
