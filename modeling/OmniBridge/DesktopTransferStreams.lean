import OmniBridge.DesktopTransferRecords

/-! What a data stream notes of its own work. A step of a task changes its notes only at the
few places where a stream uses up a challenge, takes its plan, reads, writes or promotes. -/

namespace OmniBridge.Desktop.Files

def Job.runs {Fp : Type} : Job Fp → Option TransferId
  | .runStream id => some id
  | _ => none

def Job.plan {Fp : Type} : Job Fp → Option (TransferId × StreamPlan)
  | .send id plan _ | .receive id plan _ => some (id, plan)
  | _ => none

def SendStage.isWriting : SendStage → Bool
  | .writing _ _ => true
  | _ => false

def SendStage.chunk : SendStage → Option Bytes
  | .polling _ chunk | .writing _ chunk => some chunk
  | _ => none

section Noted

variable {Fp : Type}

structure Noted (s : TransferManager Fp) (task : Task Fp) (job : Job Fp) (out : Outcome Fp) :
    Prop where
  opened : out.task.opened = task.opened ∨ ∃ id r, job.consumes = some id ∧
    s.transfers.get id = some r ∧ r.state = .transferring ∧ r.challenge.isSome ∧
    out.task.opened = some r.seq ∧ (out.effect = .consume id ∨ out.effect = .takeChallenge id)
  serves : out.task.serves = task.serves ∨ ∃ id r, job = .runStream id ∧
    s.transfers.get id = some r ∧ out.task.serves = some r.seq
  plan : ∀ id plan, out.task.job.plan = some (id, plan) → job.plan = some (id, plan) ∧
    out.task.serves = task.serves ∨ ∃ r, job = .runStream id ∧ s.transfers.get id = some r ∧
    plan = .of r ∧ out.task.serves = some r.seq ∧ out.effect = .nothing
  read : out.task.read = task.read ∨ ∃ id plan file chunk, job = .receive id plan (.reading file) ∧
    out.task.job = .receive id plan (.writing file chunk) ∧ out.task.read = task.read ++ chunk ∧
    out.task.read.length ≤ plan.sizeBytes ∧ out.effect = .nothing
  wrote : out.task.wrote = task.wrote ∨ ∃ id plan rest chunk count stage,
    job = .send id plan (.writing rest chunk) ∧ out.task.job = .send id plan stage ∧
    stage.isWriting = false ∧ out.task.wrote = task.wrote ++ [chunk.take count]
  promoted : out.task.promoted = task.promoted ∨ ∃ id plan temp path,
    job = .receive id plan .promoting ∧ out.task.job = .receive id plan (.storing path) ∧
    out.task.promoted = some path ∧ out.effect = .rename temp path

namespace TransferManager

variable {host : Host Fp} {s : TransferManager Fp} {task : Task Fp} {input : Input}
  {out : Outcome Fp} {id : TransferId} {job job' : Job Fp}

theorem noted_of_goes (h : out.task = task.goes job')
    (hplan : ∀ id plan, job'.plan = some (id, plan) → job.plan = some (id, plan)) :
    Noted s task job out := by
  refine ⟨.inl ?_, .inl ?_, ?_, .inl ?_, .inl ?_, .inl ?_⟩
  · rw [h]; rfl
  · rw [h]; rfl
  · intro id plan hjob
    rw [h] at hjob ⊢
    exact .inl ⟨hplan id plan hjob, rfl⟩
  all_goals rw [h]; rfl

theorem goes_noted (h : goes task job' = some out)
    (hplan : ∀ id plan, job'.plan = some (id, plan) → job.plan = some (id, plan)) :
    Noted s task job out := by
  cases h
  exact noted_of_goes rfl hplan

variable {profile : Profile} {mac : Bytes} {peer : Fp}

theorem checkStream_ok [DecidableEq Fp] {r} (h : s.checkStream host id peer profile mac = .ok r) :
    s.transfers.get id = some r ∧ r.state = .transferring ∧ ∃ challenge,
      r.challenge = some challenge ∧ host.computeStreamMac r.profile challenge host.localFingerprint
      peer id = mac := by
  unfold checkStream at h
  split at h
  · cases h
  rename_i r' hget
  split at h
  · cases h
  split at h
  · cases h
  rename_i hstate
  split at h
  · cases h
  rename_i challenge hchal
  split at h
  · cases h
  split at h
  · cases h
  · rename_i hmac
    cases h
    exact ⟨hget, not_not.mp hstate, challenge, hchal, not_not.mp hmac⟩

theorem acceptStream_noted [DecidableEq Fp] {stage}
    (h : s.acceptStream host task peer profile id mac stage input = some out) :
    Noted s task (.acceptStream peer profile id mac stage) out := by
  unfold acceptStream at h
  split at h
  · exact goes_noted h nofun
  · split at h
    · exact goes_noted h nofun
    rename_i r hcheck
    cases h
    obtain ⟨hget, hstate, _, hchal, -⟩ := checkStream_ok hcheck
    refine ⟨.inr ⟨id, r, rfl, hget, hstate, ?_, rfl, .inl rfl⟩, .inl rfl,
      nofun, .inl rfl, .inl rfl, .inl rfl⟩
    rw [hchal]
    rfl
  · cases h
    exact ⟨.inl rfl, .inl rfl, nofun, .inl rfl, .inl rfl, .inl rfl⟩
  · cases h
    refine ⟨.inl rfl, .inl rfl, ?_, .inl rfl, .inl rfl, .inl rfl⟩
    intro _ _ hplan
    split at hplan <;> cases hplan
  · cases h

theorem dialAndRun_noted {stage} (h : s.dialAndRun task id stage input = some out) :
    Noted s task (.dial id stage) out := by
  unfold dialAndRun at h
  split at h
  case h_1 | h_3 | h_4 | h_6 => split at h <;> exact goes_noted h nofun
  · split at h
    · rename_i r hfilter
      cases h
      obtain ⟨hget, hready⟩ := Option.filter_eq_some_iff.mp hfilter
      obtain ⟨hstate, hchal⟩ := Bool.and_eq_true_iff.mp hready
      exact ⟨.inr ⟨id, r, rfl, hget, of_decide_eq_true hstate, hchal, rfl, .inr rfl⟩, .inl rfl,
        nofun, .inl rfl, .inl rfl, .inl rfl⟩
    · exact goes_noted h nofun
  · exact goes_noted h nofun
  · cases h
    exact noted_of_goes rfl nofun
  · cases h

theorem runStream_noted (h : s.runStream task id input = some out) :
    Noted s task (.runStream id) out := by
  unfold runStream at h
  split at h
  · split at h
    · exact goes_noted h nofun
    rename_i r hget
    cases h
    refine ⟨.inl rfl, .inr ⟨id, r, rfl, hget, rfl⟩, ?_, .inl rfl, .inl rfl, .inl rfl⟩
    intro id' plan hplan
    obtain ⟨rfl, rfl⟩ : id' = id ∧ plan = .of r := by
      split at hplan <;> cases hplan <;> exact ⟨rfl, rfl⟩
    exact .inr ⟨r, rfl, hget, rfl, rfl, rfl⟩
  · cases h

variable {plan : StreamPlan}

theorem plan_of_leadsTo (h : job.LeadsTo job') (hjob : ∀ id, job ≠ .runStream id)
    (hplan : job'.plan = some (id, plan)) : job.plan = some (id, plan) := by
  cases job' with
  | send | receive =>
    cases hplan
    cases job with
    | runStream id => exact absurd rfl (hjob id)
    | send | receive =>
      first
      | obtain ⟨rfl, rfl⟩ := h
        rfl
      | exact h.elim
    | _ => exact h.elim
  | _ => cases hplan

theorem noted_of_leadsTo (h : job.LeadsTo out.task.job) (hjob : ∀ id, job ≠ .runStream id)
    (htask : out.task = task.goes out.task.job) : Noted s task job out :=
  noted_of_goes htask (fun _ _ => plan_of_leadsTo h hjob)

theorem runSend_noted {stage} (h : s.runSend task id plan stage input = some out)
    (hlead : (Job.send id plan stage).LeadsTo out.task.job) :
    Noted s task (.send id plan stage) out := by
  unfold runSend at h
  split at h
  case h_7 rest chunk count =>
    split at h
    · cases h
      exact noted_of_leadsTo hlead nofun rfl
    split at h
    · cases h
      refine ⟨.inl rfl, .inl rfl, fun _ _ hplan => .inl ⟨hplan, rfl⟩, .inl rfl, .inr ?_, .inl rfl⟩
      refine ⟨id, plan, rest, chunk, count, _, rfl, rfl, ?_, rfl⟩
      split <;> rfl
    · cases h
  all_goals
    refine noted_of_leadsTo hlead nofun ?_
    repeat' split at h
    all_goals
      cases h
      try rfl

theorem runReceive_noted {stage} (h : s.runReceive host task id plan stage input = some out)
    (hlead : (Job.receive id plan stage).LeadsTo out.task.job) :
    Noted s task (.receive id plan stage) out := by
  unfold runReceive at h
  split at h
  case h_3 file chunk =>
    split at h
    · rename_i hfits
      cases h
      refine ⟨.inl rfl, .inl rfl, fun _ _ hplan => .inl ⟨hplan, rfl⟩, .inr ?_, .inl rfl, .inl rfl⟩
      refine ⟨id, plan, file, chunk, rfl, rfl, rfl, ?_, rfl⟩
      simp only [fits, Bool.and_eq_true, decide_eq_true_eq] at hfits
      simp only [List.length_append]
      omega
    · cases h
  case h_16 =>
    split at h
    · rename_i temp path hpath
      cases h
      exact ⟨.inl rfl, .inl rfl, fun _ _ hplan => .inl ⟨hplan, rfl⟩, .inl rfl, .inl rfl,
        .inr ⟨id, plan, temp, path, rfl, rfl, rfl, rfl⟩⟩
    · cases h
      exact noted_of_leadsTo hlead nofun rfl
  all_goals
    refine noted_of_leadsTo hlead nofun ?_
    repeat' split at h
    all_goals
      cases h
      try rfl

theorem advance_noted [DecidableEq Fp] (h : s.advance host task input = some out) :
    Noted s task task.job out := by
  have hadv := advance_advanced h
  by_cases hstr : task.job.isStream
  · unfold advance at h
    split at h <;> rename_i hjob <;> rw [hjob] at hstr ⊢
    case h_13 => exact acceptStream_noted h
    case h_14 => exact dialAndRun_noted h
    case h_15 => exact runStream_noted h
    case h_16 => exact runSend_noted h (hjob ▸ hadv.leads)
    case h_17 => exact runReceive_noted h (hjob ▸ hadv.leads)
    all_goals cases hstr
  · rw [Bool.not_eq_true] at hstr
    refine noted_of_leadsTo hadv.leads ?_ (hadv.keeps hstr)
    intro _ heq
    rw [heq] at hstr
    cases hstr

end TransferManager

end Noted

end OmniBridge.Desktop.Files
