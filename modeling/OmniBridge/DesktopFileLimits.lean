import OmniBridge.DesktopTransferRecords

/-! How many transfers a peer has at once, and which offer an id stands for. The limit and the
id are checked under one lock and the record is inserted under another, so both hold where
no other call is between its check and its insert. -/

namespace OmniBridge.Desktop.Files

open List Option

namespace Job

variable {Fp : Type}

def counted : Job Fp → Option Fp
  | .offerFile peer _ (.hashing _ _ _) | .offerFile peer _ (.inserting _) => some peer
  | .onOffer ctx _ _ (.inserting _) => some ctx.peer
  | _ => none

def reserves : Job Fp → Option TransferId
  | .offerFile _ _ (.inserting r) => some r.id
  | .onOffer _ id _ .counting | .onOffer _ id _ (.inserting _) => some id
  | _ => none

def claims : Job Fp → Option TransferId
  | .approval request _ _ _ => some request.transferId
  | job => job.reserves

def asks : Job Fp → Option Fp
  | .approval request _ _ _ => some request.peer
  | _ => none

theorem claims_of_reserves {job : Job Fp} {id} (h : job.reserves = some id) :
    job.claims = some id := by
  cases job with
  | approval => cases h
  | _ => exact h

end Job

def Input.generatedId : Input → Option TransferId
  | .hashed _ id => id
  | _ => none

def TransferRecord.shown {Fp : Type} (r : TransferRecord Fp) : IncomingOffer Fp :=
  ⟨r.id, r.peer, r.filename, r.sizeBytes, r.mimeType⟩

namespace TransferManager

variable {Fp : Type} [DecidableEq Fp] {host : Host Fp} {s t : TransferManager Fp} {job : Job Fp}
  {id : TransferId} {peer : Fp} {a : Action Fp} {i : Nat} {task : Task Fp} {input : Input}
  {out : Outcome Fp} {r : TransferRecord Fp}

section Counting

theorem activeCountFor_apply (host) (s : TransferManager Fp) (e : Effect Fp) (peer) :
    (s.apply host e).activeCountFor peer ≤ s.activeCountFor peer + e.inserting.countP
      (·.peer = peer) := by
  cases touches host s e with
  | inserts r heq =>
    subst heq
    have hinsert := s.transfers.countP_insert r.id r
      (fun p => p.2.peer = peer && p.2.state.isActive)
    have hone : (if (decide (r.peer = peer) && r.state.isActive) then 1 else 0) ≤
        ([r] : List (TransferRecord Fp)).countP (·.peer = peer) := by
      by_cases hpeer : r.peer = peer
      · simp only [hpeer, decide_true, countP_singleton, if_true]
        split <;> omega
      · simp [hpeer]
    simp only [apply, activeCountFor, Effect.inserting] at hinsert hone ⊢
    omega
  | alters id f hne happly hf =>
    rw [happly, activeCountFor, update, SortedMap.countP_modify, hne, countP_nil, Nat.add_zero]
    refine countP_mono_left ?_
    intro p _ hcounts
    by_cases hid : p.1 = id
    · simp only [hid, if_true, Bool.and_eq_true, decide_eq_true_eq,
        (hf p.2).evolves.peer] at hcounts ⊢
      exact ⟨hcounts.1, (hf p.2).evolves.active hcounts.2⟩
    · simpa only [hid, if_false] using hcounts
  | nothing _ htable => rw [activeCountFor, htable]; exact Nat.le_add_right _ _

end Counting

section Checks

omit [DecidableEq Fp] in
theorem forall_none {P : Fp → Prop} {Q : TransferId → Prop} :
    (∀ peer, none = some peer → P peer) ∧ ∀ id, none = some id → Q id := by
  simp

section

variable (h : s.advance host task input = some out)
include h

theorem checks_of_advance (hout : out.task.job.isOffer) :
    (∀ peer, out.task.job.counted = some peer → task.job.counted = some peer ∨
      task.job.counted = none ∧ s.activeCountFor peer < MAX_CONCURRENT_TRANSFERS_PER_PEER) ∧
      ∀ id, out.task.job.reserves = some id → task.job.reserves = some id ∨
      task.job.reserves = none ∧ (s.transfers.get id = none ∨ input.generatedId = some id) := by
  have hoff := isOffer_of_leadsTo (advance_advanced h).leads hout
  unfold advance at h
  split at h <;> rename_i hjob <;> rw [hjob] at hoff ⊢
  · unfold offerFile at h
    split at h
    case h_2 | h_7 => split at h <;> cases h <;> exact forall_none
    case h_5 | h_6 =>
      cases h
      exact forall_none
    · cases h
      split <;> exact forall_none
    · split at h
      · cases h
        exact forall_none
      rename_i hroom
      split at h
      · cases h
        refine ⟨fun _ hpeer => ?_, by rintro _ ⟨⟩⟩
        cases hpeer
        exact .inr ⟨rfl, Nat.lt_of_not_le hroom⟩
      · cases h
        exact forall_none
    · cases h
      refine ⟨fun _ hpeer => .inl hpeer, fun _ hid => ?_⟩
      cases hid
      exact .inr ⟨rfl, .inr rfl⟩
    · cases h
  · unfold onOffer at h
    split at h
    · cases h
      split <;> exact forall_none
    · split at h
      · cases h
        exact forall_none
      rename_i hfree
      split at h
      · cases h
        exact forall_none
      cases h
      refine ⟨by rintro _ ⟨⟩, fun _ hid => .inr ⟨rfl, .inl ?_⟩⟩
      cases hid
      rw [SortedMap.contains, Bool.not_eq_true, isSome_eq_false_iff, isNone_iff_eq_none] at hfree
      exact hfree
    · split at h
      · cases h
        exact forall_none
      rename_i hroom
      split at h
      · cases h
        refine ⟨fun _ hpeer => ?_, fun _ hid => .inl hid⟩
        cases hpeer
        exact .inr ⟨rfl, Nat.lt_of_not_le hroom⟩
      · cases h
        exact forall_none
    · cases h
      exact forall_none
    · cases h
      exact forall_none
    · cases h
  all_goals cases hoff

theorem counted_of_advance (hout : out.task.job.counted = some peer) :
    task.job.counted = some peer ∨ task.job.counted = none ∧
      s.activeCountFor peer < MAX_CONCURRENT_TRANSFERS_PER_PEER := by
  refine (checks_of_advance h ?_).1 peer hout
  revert hout
  cases out.task.job <;> first | exact fun _ => rfl | nofun

theorem reserves_of_advance (hout : out.task.job.reserves = some id) :
    task.job.reserves = some id ∨ task.job.reserves = none ∧
      (s.transfers.get id = none ∨ input.generatedId = some id) := by
  refine (checks_of_advance h ?_).2 id hout
  revert hout
  cases out.task.job <;> first | exact fun _ => rfl | nofun

end

end Checks

section Claims

section

omit [DecidableEq Fp]

theorem claims_of_leadsTo {job'} (h : job.LeadsTo job') (hid : job'.claims = some id) :
    job.claims = some id ∨ job'.reserves = some id := by
  cases job' with
  | approval =>
    cases job with
    | approval =>
      obtain ⟨rfl, -⟩ := h
      exact .inl hid
    | _ => exact h.elim
  | _ => exact .inr hid

theorem of_inserts_made (hr : job.inserts = some r) (hmade : job.Made) :
    job.counted = some r.peer ∧ job.reserves = some r.id := by
  unfold Job.inserts at hr
  split at hr
  · cases hr
    exact ⟨congrArg some hmade.1.symm, rfl⟩
  · cases hr
    exact ⟨congrArg some hmade.1.2.1.symm, congrArg some hmade.1.1.symm⟩
  · cases hr

theorem of_spawned (h : Spawned host job task) :
    task.job.counted = none ∧ task.job.reserves = none := by
  cases h <;> exact ⟨rfl, rfl⟩

theorem of_starts (h : job.Starts) :
    job.counted = none ∧ job.reserves = none ∧ job.claims = none := by
  cases h <;> exact ⟨rfl, rfl, rfl⟩

theorem claims_spawned (h : Spawned host job task) (hr : job.inserts = none) :
    task.job.claims = none := by
  cases h with
  | approval _ _ _ r hjob =>
    subst hjob
    cases hr
  | dial => rfl

end

end Claims

/-- The step does not pass a check while another call is between the same check and its
insert, or asks about the id; and an id that is drawn is new. -/
def Serial (host : Host Fp) (s : TransferManager Fp) : Action Fp → Prop
  | .proceed i input => ∀ task ∈ s.tasks[i]?, ∀ out ∈ s.advance host task input,
      (task.job.counted = none → ∀ peer ∈ out.task.job.counted, ∀ other ∈ s.tasks,
      other.job.counted ≠ some peer) ∧ (task.job.reserves = none → ∀ id ∈ out.task.job.reserves,
      ∀ other ∈ s.tasks, other.job.claims ≠ some id) ∧ ∀ id ∈ input.generatedId,
      s.transfers.get id = none
  | _ => True

instance (host : Host Fp) (s : TransferManager Fp) (a : Action Fp) :
    Decidable (s.Serial host a) := by
  unfold Serial
  induction a using Action.casesOn <;> infer_instance

/-- A peer has room for the transfers it has and those that are counted for it; an id that is
reserved is free, one call claims it, and what a human is asked about is the record of the
offer that asks. -/
structure Limited (s : TransferManager Fp) : Prop where
  room : ∀ peer, s.activeCountFor peer + s.tasks.countP (fun task => task.job.counted = some peer) ≤
    MAX_CONCURRENT_TRANSFERS_PER_PEER
  free : ∀ task ∈ s.tasks, ∀ id, task.job.reserves = some id → s.transfers.get id = none
  alone : ∀ id, s.tasks.countP (fun task => task.job.claims = some id) ≤ 1
  asked : ∀ task ∈ s.tasks, ∀ request session seq stage, task.job = .approval request session seq
    stage → ∀ r, s.transfers.get request.transferId = some r → r.seq = seq ∧ r.shown = request
  made : ∀ task ∈ s.tasks, task.job.Made

section Step

theorem inserting_eq_nil (h : s.advance host task input = some out) (hr : task.job.inserts = none) :
    out.effect.inserting = [] := by
  have horig := (advance_advanced h).origin
  cases heff : out.effect with
  | insert =>
    rw [heff] at horig
    cases hr.symm.trans horig
  | _ => rfl

theorem room_resume (hser : s.Serial host (.proceed i input)) (hs : s.Limited)
    (htask : s.tasks[i]? = some task) (hadv : s.advance host task input = some out) (peer) :
    ((s.apply host out.effect).resume i out).activeCountFor peer +
      ((s.apply host out.effect).resume i out).tasks.countP (fun task =>
      task.job.counted = some peer) ≤ MAX_CONCURRENT_TRANSFERS_PER_PEER := by
  have hroom := hs.room peer
  have hact := activeCountFor_apply host s out.effect peer
  have hset := countP_set_add htask (fun task => task.job.counted = some peer) out.task
  have hspawned : out.spawned.countP (fun task => task.job.counted = some peer) = 0 := by
    refine countP_eq_zero.mpr ?_
    intro task' htask'
    simp [(of_spawned ((advance_advanced hadv).spawned task' htask')).1]
  change (s.apply host out.effect).activeCountFor peer + _ ≤ _
  simp only [resume, apply_tasks, countP_append, hspawned]
  cases hr : task.job.inserts with
  | some =>
    -- the record takes the room that was counted for it
    obtain ⟨heff, hcase⟩ := advance_inserting hadv hr
    have hcount := (of_inserts_made hr (hs.made task (mem_of_getElem? htask))).1
    have hout : out.task.job.counted = none := by
      rcases hcase with ⟨_, _, -, hjob, -⟩ | ⟨_, _, _, -, hjob, -⟩ <;> rw [hjob] <;> rfl
    simp only [heff, Effect.inserting, countP_singleton, hcount, hout, some.injEq,
      decide_eq_true_eq, reduceCtorEq, decide_false, Bool.false_eq_true, if_false] at hact hset ⊢
    omega
  | none =>
    rw [inserting_eq_nil hadv hr, countP_nil] at hact
    by_cases hout : out.task.job.counted = some peer
    · rcases counted_of_advance hadv hout with hsame | ⟨hnone, _⟩
      · simp only [hout, hsame, decide_true, if_true] at hset
        omega
      have hoth := (hser task htask out hadv).1 hnone peer hout
      have hzero : s.tasks.countP (fun task => task.job.counted = some peer) = 0 := by
        refine countP_eq_zero.mpr ?_
        intro other hmem
        simpa using hoth other hmem
      simp only [hout, hnone, reduceCtorEq, decide_true, decide_false, Bool.false_eq_true, if_true,
        if_false] at hset
      omega
    · simp only [hout, decide_false, Bool.false_eq_true, if_false] at hset
      omega

theorem alone_resume (hser : s.Serial host (.proceed i input)) (hs : s.Limited)
    (htask : s.tasks[i]? = some task) (hadv : s.advance host task input = some out) (id) :
    ((s.apply host out.effect).resume i out).tasks.countP (fun task => task.job.claims = some id) ≤
      1 := by
  have halone := hs.alone id
  have hset := countP_set_add htask (fun task => task.job.claims = some id) out.task
  simp only [resume, apply_tasks, countP_append]
  cases hr : task.job.inserts with
  | some r =>
    -- the question about an offer takes over the id the offer had
    have hmade := hs.made task (mem_of_getElem? htask)
    have hclaims := Job.claims_of_reserves (of_inserts_made hr hmade).2
    rcases (advance_inserting hadv hr).2 with ⟨_, _, -, hjob, hspawned⟩ | ⟨_, id', _, hjob',
      hjob, hspawned⟩
    · have hout : out.task.job.claims = none := by rw [hjob]; rfl
      simp only [hout, hspawned, reduceCtorEq, decide_false, Bool.false_eq_true, if_false,
        countP_nil] at hset ⊢
      omega
    have hout : out.task.job.claims = none := by rw [hjob]; rfl
    have hid : id' = r.id := by
      rw [hjob'] at hmade
      exact hmade.1.1.symm
    have hreq : ∀ request : IncomingOffer Fp, ∀ session seq stage,
        (Job.approval request session seq stage).claims = some request.transferId := fun _ _ _ _ =>
        rfl
    simp only [hout, hspawned, hclaims, hid, hreq, some.injEq, decide_eq_true_eq, reduceCtorEq,
      decide_false, Bool.false_eq_true, if_false, countP_singleton] at hset ⊢
    omega
  | none =>
    have hspawned : out.spawned.countP (fun task => task.job.claims = some id) = 0 := by
      refine countP_eq_zero.mpr ?_
      intro task' htask'
      simp [claims_spawned ((advance_advanced hadv).spawned task' htask') hr]
    by_cases hout : out.task.job.claims = some id
    · by_cases hsame : task.job.claims = some id
      · simp only [hout, hsame, decide_true, if_true] at hset
        omega
      have hres := (claims_of_leadsTo (advance_advanced hadv).leads hout).resolve_left hsame
      have hnew : task.job.reserves = none := by
        rcases reserves_of_advance hadv hres with hold | ⟨hnone, -⟩
        · exact absurd (Job.claims_of_reserves hold) hsame
        · exact hnone
      have hoth := (hser task htask out hadv).2.1 hnew id hres
      have hzero : s.tasks.countP (fun task => task.job.claims = some id) = 0 := by
        refine countP_eq_zero.mpr ?_
        intro other hmem
        simpa using hoth other hmem
      simp only [hout, decide_true, if_true] at hset
      omega
    · simp only [hout, decide_false, Bool.false_eq_true, if_false] at hset
      omega

open TransferRecord

theorem get_of_claims (hs : s.Limited) {j : Nat} {other} (hij : ∀ input, a ≠ .proceed j input)
    (hoth : s.tasks[j]? = some other) (hclaims : other.job.claims = some id)
    (h : Stepped host s a t) :
    t.transfers.get id = none ∨ ∃ f, t.transfers.get id = (s.transfers.get id).map f ∧
      ∀ r, Evolves r (f r) := by
  cases h.recorded id with
  | kept e f _ hget hf => exact .inr ⟨f, hget, fun r => (hf r).evolves⟩
  | inserted i input task r ha htask hr hid =>
    have hne : i ≠ j := by
      rintro rfl
      exact hij input ha
    have hres := (of_inserts_made hr (hs.made task (mem_of_getElem? htask))).2
    have htaskc : task.job.claims = some id := hid ▸ Job.claims_of_reserves hres
    have hfalse := eq_false_of_countP_le_one (hs.alone id) hne htask hoth (by simp [htaskc])
    simp [hclaims] at hfalse
  | forgotten _ r _ _ hget => exact .inl hget

theorem get_resume (hadv : s.advance host task input = some out)
    (hr : task.job.inserts = none) (id) :
    ∃ f, ((s.apply host out.effect).resume i out).transfers.get id = (s.transfers.get id).map f ∧
      ∀ r, Evolves r (f r) := by
  have hoth : ∀ r, out.effect = .insert r → r.id ≠ id := by
    intro r heq
    have hnil := inserting_eq_nil hadv hr
    rw [heq] at hnil
    cases hnil
  obtain ⟨f, hget, hf⟩ := get_apply host s hoth
  exact ⟨f, hget, fun r => (hf r).evolves⟩

theorem step_free (hser : s.Serial host a) (hs : s.Limited) (h : Stepped host s a t) :
    ∀ task ∈ t.tasks, ∀ id, task.job.reserves = some id → t.transfers.get id = none := by
  refine h.forall_tasks ?_ ?_ ?_
  · intro j other hoth hne id hid
    have hfree := hs.free other (mem_of_getElem? hoth) id hid
    rcases get_of_claims hs hne hoth (Job.claims_of_reserves hid) h with hget | ⟨f, hget, -⟩
    · exact hget
    · rw [hget, hfree, map_none]
  · intro _ _ hstart _ _ hid
    cases (of_starts hstart).2.1.symm.trans hid
  · rintro i _ task out rfl htask hadv rfl
    refine ⟨?_, fun task' htask' id hid =>
      by cases (of_spawned ((advance_advanced hadv).spawned task' htask')).2.symm.trans hid⟩
    intro id hid
    cases hr : task.job.inserts with
    | some =>
      rcases (advance_inserting hadv hr).2 with ⟨_, _, -, hjob, -⟩ | ⟨_, _, _, -, hjob, -⟩ <;>
        rw [hjob] at hid <;> cases hid
    | none =>
      have hfree : s.transfers.get id = none := by
        rcases reserves_of_advance hadv hid with hold | ⟨-, hfree | hdrawn⟩
        · exact hs.free task (mem_of_getElem? htask) id hold
        · exact hfree
        · exact (hser task htask out hadv).2.2 id hdrawn
      obtain ⟨f, hget, -⟩ := get_resume hadv hr id (i := i)
      rw [hget, hfree, map_none]

theorem step_asked (hs : s.Limited) (h : Stepped host s a t) :
    ∀ task ∈ t.tasks, ∀ request session seq stage, task.job = .approval request session seq stage →
      ∀ r, t.transfers.get request.transferId = some r → r.seq = seq ∧ r.shown = request := by
  have hkept : ∀ {request : IncomingOffer Fp} {session seq stage}, ∀ task ∈ s.tasks,
      task.job = .approval request session seq stage → ∀ f, (∀ r, Evolves r (f r)) →
      ∀ r, (s.transfers.get request.transferId).map f = some r → r.seq = seq ∧
      r.shown = request := by
    intro request session seq stage task htask hjob f hf r hr
    obtain ⟨r₀, hr₀, rfl⟩ := map_eq_some_iff.mp hr
    have hask := hs.asked task htask request session seq stage hjob r₀ hr₀
    exact ⟨(hf r₀).seq.trans hask.1, (congrArg shown (hf r₀).fixed).trans hask.2⟩
  refine h.forall_tasks ?_ ?_ ?_
  · intro j other hoth hne request _ _ _ hjob r hr
    have hclaims : other.job.claims = some request.transferId := by rw [hjob]; rfl
    rcases get_of_claims hs hne hoth hclaims h with hget | ⟨f, hget, hf⟩
    · cases hget.symm.trans hr
    · exact hkept other (mem_of_getElem? hoth) hjob f hf r (hget ▸ hr)
  · rintro _ _ hstart _ _ _ _ _ rfl
    cases hstart
  · rintro i _ task out rfl htask hadv rfl
    have hadvan := advance_advanced hadv
    refine ⟨?_, ?_⟩
    · intro request session seq _ hjob r hr
      -- only an approval leads to an approval, and it inserts nothing
      obtain ⟨stage', hjob'⟩ : ∃ stage', task.job = .approval request session seq stage' := by
        have hlead := hadvan.leads
        rw [hjob] at hlead
        cases htaskj : task.job with
        | approval _ _ _ stage' =>
          rw [htaskj] at hlead
          obtain ⟨rfl, rfl, rfl⟩ := hlead
          exact ⟨stage', rfl⟩
        | _ =>
          rw [htaskj] at hlead
          exact hlead.elim
      have hnone : task.job.inserts = none := by rw [hjob']; rfl
      obtain ⟨f, hget, hf⟩ := get_resume hadv hnone request.transferId (i := i)
      exact hkept task (mem_of_getElem? htask) hjob' f hf r (hget ▸ hr)
    · intro task' htask' _ _ _ _ hjob r hr
      cases hadvan.spawned task' htask' with
      | dial => cases hjob
      | approval _ id _ r' htaskj =>
        cases hjob
        have hins : task.job.inserts = some r' := by rw [htaskj]; rfl
        have hmade := hs.made task (mem_of_getElem? htask)
        rw [htaskj] at hmade
        obtain ⟨⟨hid, hpeer, hsize, hmime⟩, -⟩ := hmade
        have hget : ((s.apply host out.effect).resume i out).transfers.get id = some r' := by
          rw [(advance_inserting hadv hins).1, ← hid]
          exact SortedMap.get_insert_self _ _ _
        obtain rfl := mem_unique hget hr
        exact ⟨rfl, by rw [shown, hid, hpeer, hsize, hmime]⟩

theorem step_limited (hser : s.Serial host a) (h : s.step host a = some t) (hs : s.Limited) :
    t.Limited := by
  have hstp := step_stepped h
  refine ⟨?_, step_free hser hs hstp, ?_, step_asked hs hstp, step_made hstp hs.made⟩
  · intro peer
    cases hstp with
    | environment => exact hs.room peer
    | @starts a job _ hstart handler =>
      have hspawn : (s.spawn job handler).tasks.countP (fun task => task.job.counted = some peer) =
          s.tasks.countP (fun task => task.job.counted = some peer) :=
          by simp [spawn, (of_starts hstart).1]
      exact (congrArg (s.activeCountFor peer + ·) hspawn).le.trans (hs.room peer)
    | forgets =>
      exact (Nat.add_le_add_right (List.Sublist.countP_le filter_sublist) _).trans (hs.room peer)
    | proceeds htask hadv => exact room_resume hser hs htask hadv peer
  · intro id
    cases hstp with
    | environment | forgets => exact hs.alone id
    | starts _ hstart => simpa [spawn, (of_starts hstart).2.2] using hs.alone id
    | proceeds htask hadv => exact alone_resume hser hs htask hadv id

end Step

/-- However the calls interleave, where no check is passed beside another call's: a peer has
at most the limit of active transfers, an insert replaces no record, and what an approval can
activate is the offer the human was shown. -/
theorem transfers_within_limit {disk : Disk} {as : List (Action Fp)}
    (hrun : run (step host) (start disk) as = some t)
    (hser : Meets (step host) (Serial host) (start disk) as) :
    (∀ peer, t.activeCountFor peer ≤ MAX_CONCURRENT_TRANSFERS_PER_PEER) ∧
    (∀ task ∈ t.tasks, ∀ r, task.job.inserts = some r → t.transfers.get r.id = none) ∧
    ∀ task ∈ t.tasks, ∀ request session seq stage,
      task.job = .approval request session seq stage →
      ∀ r, t.transfers.get request.transferId = some r → r.seq = seq ∧ r.shown = request := by
  have hlim : t.Limited := by
    refine run_invariant (step host) ?_ hrun hser ?_
    · intro s a u hok hstep hs
      exact step_limited hok hstep hs
    · exact ⟨fun peer => Nat.zero_le _, fun _ h => absurd h not_mem_nil, fun id => Nat.zero_le 1,
        fun _ h => absurd h not_mem_nil, fun _ h => absurd h not_mem_nil⟩
  refine ⟨fun peer => (Nat.le_add_right _ _).trans (hlim.room peer), ?_, hlim.asked⟩
  intro task htask r hr
  exact hlim.free task htask r.id (of_inserts_made hr (hlim.made task htask)).2

section Sample

def offersInTurn : List (Action Nat) :=
  [Action.connect 1 .pliwee, .connect 2 .pliwee, .control 0 (.offer (sampleOffer (sampleId 1) [5])),
    .control 1 (.offer (sampleOffer (sampleId 2) [6, 7]))] ++
  checksOffer 0 ++ insertsOffer 0 ++ checksOffer 1 ++ insertsOffer 1 ++
  approves 2 (sampleChallenge 1)

theorem transfers_within_limit_two_offers :
    ∃ t, run (step (sampleHost .acceptor)) (start {}) offersInTurn = some t ∧
      t.activeCountFor 1 = 1 ∧ t.activeCountFor 2 ≤ MAX_CONCURRENT_TRANSFERS_PER_PEER := by
  refine exists_some_imp (P := fun t => t.activeCountFor 1 = 1)
    (exists_of_any (by decide +kernel)) ?_
  exact fun t hrun hone => ⟨hone, (transfers_within_limit hrun (by decide +kernel)).1 2⟩

def offersAtOnce : List (Action Nat) :=
  [.connect 1 .pliwee] ++ (range 5).map (fun _ => .offerFile 1 "a.txt") ++
  (range 5).flatMap (fun i => [.proceed i (.outcome true), .proceed i .go, .proceed i .go]) ++
  (range 5).flatMap (fun i => [.proceed i (.hashed (some [5]) (some (sampleId (UInt8.ofNat i)))),
  .proceed i .go])

/-- Two peers offer under one id and both offers pass the check; the second replaces the first
while the human is asked. -/
def offersSameId : List (Action Nat) :=
  [Action.connect 1 .pliwee, .connect 2 .pliwee, .control 0 (.offer (sampleOffer (sampleId 1) [5])),
    .control 1 (.offer (sampleOffer (sampleId 1) [6, 7]))] ++
  checksOffer 0 ++ checksOffer 1 ++ insertsOffer 0 ++ insertsOffer 1 ++
  approves 2 (sampleChallenge 1)

/-- The peer has five active transfers; and the approval asked for the offer of peer 1 has
activated the offer of peer 2. -/
theorem limit_exceeded_and_offer_replaced :
    (∃ t, run (step (sampleHost .acceptor)) (start {}) offersAtOnce = some t ∧
      MAX_CONCURRENT_TRANSFERS_PER_PEER < t.activeCountFor 1) ∧
      ∃ t r, run (step (sampleHost .acceptor)) (start {}) offersSameId = some t ∧
      (t.tasks[2]?).bind (·.job.asks) = some 1 ∧ t.transfers.get (sampleId 1) = some r ∧
      r.peer = 2 ∧ r.state = .transferring := by
  constructor
  · exact exists_of_any (by decide +kernel)
  · have hany : (run (step (sampleHost .acceptor)) (start {}) offersSameId).any
        (fun t => (t.tasks[2]?).bind (·.job.asks) = some 1 &&
          (t.transfers.get (sampleId 1)).any (fun r => r.peer = 2 && r.state = .transferring)) :=
          by decide +kernel
    obtain ⟨t, hrun, hboth⟩ := (any_eq_true _ _).mp hany
    obtain ⟨hasks, hrec⟩ := Bool.and_eq_true_iff.mp hboth
    obtain ⟨r, hr, hstate⟩ := (any_eq_true _ _).mp hrec
    exact ⟨t, r, hrun, of_decide_eq_true hasks, hr, by simpa using hstate⟩

end Sample

end TransferManager

end OmniBridge.Desktop.Files
