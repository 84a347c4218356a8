import OmniBridge.DesktopTransferStreams

/-! The record an id stands for, in the table or dropped from it. Where every id is inserted
once, what its offer fixed is there for good, and the tasks keep to the offers they work on. -/

namespace OmniBridge.Desktop.Files

open List Option Desktop.Files.Task

namespace TransferManager

variable {Fp : Type} {host : Host Fp} {s t : TransferManager Fp} {id : TransferId}
  {r r' : TransferRecord Fp}

section Record

def record (s : TransferManager Fp) (id : TransferId) : Option (TransferRecord Fp) :=
  (s.transfers.get id).or (s.dropped.find? (·.id = id))

def offer (s : TransferManager Fp) (id : TransferId) : Option (TransferRecord Fp) :=
  (s.record id).map TransferRecord.fixed

def Fresh (s : TransferManager Fp) : Action Fp → Prop
  | .proceed i _ => ∀ task ∈ s.tasks[i]?, ∀ r ∈ task.job.inserts, s.record r.id = none
  | _ => True

instance (s : TransferManager Fp) (a : Action Fp) : Decidable (s.Fresh a) := by
  unfold Fresh
  induction a using Action.casesOn <;> infer_instance

/-- A record that left the table is the last of its id. -/
structure Kept (s : TransferManager Fp) : Prop where
  numbered : s.Numbered
  apart : ∀ r ∈ s.dropped, s.transfers.get r.id = none

theorem record_of_get (hr : s.transfers.get id = some r) : s.record id = some r := by
  rw [record, hr, some_or]

theorem record_of_get_eq_none (h : s.transfers.get id = none) :
    s.record id = s.dropped.find? (·.id = id) := by
  rw [record, h, none_or]

theorem record_eq_none_iff :
    s.record id = none ↔ s.transfers.get id = none ∧ ∀ r ∈ s.dropped, r.id ≠ id := by
  simp [record]

theorem mem_records_of_record (hs : s.Kept) (hr : s.record id = some r) :
    r ∈ s.records ∧ r.id = id := by
  cases hget : s.transfers.get id with
  | some r' =>
    obtain rfl := mem_unique (record_of_get hget) hr
    exact ⟨mem_records_of_get hget, hs.numbered.keyed id r' hget⟩
  | none =>
    rw [record_of_get_eq_none hget] at hr
    exact ⟨mem_append_right _ (mem_of_find?_eq_some hr), of_decide_eq_true (find?_some hr :)⟩

theorem id_of_offer_seq (hs : s.Kept) {id'} (hr : s.offer id = some r) (hr' : s.offer id' = some r')
    (hseq : r'.seq = r.seq) : id' = id := by
  obtain ⟨x, hx, rfl⟩ := map_eq_some_iff.mp hr
  obtain ⟨y, hy, rfl⟩ := map_eq_some_iff.mp hr'
  obtain ⟨hxmem, hxid⟩ := mem_records_of_record hs hx
  obtain ⟨hymem, hyid⟩ := mem_records_of_record hs hy
  rw [← hxid, ← hyid, hs.numbered.unique hxmem hymem hseq]

theorem offer_eq_of_record (hr : s.record id = some r) : s.offer id = some r.fixed := by
  rw [offer, hr, map_some]

end Record

section Recalled

variable [DecidableEq Fp] {a : Action Fp}

omit [DecidableEq Fp] in
theorem record_forgetFinished (hs : s.Kept) (keep : Nat) (id : TransferId) :
    (s.forgetFinished keep).record id = s.record id := by
  rcases s.get_forgetFinished keep id with hsame | ⟨hnone, r, hr⟩
  · cases hget : s.transfers.get id with
    | some => rw [record_of_get (hsame.trans hget), record_of_get hget]
    | none =>
      -- what is forgotten now was in the table
      have hoth : ((s.forgotten keep).map Prod.snd).find? (·.id = id) = none := by
        refine find?_eq_none.mpr ?_
        intro r hr
        obtain ⟨p, hp, rfl⟩ := mem_map.mp hr
        have hpget := (mem_forgotten hp).1
        have hpid := hs.numbered.keyed p.1 p.2 hpget
        intro heq
        rw [← of_decide_eq_true heq, hpid, hpget] at hget
        cases hget
      rw [record_of_get_eq_none (hsame.trans hget), record_of_get_eq_none hget, forgetFinished,
        find?_append, hoth, or_none]
  · obtain ⟨hget, -⟩ := mem_forgotten hr
    have hid := hs.numbered.keyed id r hget
    have hbef : s.dropped.find? (·.id = id) = none := by
      refine find?_eq_none.mpr ?_
      intro r' hr' heq
      have hapart := hs.apart r' hr'
      rw [of_decide_eq_true heq, hget] at hapart
      cases hapart
    rw [record_of_get_eq_none hnone, record_of_get hget,
      forgetFinished, find?_append, hbef, none_or]
    cases hfind : ((s.forgotten keep).map Prod.snd).find? (·.id = id) with
    | none =>
      have hnot := find?_eq_none.mp hfind r (mem_map.mpr ⟨(id, r), hr, rfl⟩)
      simp [hid] at hnot
    | some =>
      obtain ⟨p, hp, rfl⟩ := mem_map.mp (mem_of_find?_eq_some hfind)
      have hpget := (mem_forgotten hp).1
      have hpid : p.2.id = id := of_decide_eq_true (find?_some hfind :)
      rw [← hs.numbered.keyed p.1 p.2 hpget, hpid, hget] at hpget
      exact hpget.symm

inductive Recalled (host : Host Fp) (s : TransferManager Fp) (a : Action Fp)
    (t : TransferManager Fp) (id : TransferId) : Prop
  | kept (e : Effect Fp) (f : TransferRecord Fp → TransferRecord Fp) (he : IsEffect host s a e)
      (hrecord : t.record id = (s.record id).map f) (hf : ∀ r, e.Alters id r (f r))
  | inserted (i : Nat) (input : Input) (task : Task Fp) (r : TransferRecord Fp)
      (ha : a = .proceed i input) (htask : s.tasks[i]? = some task) (hr : task.job.inserts = some r)
        (hid : r.id = id)
      (hnone : s.record id = none) (hget : t.transfers.get id = some r)

theorem dropped_apply (host : Host Fp) {e} (he : ∀ r, e = .insert r → s.record r.id = none) :
    (s.apply host e).dropped = s.dropped := by
  cases touches host s e with
  | inserts r heq =>
    subst heq
    have hnone := (record_eq_none_iff.mp (he r rfl)).1
    simp only [apply, hnone, toList_none, append_nil]
  | alters _ f _ happly => rw [happly]; rfl
  | nothing _ _ hdrop => exact hdrop

theorem fresh_insert {i input task out} (hfresh : s.Fresh (.proceed i input))
    (htask : s.tasks[i]? = some task) (hadv : s.advance host task input = some out) :
    ∀ r, out.effect = .insert r → s.record r.id = none := by
  intro r heq
  exact hfresh task htask r (from_of_advance hadv heq)

section

variable (h : Stepped host s a t) (hfresh : s.Fresh a) (hs : s.Kept)
include h hfresh hs

theorem Stepped.recalled (id : TransferId) : Recalled host s a t id := by
  cases h with
  | environment | starts =>
    exact .kept .nothing (fun r => r) (.inl rfl) (by rw [Option.map_id']; rfl) (.refl _ id)
  | forgets =>
    exact .kept .nothing (fun r => r) (.inl rfl) (by rw [Option.map_id', record_forgetFinished hs])
      (.refl _ id)
  | @proceeds i input task out htask hadv =>
    have hinsert := fresh_insert hfresh htask hadv
    by_cases hins : ∃ r, out.effect = .insert r ∧ r.id = id
    · obtain ⟨r, heff, hid⟩ := hins
      refine .inserted i input task r rfl htask (from_of_advance hadv heff) hid
        (hid ▸ hinsert r heff) ?_
      rw [heff, ← hid]
      exact SortedMap.get_insert_self _ _ _
    have hoth : ∀ r, out.effect = .insert r → r.id ≠ id := fun r hr hid => hins ⟨r, hr, hid⟩
    obtain ⟨f, hget, hf⟩ := get_apply host s hoth
    change ((s.apply host out.effect).resume i out).transfers.get id = _ at hget
    have hdrop : ((s.apply host out.effect).resume i out).dropped = s.dropped :=
      dropped_apply host hinsert
    have hof : IsEffect host s (.proceed i input) out.effect :=
      .inr ⟨i, input, task, out, ⟨rfl, htask, hadv⟩, rfl⟩
    cases hr : s.transfers.get id with
    | some =>
      rw [hr] at hget
      exact .kept out.effect f hof (by rw [record_of_get hget, record_of_get hr]; rfl) hf
    | none =>
      rw [hr] at hget
      refine .kept out.effect (fun r => r) hof ?_ (.refl _ id)
      rw [record_of_get_eq_none hget, record_of_get_eq_none hr, hdrop, Option.map_id']

theorem offer_step (hr : s.offer id = some r) : t.offer id = some r := by
  obtain ⟨x, hx, rfl⟩ := map_eq_some_iff.mp hr
  cases h.recalled hfresh hs id with
  | kept e f _ hrecord hf => rw [offer, hrecord, hx, map_some, map_some, (hf x).evolves.fixed]
  | inserted i _ _ _ _ _ _ _ hnone => cases hnone.symm.trans hx

theorem step_kept : t.Kept := by
  refine ⟨step_numbered h hs.numbered, ?_⟩
  cases h with
  | environment | starts => exact hs.apart
  | forgets keep =>
    intro r hr
    rcases mem_append.mp hr with hr | hr
    · have hnone := hs.apart r hr
      rcases s.get_forgetFinished keep r.id with hsame | ⟨hnone', -⟩
      · exact hsame.trans hnone
      · exact hnone'
    obtain ⟨p, hp, rfl⟩ := mem_map.mp hr
    have hget := (mem_forgotten hp).1
    rw [forgetFinished, SortedMap.get_filter, hs.numbered.keyed p.1 p.2 hget, hget, filter_some,
      if_neg (by simp [mem_map_of_mem hp])]
  | @proceeds i _ _ out htask hadv =>
    have hinsert := fresh_insert hfresh htask hadv
    intro r hr
    rw [show ((s.apply host out.effect).resume i out).dropped = s.dropped from dropped_apply host
      hinsert] at hr
    have hoth : ∀ r', out.effect = .insert r' → r'.id ≠ r.id := by
      intro r' heq hid
      exact (record_eq_none_iff.mp (hinsert r' heq)).2 r hr hid.symm
    obtain ⟨f, hget, -⟩ := get_apply host s hoth
    refine hget.trans ?_
    rw [hs.apart r hr, map_none]

end

end Recalled

end TransferManager

section Follows

variable {Fp : Type}

def ReceiveStage.isCopied : ReceiveStage → Bool
  | .flushing | .trailing | .closing none | .syncing | .verifying | .promoting | .storing _ => true
  | _ => false

def ReceiveStage.isVerified : ReceiveStage → Bool
  | .promoting | .storing _ => true
  | _ => false

theorem ReceiveStage.isCopied_of_isVerified {stage : ReceiveStage} (h : stage.isVerified) :
    stage.isCopied := by
  cases stage <;> first | rfl | cases h

structure Receives (host : Host Fp) (task : Task Fp) (plan : StreamPlan) (stage : ReceiveStage) :
    Prop where
  fits : task.read.length ≤ plan.sizeBytes
  copied : stage.isCopied → task.read.length = plan.sizeBytes
  verified : stage.isVerified → host.sha256 task.read = plan.sha256
  stored : ∀ path, stage = .storing path → task.promoted = some path

/-- A stream of the transfer has read the file that was offered and has stored it. -/
structure Evidence (host : Host Fp) (task : Task Fp) (r : TransferRecord Fp) : Prop where
  opened : task.opened = some r.seq
  serves : task.serves = some r.seq
  size : task.read.length = r.sizeBytes
  digest : host.sha256 task.read = r.sha256
  promoted : task.promoted.isSome
  handler : task.handler = none

def AcceptStage.isAnswering : AcceptStage → Bool
  | .answering => true
  | _ => false

def DialStage.isTaken : DialStage → Bool
  | .starting | .taking => false
  | _ => true

structure Task.Fresh (task : Task Fp) : Prop where
  handler : task.handler = none
  read : task.read = []
  promoted : task.promoted = none

structure StreamPlan.Matches (plan : StreamPlan) (r : TransferRecord Fp) : Prop where
  seq : plan.seq = r.seq
  sizeBytes : plan.sizeBytes = r.sizeBytes
  sha256 : plan.sha256 = r.sha256
  filename : plan.filename = r.filename

def Task.Follows (host : Host Fp) (offer : TransferId → Option (TransferRecord Fp))
    (task : Task Fp) : Prop :=
  match task.job with
  | .approval request _ seq _ =>
    ∃ r, offer request.transferId = some r ∧ r.seq = seq ∧ r.direction = .receiving
  | .acceptStream _ _ id _ stage =>
    task.Fresh ∧ (stage.isAnswering → ∃ r, offer id = some r ∧ task.opened = some r.seq)
  | .dial id stage =>
    task.Fresh ∧ (stage.isTaken → ∃ r, offer id = some r ∧ task.opened = some r.seq)
  | .runStream id => task.Fresh ∧ ∃ r, offer id = some r ∧ task.opened = some r.seq
  | .send id _ _ => ∃ r, offer id = some r ∧ r.direction = .sending ∧ task.opened = some r.seq
  | .receive id plan stage =>
    ∃ r, offer id = some r ∧ r.direction = .receiving ∧ task.opened = some r.seq ∧
      task.serves = some r.seq ∧ task.handler = none ∧ plan.Matches r ∧
      Receives host task plan stage
  | .onPeerEnded _ _ _ next => next ≠ .completed
  | .ending call _ _ =>
    call.next = .completed → ∃ r, offer call.id = some r ∧
      (r.direction = .sending ∨ Evidence host task r)
  | _ => True

variable {host : Host Fp} {offer offer' : TransferId → Option (TransferRecord Fp)} {task : Task Fp}
  {job : Job Fp}

theorem Task.Follows.mono (h : task.Follows host offer)
    (hoff : ∀ id r, offer id = some r → offer' id = some r) : task.Follows host offer' := by
  obtain ⟨job, _, _, _, _, _, _, _⟩ := task
  cases job with
  | approval | send | receive =>
    obtain ⟨r, hr, hrest⟩ := h
    exact ⟨r, hoff _ r hr, hrest⟩
  | acceptStream | dial =>
    refine ⟨h.1, fun hst => ?_⟩
    obtain ⟨r, hr, hrest⟩ := h.2 hst
    exact ⟨r, hoff _ r hr, hrest⟩
  | runStream =>
    obtain ⟨hfresh, r, hr, hrest⟩ := h
    exact ⟨hfresh, r, hoff _ r hr, hrest⟩
  | ending =>
    intro hnext
    obtain ⟨r, hr, hrest⟩ := h hnext
    exact ⟨r, hoff _ r hr, hrest⟩
  | onPeerEnded => exact h
  | _ => trivial

theorem follows_of_starts {handler} (h : job.Starts) (hhand : job.isStream → handler = none) :
    ({ job := job, handler := handler } : Task Fp).Follows host offer := by
  cases h with
  | acceptStream => exact ⟨⟨hhand rfl, rfl, rfl⟩, nofun⟩
  | onPeerEnded _ _ _ hnext =>
    rcases hnext with rfl | rfl
    · exact (nofun : TransferState.cancelled ≠ .completed)
    · exact (nofun : TransferState.failed ≠ .completed)
  | _ => trivial

theorem follows_of_leadsTo {job'} (hlead : task.job.LeadsTo job')
    (hstr : task.job.isStream = false) (hcomp : ∀ ctx id, task.job ≠ .onComplete ctx id)
    (h : task.Follows host offer) : (task.goes job').Follows host offer := by
  obtain ⟨job, _, _, _, _, _, _, _⟩ := task
  cases job' with
  | approval =>
    cases job with
    | approval =>
      obtain ⟨rfl, rfl, rfl⟩ := hlead
      exact h
    | _ => exact hlead.elim
  | ending =>
    cases job with
    | onComplete ctx id => exact absurd rfl (hcomp ctx id)
    | onPeerEnded => exact fun hnext => absurd (hlead.2.symm.trans hnext) h
    | ending =>
      intro hnext
      rcases hlead with ⟨hid, hsame⟩ | hne
      · obtain ⟨r, hr, hrest⟩ := h (hsame.symm.trans hnext)
        refine ⟨r, (congrArg offer hid).trans hr, ?_⟩
        rcases hrest with hsend | hevid
        · exact .inl hsend
        · exact .inr ⟨hevid.opened, hevid.serves, hevid.size, hevid.digest,
            hevid.promoted, hevid.handler⟩
      · exact absurd hnext hne.2
    | acceptStream | dial | runStream | send | receive => cases hstr
    | _ => exact fun hnext => absurd hnext hlead.2
  | onPeerEnded => cases job <;> exact hlead.elim
  | acceptStream peer profile id mac stage | dial id stage | runStream id | send id plan stage
  | receive id plan stage =>
    cases job with
    | acceptStream | dial | runStream | send | receive => cases hstr
    | _ => exact hlead.elim
  | _ => trivial

end Follows

namespace TransferManager

section Follows

variable {Fp : Type} {host : Host Fp} {s t : TransferManager Fp} {id : TransferId} {task : Task Fp}
  {input : Input} {out : Outcome Fp} {plan : StreamPlan}

theorem follows_failed (task : Task Fp) (id) (reason : FailureReason) :
    (task.goes (failed id reason)).Follows host s.offer :=
  fun hnext => absurd hnext (fail_next_ne id reason)

theorem goes_follows {job} (h : goes task job = some out)
    (hfoll : (task.goes job).Follows host s.offer) : out.task.Follows host s.offer := by
  cases h
  exact hfoll

theorem opened_offer {r} (hr : s.transfers.get id = some r) :
    ∃ r', s.offer id = some r' ∧ some r.seq = some r'.seq :=
  ⟨r.fixed, offer_eq_of_record (record_of_get hr), rfl⟩

theorem fresh_goes (h : task.Fresh) (job : Job Fp) : (task.goes job).Fresh :=
  ⟨h.handler, h.read, h.promoted⟩

theorem acceptStream_follows [DecidableEq Fp] {peer profile mac stage}
    (h : s.acceptStream host task peer profile id mac stage input = some out) (hfresh : task.Fresh)
    (hopen : stage.isAnswering → ∃ r, s.offer id = some r ∧ task.opened = some r.seq) :
    out.task.Follows host s.offer := by
  unfold acceptStream at h
  split at h
  · refine goes_follows h ⟨fresh_goes hfresh _, fun hst => ?_⟩
    split at hst <;> cases hst
  · split at h
    · exact goes_follows h ⟨fresh_goes hfresh _, nofun⟩
    · rename_i r hcheck
      cases h
      exact ⟨⟨hfresh.handler, hfresh.read, hfresh.promoted⟩,
        fun _ => opened_offer (checkStream_ok hcheck).1⟩
  · cases h
    trivial
  · rename_i ok
    cases h
    cases ok with
    | true => exact ⟨⟨hfresh.handler, hfresh.read, hfresh.promoted⟩, hopen rfl⟩
    | false => trivial
  · cases h

theorem dialAndRun_follows {stage} (h : s.dialAndRun task id stage input = some out)
    (hfresh : task.Fresh)
    (hopen : stage.isTaken → ∃ r, s.offer id = some r ∧ task.opened = some r.seq) :
    out.task.Follows host s.offer := by
  unfold dialAndRun at h
  split at h
  case h_3 | h_4 | h_6 =>
    split at h
    · exact goes_follows h ⟨fresh_goes hfresh _, fun _ => hopen rfl⟩
    · exact goes_follows h (follows_failed task id _)
  · split at h
    · exact goes_follows h ⟨fresh_goes hfresh _, nofun⟩
    · exact goes_follows h (follows_failed task id _)
  · split at h
    · rename_i r hfilter
      cases h
      exact ⟨⟨hfresh.handler, hfresh.read, hfresh.promoted⟩,
        fun _ => opened_offer (filter_eq_some_iff.mp hfilter).1⟩
    · exact goes_follows h trivial
  · exact goes_follows h (follows_failed task id _)
  · cases h
    exact ⟨fresh_goes hfresh _, hopen rfl⟩
  · cases h

theorem runStream_follows (h : s.runStream task id input = some out) (hfresh : task.Fresh)
    (hopen : ∃ r, s.offer id = some r ∧ task.opened = some r.seq) :
    out.task.Follows host s.offer := by
  unfold runStream at h
  split at h
  · split at h
    · exact goes_follows h trivial
    rename_i r hget
    cases h
    have hoff := offer_eq_of_record (record_of_get hget)
    obtain ⟨_, hr', hseq⟩ := hopen
    obtain rfl := mem_unique hoff hr'
    cases hdir : r.direction with
    | sending => exact ⟨r.fixed, hoff, hdir, hseq⟩
    | receiving =>
      refine ⟨r.fixed, hoff, hdir, hseq, rfl, hfresh.handler, ⟨rfl, rfl, rfl, rfl⟩, ?_,
        nofun, nofun, nofun⟩
      rw [hfresh.read]
      exact Nat.zero_le _
  · cases h

theorem receives_of_runReceive {stage stage' : ReceiveStage}
    (h : s.runReceive host task id plan stage input = some out)
    (hrec : Receives host task plan stage) (hjob : out.task.job = .receive id plan stage') :
    Receives host out.task plan stage' := by
  have hearly : out.task = task.goes (.receive id plan stage') → stage'.isCopied = false →
      Receives host out.task plan stage' := by
    intro heq hcop
    rw [heq]
    refine ⟨hrec.fits, fun hyes => ?_, fun hyes => ?_, ?_⟩
    · cases hcop.symm.trans hyes
    · cases hcop.symm.trans (ReceiveStage.isCopied_of_isVerified hyes)
    · rintro _ rfl
      cases hcop
  have hlate : out.task = task.goes (.receive id plan stage') → stage.isCopied →
      stage'.isVerified = false → Receives host out.task plan stage' := by
    intro heq hcop hver
    rw [heq]
    refine ⟨hrec.fits, fun _ => hrec.copied hcop, fun hyes => ?_, ?_⟩
    · cases hver.symm.trans hyes
    · rintro _ rfl
      cases hver
  unfold runReceive at h
  split at h
  case h_4 | h_5 | h_6 => cases h; cases hjob; exact hearly rfl rfl
  case h_10 | h_11 | h_12 => cases h; cases hjob; exact hlate rfl rfl rfl
  · split at h
    · cases h; cases hjob; exact hearly rfl rfl
    · cases h; cases hjob
  · cases h
    by_cases hsize : plan.sizeBytes ≤ task.read.length
    · simp only [Task.goes, hsize, if_true, Job.receive.injEq, true_and] at hjob
      subst hjob
      exact ⟨hrec.fits, fun _ => Nat.le_antisymm hrec.fits hsize, by rintro ⟨⟩, by rintro _ ⟨⟩⟩
    · simp only [Task.goes, hsize, if_false, Job.receive.injEq, true_and] at hjob
      split at hjob <;> subst hjob <;> exact ⟨hrec.fits,
        by rintro ⟨⟩, by rintro ⟨⟩, by rintro _ ⟨⟩⟩
  · split at h
    · rename_i hfits
      cases h
      cases hjob
      refine ⟨?_, by rintro ⟨⟩, by rintro ⟨⟩, by rintro _ ⟨⟩⟩
      simp only [fits, Bool.and_eq_true, decide_eq_true_eq] at hfits
      simp only [length_append]
      omega
    · cases h
  · split at h <;> (cases h; cases hjob; exact hearly rfl rfl)
  · rename_i ok
    cases h
    cases ok with
    | true => cases hjob; exact hlate rfl rfl rfl
    | false => cases hjob; exact hearly rfl rfl
  · split at h
    · cases h; cases hjob; exact hearly rfl rfl
    · cases h
  · rename_i failure
    cases h
    cases failure with
    | none => cases hjob; exact hlate rfl rfl rfl
    | some => cases hjob
  · split at h
    · cases h; cases hjob; exact hlate rfl rfl rfl
    · cases h; cases hjob
  · split at h
    · cases h
      by_cases hdig : host.sha256 task.read = plan.sha256
      · simp only [Task.goes, hdig, if_true, Job.receive.injEq, true_and] at hjob
        subst hjob
        exact ⟨hrec.fits, fun _ => hrec.copied rfl, fun _ => hdig, by rintro _ ⟨⟩⟩
      · simp only [Task.goes, hdig, if_false] at hjob
        cases hjob
    · cases h; cases hjob
  · split at h
    · cases h
      cases hjob
      refine ⟨hrec.fits, fun _ => hrec.copied rfl, fun _ => hrec.verified rfl, ?_⟩
      rintro _ ⟨⟩
      rfl
    · cases h; cases hjob
  · cases h; cases hjob
  · cases h

theorem runReceive_storing {path}
    (h : s.runReceive host task id plan (.storing path) input = some out) :
    out.effect = .setStored id path ∧ ∃ tell,
      out.task = task.goes (.ending
      { id := id, next := .completed, failure := none, stage := .transition, tell := tell }
      [] []) := by
  cases input with
  | go => cases h; exact ⟨rfl, _, rfl⟩
  | _ => cases h

theorem advance_follows [DecidableEq Fp] (h : s.advance host task input = some out)
    (hfoll : task.Follows host s.offer) : out.task.Follows host s.offer := by
  have hadvan := advance_advanced h
  have hnoted := advance_noted h
  have hplain : task.job.isStream = false → (∀ ctx id, task.job ≠ .onComplete ctx id) →
      out.task.Follows host s.offer := by
    intro hstr hcomp
    rw [hadvan.keeps hstr]
    exact follows_of_leadsTo hadvan.leads hstr hcomp hfoll
  unfold advance at h
  unfold Follows at hfoll
  split at h <;> rename_i hjob <;> rw [hjob] at hplain hfoll hadvan hnoted
  case h_7 ctx id =>
    -- a send is completed at the word of its peer
    unfold onComplete at h
    split at h
    · refine goes_follows h ?_
      split
      · rename_i howned
        intro _
        obtain ⟨_, hsess⟩ := isSome_iff_exists.mp howned
        obtain ⟨r, hr, -⟩ := map_eq_some_iff.mp hsess
        obtain ⟨hget, hact⟩ := filter_eq_some_iff.mp hr
        simp only [Bool.and_eq_true, decide_eq_true_eq] at hact
        exact ⟨r.fixed, offer_eq_of_record (record_of_get hget), .inl hact.1.2⟩
      · trivial
    · cases h
  case h_13 => exact acceptStream_follows h hfoll.1 hfoll.2
  case h_14 => exact dialAndRun_follows h hfoll.1 hfoll.2
  case h_15 => exact runStream_follows h hfoll.1 hfoll.2
  case h_16 id plan stage =>
    have hlead := hadvan.leads
    have hopen : out.task.opened = task.opened := by
      rcases hnoted.opened with hsame | ⟨_, r, hid, -⟩
      · exact hsame
      · cases hid
    cases hout : out.task.job with
    | send =>
      rw [hout] at hlead
      obtain ⟨rfl, rfl⟩ := hlead
      unfold Follows
      rw [hout, hopen]
      exact hfoll
    | ending =>
      rw [hout] at hlead
      unfold Follows
      rw [hout]
      exact fun hnext => absurd hnext hlead.2
    | done =>
      unfold Follows
      rw [hout]
      trivial
    | _ =>
      rw [hout] at hlead
      exact hlead.elim
  case h_17 id plan stage =>
    obtain ⟨r, hr, hdir, hopen, hserv, hhand, hmatch, hrec⟩ := hfoll
    have hlead := hadvan.leads
    have hopen' : out.task.opened = task.opened := by
      rcases hnoted.opened with hsame | ⟨_, r, hid, -⟩
      · exact hsame
      · cases hid
    have hserv' : out.task.serves = task.serves := by
      rcases hnoted.serves with hsame | ⟨_, r, hid, -⟩
      · exact hsame
      · cases hid
    cases hout : out.task.job with
    | receive =>
      rw [hout] at hlead
      obtain ⟨rfl, rfl⟩ := hlead
      unfold Follows
      rw [hout, hopen', hserv', hadvan.handler]
      exact ⟨r, hr, hdir, hopen, hserv, hhand, hmatch, receives_of_runReceive h hrec hout⟩
    | ending =>
      rw [hout] at hlead
      unfold Follows
      rw [hout]
      intro hnext
      obtain ⟨path, rfl⟩ := hlead.2.2 hnext
      obtain ⟨-, _, htask⟩ := runReceive_storing h
      refine ⟨r, hlead.2.1 ▸ hr, .inr ?_⟩
      rw [htask]
      refine ⟨hopen, hserv, ?_, ?_, ?_, hhand⟩
      · exact (hrec.copied rfl).trans hmatch.sizeBytes
      · exact (hrec.verified rfl).trans hmatch.sha256
      · exact isSome_iff_exists.mpr ⟨path, hrec.stored path rfl⟩
    | done =>
      unfold Follows
      rw [hout]
      trivial
    | _ =>
      rw [hout] at hlead
      exact hlead.elim
  all_goals exact hplain rfl nofun

end Follows

section Followed

variable {Fp : Type} [DecidableEq Fp] {host : Host Fp} {s t : TransferManager Fp} {a : Action Fp}

structure Followed (host : Host Fp) (s : TransferManager Fp) : Prop where
  kept : s.Kept
  made : ∀ task ∈ s.tasks, task.job.Made
  follows : ∀ task ∈ s.tasks, task.Follows host s.offer

theorem step_followed (hfresh : s.Fresh a) (h : Stepped host s a t) (hs : s.Followed host) :
    t.Followed host := by
  have hoff : ∀ id r, s.offer id = some r → t.offer id = some r := fun id r hr =>
    offer_step h hfresh hs.kept hr
  refine ⟨step_kept h hfresh hs.kept, step_made h hs.made, h.forall_tasks ?_ ?_ ?_⟩
  · intro j task htask _
    exact (hs.follows task (mem_of_getElem? htask)).mono hoff
  · intro _ _ hstart hhand
    exact follows_of_starts hstart hhand
  · rintro i _ task out rfl htask hadv rfl
    have hmem := mem_of_getElem? htask
    refine ⟨(advance_follows hadv (hs.follows task hmem)).mono hoff, ?_⟩
    intro task' htask'
    cases (advance_advanced hadv).spawned task' htask' with
    | dial => exact ⟨⟨rfl, rfl, rfl⟩, nofun⟩
    | approval _ id _ r hjob =>
      have hinser : task.job.inserts = some r := by rw [hjob]; rfl
      have hmade := hs.made task hmem
      rw [hjob] at hmade
      obtain ⟨⟨hid, -⟩, hdir, -⟩ := hmade
      have hget : ((s.apply host out.effect).resume i out).transfers.get id = some r := by
        rw [(advance_inserting hadv hinser).1, ← hid]
        exact SortedMap.get_insert_self _ _ _
      exact ⟨r.fixed, offer_eq_of_record (record_of_get hget), rfl, hdir⟩

omit [DecidableEq Fp] in
theorem followed_start (disk : Disk) : (start disk : TransferManager Fp).Followed host :=
  ⟨⟨numbered_start disk, fun _ h => absurd h not_mem_nil⟩, fun _ h => absurd h not_mem_nil,
    fun _ h => absurd h not_mem_nil⟩

end Followed

end TransferManager

end OmniBridge.Desktop.Files
