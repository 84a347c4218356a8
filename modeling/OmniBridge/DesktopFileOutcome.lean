import OmniBridge.DesktopFileReceive
import OmniBridge.DesktopTransferTemps

/-! The files of received transfers and their records. A file is under a final name when the
one stream of its transfer has promoted it, with what that stream has read, and the transfer
is complete then or the stream is about to complete it. -/

namespace OmniBridge.Desktop.Files

open List Option Disk

namespace Disk

variable {d : Disk} {path : String} {n : Nat}

def Final (d : Disk) (n : Nat) (path : String) : Prop :=
  isTempName path = false ∧ d.createdAt path = some n

instance : Decidable (d.Final n path) := inferInstanceAs (Decidable (_ ∧ _))

def fileAt (d : Disk) (path : String) : Option File := (d.names path).bind (fun k => d.files[k]?)

theorem createdAt_eq_some (h : d.createdAt path = some n) :
    ∃ (k : Nat) (file : File), d.names path = some k ∧ d.files[k]? = some file ∧
      file.creator = some n := by
  obtain ⟨k, hk, hfile⟩ := bind_eq_some_iff.mp h
  obtain ⟨file, hget, hcre⟩ := bind_eq_some_iff.mp hfile
  exact ⟨k, file, hk, hget, hcre⟩

end Disk

section Outcome

variable {Fp : Type} {host : Host Fp} {s t : TransferManager Fp} {id : TransferId} {task : Task Fp}
  {r r' : TransferRecord Fp} {a : Action Fp} {i j k n : Nat} {input : Input} {out : Outcome Fp}

def Job.completes : Job Fp → Option TransferId
  | .receive id _ (.storing _) => some id
  | .ending ⟨id, .completed, _, .transition, _⟩ _ _ => some id
  | _ => none

variable {job : Job Fp}

theorem Job.completes_eq_some (h : job.completes = some id) :
    (∃ plan path, job = .receive id plan (.storing path)) ∨ ∃ call doomed toCheck,
      job = .ending call doomed toCheck ∧ call.id = id ∧ call.next = .completed ∧
      call.stage = .transition := by
  unfold completes at h
  split at h
  · cases h
    exact .inl ⟨_, _, rfl⟩
  · cases h
    exact .inr ⟨_, _, _, rfl, rfl, rfl, rfl⟩
  · cases h

theorem Job.transfer_of_completes (h : job.completes = some id) : job.transfer = some id := by
  rcases completes_eq_some h with ⟨_, _, rfl⟩ | ⟨_, _, _, rfl, rfl, -⟩
  all_goals rfl

namespace TransferManager

section

variable (s : TransferManager Fp)

/-- A stream takes its plan when no other stream has served the record. -/
def Alone : Action Fp → Prop
  | .proceed i _ => ∀ task ∈ s.tasks[i]?, ∀ id ∈ task.job.runs, ∀ r ∈ s.transfers.get id,
      ∀ task' ∈ s.tasks, task'.serves ≠ some r.seq
  | _ => True

instance (s : TransferManager Fp) (a : Action Fp) : Decidable (s.Alone a) := by
  unfold Alone
  induction a using Action.casesOn <;> infer_instance

def Timely : Action Fp → Prop
  | .proceed i _ => ∀ task ∈ s.tasks[i]?, ∀ path ∈ s.finalPath task.job, ∀ id ∈ task.job.transfer,
    (s.transfers.get id).any (·.state = .verifying)
  | _ => True

instance (s : TransferManager Fp) (a : Action Fp) : Decidable (s.Timely a) := by
  unfold Timely
  induction a using Action.casesOn <;> infer_instance

def isCompleting (id : TransferId) : Bool :=
  s.tasks.any (fun task => task.promoted.isSome && task.job.completes = some id)

/-- A transfer whose file was promoted does not fail before its completion. -/
def Undisturbed : Action Fp → Prop
  | .proceed i _ =>
    ∀ task ∈ s.tasks[i]?, ∀ p ∈ task.job.enters, s.isCompleting p.1 → s.canTransition p.1 p.2 →
      p.2 = .completed
  | _ => True

instance (s : TransferManager Fp) (a : Action Fp) : Decidable (s.Undisturbed a) := by
  unfold Undisturbed
  induction a using Action.casesOn <;> infer_instance

inductive Closing (s : TransferManager Fp) (job : Job Fp) (n : Nat) : Prop
  | completed (id : TransferId) (r : TransferRecord Fp) (hr : s.record id = some r)
    (hseq : r.seq = n)
      (hstate : r.state = .completed) (hjob : job.isStream = false)
  | completing (id : TransferId) (r : TransferRecord Fp) (hr : s.transfers.get id = some r)
    (hseq : r.seq = n)
      (hdir : r.direction = .receiving) (hstate : r.state = .verifying)
        (hjob : job.completes = some id)

def Contains (n : Nat) (content : Bytes) : Prop :=
  ∀ (k : Nat) file, s.disk.files[k]? = some file → file.creator = some n →
    file.content = content

end

structure Filled (s : TransferManager Fp) : Prop where
  once : ∀ n, s.tasks.countP (fun task => task.serves = some n) ≤ 1
  unread : ∀ task ∈ s.tasks, ∀ id plan, task.job = .receive id plan .opening → task.read = []
  file : ∀ task ∈ s.tasks, ∀ id plan stage k, task.job = .receive id plan stage →
    stage.file = some k → (s.disk.files[k]?).bind File.creator = some plan.seq
  content : ∀ task ∈ s.tasks, ∀ id plan stage rest, task.job = .receive id plan stage →
    stage.pending = some rest → plan.temp.isSome ∧ ∃ content, s.Contains plan.seq content ∧
    content ++ rest = task.read
  promoted : ∀ task ∈ s.tasks, ∀ path, task.promoted = some path →
    ∃ n, task.serves = some n ∧ s.disk.Final n path ∧ s.Contains n task.read ∧ s.Closing task.job n
  final : ∀ path n, s.disk.Final n path → ∃ task ∈ s.tasks, task.serves = some n ∧
    task.promoted = some path

section Steps

variable {content : Bytes} {path temp : String} {plan : StreamPlan} {stage : ReceiveStage}
  {disk : Disk}

theorem serves_of_receive (hfoll : s.Followed host) (htask : task ∈ s.tasks)
    (hjob : task.job = .receive id plan stage) :
    task.serves = some plan.seq ∧ ∃ r, s.offer id = some r ∧ r.seq = plan.seq ∧
      r.direction = .receiving := by
  have hfol := hfoll.follows task htask
  unfold Task.Follows at hfol
  rw [hjob] at hfol
  obtain ⟨r, hr, hdir, -, hserv, -, hmatch, -⟩ := hfol
  exact ⟨hmatch.seq ▸ hserv, r, hr, hmatch.seq.symm, hdir⟩

theorem createdAt_of_plan (hfoll : s.Followed host) (hstock : s.Stocked) (htask : task ∈ s.tasks)
    (hjob : task.job = .receive id plan stage) (htemp : plan.temp = some temp)
    (hnames : (s.disk.names temp).isSome) :
    temp = tempName id ∧ s.disk.createdAt temp = some plan.seq := by
  obtain ⟨hname, hcreated⟩ := hstock.plan task htask id plan temp (by rw [hjob]; rfl) htemp
  obtain ⟨-, r, hr, hseq, -⟩ := serves_of_receive hfoll htask hjob
  refine ⟨hname, ?_⟩
  subst hname
  rcases hstock.named id r hr (hseq ▸ hcreated) with hnone | hat
  · rw [hnone] at hnames
    cases hnames
  · exact hseq ▸ hat

theorem index_of_serves {task'} (honce : s.tasks.countP (fun task => task.serves = some n) ≤ 1)
    (hi : s.tasks[i]? = some task) (hj : s.tasks[j]? = some task') (hserv : task.serves = some n)
    (hserv' : task'.serves = some n) : i = j := by
  by_contra hne
  have hfalse := eq_false_of_countP_le_one honce hne hi hj (decide_eq_true hserv)
  rw [decide_eq_true hserv'] at hfalse
  cases hfalse

theorem contains_modify {g : File → File} (hstock : s.Stocked)
    (hat : (s.disk.files[k]?).bind File.creator = some n)
    (hdisk : disk.files = s.disk.files.modify k g)
    (hg : ∀ file, s.disk.files[k]? = some file → (g file).creator = file.creator ∧
      (g file).content = content) :
    ∀ (k' : Nat) file, disk.files[k']? = some file → file.creator = some n →
      file.content = content := by
  intro k' _ hfile hcre
  rw [hdisk] at hfile
  obtain ⟨file₀, hfile₀, rfl⟩ := getElem?_modify_eq_some hfile
  obtain ⟨_, hfile₁, hcre₁⟩ := bind_eq_some_iff.mp hat
  have hone : s.disk.created n ≤ 1 := (Nat.le_add_right _ _).trans (hstock.once n)
  by_cases hk : k = k'
  · subst hk
    rw [if_pos rfl]
    exact (hg file₀ hfile₀).2
  rw [if_neg hk] at hcre
  have hfalse := eq_false_of_countP_le_one hone hk hfile₁ hfile₀ (decide_eq_true hcre₁)
  rw [decide_eq_true hcre] at hfalse
  cases hfalse

theorem Closing.not_receive (h : s.Closing task.job n) (hjob : task.job = .receive id plan stage) :
    ∃ path, stage = .storing path := by
  rw [hjob] at h
  cases h with
  | completed _ r _ _ _ hstr => cases hstr
  | completing _ r _ _ _ _ hcomp =>
    rcases Job.completes_eq_some hcomp with ⟨_, path, heq⟩ | ⟨_, _, _, heq, -⟩
    · cases heq
      exact ⟨path, rfl⟩
    · cases heq

theorem filled_start (hdisk : disk.Plain) : (start disk : TransferManager Fp).Filled := by
  have hnil : ∀ {P : Task Fp → Prop}, ∀ task ∈ (start disk : TransferManager Fp).tasks, P task :=
    fun _ h => absurd h not_mem_nil
  refine ⟨fun _ => Nat.zero_le 1, hnil, hnil, hnil, hnil, ?_⟩
  rintro _ n ⟨-, hat⟩
  obtain ⟨k, file, -, hfile, hcre⟩ := createdAt_eq_some hat
  cases (hdisk.found file (mem_of_getElem? hfile)).symm.trans hcre

variable [DecidableEq Fp]

inductive FileBefore (host : Host Fp) (s : TransferManager Fp) (a : Action Fp) (k : Nat)
    (file : File) : Prop
  | kept (hfile : s.disk.files[k]? = some file)
  | created (task : Task Fp) (seq : Nat) (htask : task ∈ s.tasks)
    (hjob : task.job.unopened = some seq)
      (hfile : file.creator = some seq)
  | truncated (i : Nat) (input : Input) (task : Task Fp) (out : Outcome Fp) (id : TransferId)
    (plan : StreamPlan)
      (file₀ : File) (hproc : Proceeds host s a i input task out)
        (hjob : task.job = .receive id plan .opening)
      (hnames : plan.temp.bind s.disk.names = some k) (hfile₀ : s.disk.files[k]? = some file₀)
        (hfile : file.creator = file₀.creator)
  | written (i : Nat) (input : Input) (task : Task Fp) (out : Outcome Fp) (id : TransferId)
    (plan : StreamPlan)
      (chunk : Bytes) (file₀ : File) (hproc : Proceeds host s a i input task out)
      (hjob : task.job = .receive id plan (.writing k chunk))
        (hfile₀ : s.disk.files[k]? = some file₀)
      (hfile : file.creator = file₀.creator)

theorem Stepped.fileBefore {file} (h : Stepped host s a t) (hfile : t.disk.files[k]? = some file) :
    FileBefore host s a k file := by
  cases h with
  | environment | starts | forgets => exact .kept hfile
  | @proceeds i input task out htask hadv =>
    have horig := (advance_advanced hadv).origin
    have hproc : Proceeds host s (.proceed i input) i input task out := ⟨rfl, htask, hadv⟩
    change (s.apply host out.effect).disk.files[k]? = some file at hfile
    cases heff : out.effect with
    | openTemp id creator =>
      rw [heff] at horig hfile
      obtain ⟨d, hd⟩ := isSome_iff_exists.mp horig.2
      have hdisk : (s.apply host (.openTemp id creator)).disk = d := congrArg (getD · s.disk) hd
      rw [hdisk, (openTemp_eq_some hd).2] at hfile
      rcases getElem?_concat_eq_some hfile with hkept | ⟨-, rfl⟩
      · exact .kept hkept
      · obtain ⟨_, _, hjob, -⟩ := Job.opens_eq_some horig.1
        exact .created task creator (mem_of_getElem? htask) (by rw [hjob]; rfl) rfl
    | truncate f =>
      rw [heff] at horig hfile
      obtain ⟨id, plan, hjob, hnames⟩ := horig
      obtain ⟨file₀, hfile₀, rfl⟩ := getElem?_modify_eq_some hfile
      by_cases hk : f = k
      · subst hk
        exact .truncated i input task out id plan file₀ hproc hjob hnames hfile₀
          (by rw [if_pos rfl])
      · rw [if_neg hk]
        exact .kept hfile₀
    | write f chunk =>
      rw [heff] at horig hfile
      obtain ⟨id, plan, hjob⟩ := horig
      obtain ⟨file₀, hfile₀, rfl⟩ := getElem?_modify_eq_some hfile
      by_cases hk : f = k
      · subst hk
        exact .written i input task out id plan chunk file₀ hproc hjob hfile₀ (by rw [if_pos rfl])
      · rw [if_neg hk]
        exact .kept hfile₀
    | _ =>
      rw [heff] at hfile
      exact .kept hfile

theorem creator_step (h : Stepped host s a t) (hs : (s.disk.files[k]?).bind File.creator = some n) :
    (t.disk.files[k]?).bind File.creator = some n := by
  cases h.filed with
  | same halike => exact (halike.creator k).trans hs
  | removed _ _ _ _ _ _ _ _ hdisk | renamed _ _ _ _ _ _ _ _ _ _ _ _ _ hdisk => rw [hdisk]; exact hs
  | opened i _ _ _ _ _ _ _ _ _ hopen =>
    obtain ⟨_, hfile, hcre⟩ := bind_eq_some_iff.mp hs
    rw [(openTemp_eq_some hopen).2, getElem?_concat_of_eq_some hfile]
    exact hcre

section

variable (h : Stepped host s a t)
include h

theorem contains_step (hfoll : s.Followed host) (hstock : s.Stocked) (hs : s.Filled)
    (hcont : s.Contains n content) (hcreated : 0 < s.disk.created n)
    (hoth : ∀ i input task out id plan stage, Proceeds host s a i input task out →
      task.job = .receive id plan stage → stage = .opening ∨ (∃ k chunk, stage = .writing k chunk) →
      plan.seq ≠ n) : t.Contains n content := by
  intro k file hfile hcre
  cases h.fileBefore hfile with
  | kept hkept => exact hcont k file hkept hcre
  | created task _ htask hjob hseq =>
    obtain rfl := mem_unique hcre hseq
    have hunop : 0 < s.tasks.countP (fun task => task.job.unopened = some n) :=
      countP_pos_iff.mpr ⟨task, htask, decide_eq_true hjob⟩
    have honce := hstock.once n
    rw [allotted] at honce
    omega
  | truncated i input task out id plan _ hproc hjob hnames hfile₀ hsame =>
    obtain ⟨_, htemp, hname⟩ := bind_eq_some_iff.mp hnames
    have hmem := mem_of_getElem? hproc.slot
    have hat := (createdAt_of_plan hfoll hstock hmem hjob htemp (by rw [hname]; rfl)).2
    rw [createdAt, hname, bind_some, hfile₀, bind_some, ← hsame, hcre] at hat
    exact absurd (some.inj hat).symm (hoth i input task out id plan .opening hproc hjob (.inl rfl))
  | written i input task out id plan chunk _ hproc hjob hfile₀ hsame =>
    have hat := hs.file task (mem_of_getElem? hproc.slot) id plan _ k hjob rfl
    rw [hfile₀, bind_some, ← hsame, hcre] at hat
    exact absurd (some.inj hat).symm (hoth i input task out id plan _ hproc hjob
      (.inr ⟨k, chunk, rfl⟩))

theorem contains_other (hfoll : s.Followed host) (hstock : s.Stocked) (hs : s.Filled)
    (hcont : s.Contains n content) (hcreated : 0 < s.disk.created n) (hj : s.tasks[j]? = some task)
    (hserv : task.serves = some n) (hne : ∀ input, a ≠ .proceed j input) :
    t.Contains n content := by
  refine contains_step h hfoll hstock hs hcont hcreated ?_
  intro i input _ _ _ _ _ hproc hjob _ hseq
  have hserv' := (serves_of_receive hfoll (mem_of_getElem? hproc.slot) hjob).1
  rw [hseq] at hserv'
  obtain rfl := index_of_serves (hs.once n) hproc.slot hj hserv' hserv
  exact hne input hproc.action

theorem once_step (halone : s.Alone a)
    (hs : ∀ n, s.tasks.countP (fun task => task.serves = some n) ≤ 1) (n) :
    t.tasks.countP (fun task => task.serves = some n) ≤ 1 := by
  cases h with
  | environment | forgets => exact hs n
  | starts => simpa [spawn] using hs n
  | @proceeds i _ task out htask hadv =>
    have hspawn : out.spawned.countP (fun task => task.serves = some n) = 0 := by
      refine countP_eq_zero.mpr ?_
      intro task' htask'
      cases (advance_advanced hadv).spawned task' htask' <;> simp
    have hset := countP_set_add htask (fun task => task.serves = some n) out.task
    have honce := hs n
    rw [resume, apply_tasks, countP_append, hspawn, Nat.add_zero]
    rcases (advance_noted hadv).serves with hsame | ⟨id, r, hjob, hr, hserv⟩
    · rw [hsame] at hset
      omega
    by_cases hn : r.seq = n
    · subst hn
      have hzero : s.tasks.countP (fun task => task.serves = some r.seq) = 0 := by
        refine countP_eq_zero.mpr ?_
        intro task' htask'
        rw [decide_eq_true_eq]
        exact halone task htask id (by rw [hjob]; rfl) r hr task' htask'
      split at hset <;> split at hset <;> omega
    · rw [hserv] at hset
      simp only [some.injEq, hn, decide_false, Bool.false_eq_true, if_false] at hset
      split at hset <;> omega

theorem unread_step (hfoll : s.Followed host)
    (hs : ∀ task ∈ s.tasks, ∀ id plan, task.job = .receive id plan .opening → task.read = []) :
    ∀ task ∈ t.tasks, ∀ id plan, task.job = .receive id plan .opening → task.read = [] := by
  refine h.forall_tasks ?_ ?_ ?_
  · intro j task htask _
    exact hs task (mem_of_getElem? htask)
  · intro _ _ _ _ _ _ _
    rfl
  · rintro i _ task _ rfl htask hadv rfl
    refine ⟨?_, ?_⟩
    · intro _ _ hout
      have hlead := (advance_advanced hadv).leads
      rw [hout] at hlead
      rcases hlead.receive_inv with ⟨_, hjob⟩ | ⟨hjob, -⟩
      · cases advance_copies hadv hjob with
        | passes _ htask' _ _ _ hopening =>
          rw [htask'] at hout
          cases hout
          exact absurd rfl hopening
        | leaves _ htask' hjob' =>
          rw [htask'] at hout
          rcases hjob' with rfl | ⟨reason, rfl⟩ <;> cases hout
        | opens _ _ _ _ htask' | reads _ _ _ _ htask' | writes _ _ _ _ htask'
        | promotes _ _ _ _ _ _ htask'
        | stores _ _ _ _ htask' => rw [htask'] at hout; cases hout
      · have hfol := hfoll.follows task (mem_of_getElem? htask)
        unfold Task.Follows at hfol
        rw [hjob] at hfol
        rcases (advance_noted hadv).read with hsame | ⟨_, _, _, _, hjob', -⟩
        · exact hsame.trans hfol.1.read
        · cases hjob.symm.trans hjob'
    · intro task' htask' _ _ hjob
      cases (advance_advanced hadv).spawned task' htask' <;> cases hjob

theorem file_step (hfoll : s.Followed host) (hstock : s.Stocked)
    (hs : ∀ task ∈ s.tasks, ∀ id plan stage k, task.job = .receive id plan stage →
      stage.file = some k → (s.disk.files[k]?).bind File.creator = some plan.seq) :
    ∀ task ∈ t.tasks, ∀ id plan stage k, task.job = .receive id plan stage → stage.file = some k →
      (t.disk.files[k]?).bind File.creator = some plan.seq := by
  refine h.forall_tasks ?_ ?_ ?_
  · intro j task htask _ id plan stage k hjob hk
    exact creator_step h (hs task (mem_of_getElem? htask) id plan stage k hjob hk)
  · intro _ _ hstart _ _ _ _ k hjob
    cases hstart <;> cases hjob
  · rintro i _ task _ rfl htask hadv rfl
    have hmem := mem_of_getElem? htask
    refine ⟨?_, ?_⟩
    · intro id plan _ k hout hk
      refine creator_step h ?_
      have hlead := (advance_advanced hadv).leads
      rw [hout] at hlead
      rcases hlead.receive_inv with ⟨stage, hjob⟩ | ⟨-, rfl⟩
      · cases advance_copies hadv hjob with
        | opens _ _ hfile _ htask' =>
          rw [htask'] at hout
          cases hout
          cases hk
          obtain ⟨_, htemp, hname⟩ := bind_eq_some_iff.mp hfile
          have hat := (createdAt_of_plan hfoll hstock hmem hjob htemp (by rw [hname]; rfl)).2
          rw [createdAt, hname] at hat
          exact hat
        | reads _ _ hst _ htask' | writes _ _ hst _ htask' =>
          rw [htask'] at hout
          cases hout
          subst hst
          exact hs task hmem id plan _ k hjob hk
        | passes _ htask' _ hfile =>
          rw [htask'] at hout
          cases hout
          rcases hfile with hnone | hsame
          · cases hnone.symm.trans hk
          · exact hs task hmem id plan stage k hjob (hsame.symm.trans hk)
        | promotes _ _ _ _ _ _ htask' => rw [htask'] at hout; cases hout; cases hk
        | stores _ _ _ _ htask' => rw [htask'] at hout; cases hout
        | leaves _ htask' hjob' =>
          rw [htask'] at hout
          rcases hjob' with rfl | ⟨reason, rfl⟩ <;> cases hout
      · cases hk
    · intro task' htask' _ _ _ k hjob
      cases (advance_advanced hadv).spawned task' htask' <;> cases hjob

end

section

variable (h : Stepped host s a t)
include h

theorem content_step (hfoll : s.Followed host) (hstock : s.Stocked) (hs : s.Filled) :
    ∀ task ∈ t.tasks, ∀ id plan stage rest, task.job = .receive id plan stage →
      stage.pending = some rest → plan.temp.isSome ∧ ∃ content, t.Contains plan.seq content ∧
      content ++ rest = task.read := by
  have hcreated : ∀ task ∈ s.tasks, ∀ id plan stage, task.job = .receive id plan stage →
      plan.temp.isSome → 0 < s.disk.created plan.seq := by
    intro task htask id plan _ hjob htemp
    obtain ⟨temp, htemp⟩ := isSome_iff_exists.mp htemp
    exact (hstock.plan task htask id plan temp (by rw [hjob]; rfl) htemp).2
  refine h.forall_tasks ?_ ?_ ?_
  · intro j task htask hne id plan stage rest hjob hrest
    have hmem := mem_of_getElem? htask
    obtain ⟨htemp, content, hcont, hread⟩ := hs.content task hmem id plan stage rest hjob hrest
    exact ⟨htemp, content, contains_other h hfoll hstock hs hcont
      (hcreated task hmem id plan stage hjob htemp) htask (serves_of_receive hfoll hmem hjob).1
      hne, hread⟩
  · intro _ _ hstart _ _ _ _ _ hjob
    cases hstart <;> cases hjob
  · rintro i input task out rfl htask hadv rfl
    have hmem := mem_of_getElem? htask
    have hproc : Proceeds host s (.proceed i input) i input task out := ⟨rfl, htask, hadv⟩
    refine ⟨?_, ?_⟩
    · intro id plan stage' rest hout hrest
      have hlead := (advance_advanced hadv).leads
      rw [hout] at hlead
      rcases hlead.receive_inv with ⟨stage, hjob⟩ | ⟨-, rfl⟩
      · have hquiet : ∀ content, s.Contains plan.seq content → plan.temp.isSome → stage ≠ .opening →
            (∀ k chunk, stage ≠ .writing k chunk) →
            ((s.apply host out.effect).resume i out).Contains plan.seq content := by
          intro _ hcont htemp hopening hwrit
          refine contains_step h hfoll hstock hs hcont
            (hcreated task hmem id plan stage hjob htemp) ?_
          intro _ _ _ _ _ _ _ hproc' hjob' hst'
          obtain ⟨rfl, rfl, rfl⟩ := hproc.unique hproc'
          cases hjob.symm.trans hjob'
          rcases hst' with rfl | ⟨k, chunk, rfl⟩
          · exact absurd rfl hopening
          · exact absurd rfl (hwrit k chunk)
        cases advance_copies hadv hjob with
        | opens file hst hfile heff htask' =>
          subst hst
          rw [htask'] at hout ⊢
          cases hout
          cases hrest
          obtain ⟨temp, htemp, hname⟩ := bind_eq_some_iff.mp hfile
          have hat := (createdAt_of_plan hfoll hstock hmem hjob htemp (by rw [hname]; rfl)).2
          rw [createdAt, hname] at hat
          have hfiles : ((s.apply host out.effect).resume i out).disk.files = s.disk.files.modify
              file ({ · with content := [] }) := by
            rw [heff]
            rfl
          refine ⟨isSome_iff_exists.mpr ⟨temp, htemp⟩, [], ?_,
            (hs.unread task hmem id plan hjob).symm⟩
          exact contains_modify hstock hat hfiles (fun file _ => ⟨rfl, rfl⟩)
        | writes file chunk hst heff htask' =>
          subst hst
          rw [htask'] at hout ⊢
          cases hout
          cases hrest
          obtain ⟨htemp, content, hcont, hread⟩ := hs.content task hmem id plan _ chunk hjob rfl
          have hat := hs.file task hmem id plan _ file hjob rfl
          have hfiles : ((s.apply host out.effect).resume i out).disk.files =
              s.disk.files.modify file (fun f => { f with content := f.content ++ chunk }) := by
            rw [heff]
            rfl
          refine ⟨htemp, content ++ chunk, ?_, (append_nil _).trans hread⟩
          refine contains_modify hstock hat hfiles ?_
          intro file₀ hfile₀
          rw [hfile₀, bind_some] at hat
          exact ⟨rfl, congrArg (· ++ chunk) (hcont file file₀ hfile₀ hat)⟩
        | reads _ _ hst _ htask' =>
          subst hst
          rw [htask'] at hout ⊢
          cases hout
          cases hrest
          obtain ⟨htemp, content, hcont, hread⟩ := hs.content task hmem id plan _ [] hjob rfl
          rw [append_nil] at hread
          exact ⟨htemp, content, hquiet content hcont htemp (by simp) (by simp),
            congrArg (· ++ rest) hread⟩
        | passes _ htask' _ _ hpend =>
          rw [htask'] at hout ⊢
          cases hout
          rcases hpend with hnone | ⟨hempty, hst, hwrit⟩
          · cases hnone.symm.trans hrest
          cases hempty.symm.trans hrest
          obtain ⟨htemp, content, hcont, hread⟩ := hs.content task hmem id plan stage [] hjob hst
          refine ⟨htemp, content, hquiet content hcont htemp ?_ hwrit, hread⟩
          rintro rfl
          cases hst
        | promotes _ _ hst htemp _ _ htask' =>
          subst hst
          rw [htask'] at hout ⊢
          cases hout
          cases hrest
          obtain ⟨htemp, content, hcont, hread⟩ := hs.content task hmem id plan _ [] hjob rfl
          exact ⟨htemp, content, hquiet content hcont htemp (by simp) (by simp), hread⟩
        | stores _ _ _ _ htask' => rw [htask'] at hout; cases hout
        | leaves _ htask' hjob' =>
          rw [htask'] at hout
          rcases hjob' with rfl | ⟨reason, rfl⟩ <;> cases hout
      · cases hrest
    · intro task' htask' _ _ _ _ hjob
      cases (advance_advanced hadv).spawned task' htask' <;> cases hjob

theorem final_step (hstock : s.Stocked) (hs : s.disk.Final n path) : t.disk.Final n path := by
  obtain ⟨hname, hat⟩ := hs
  have hne : ∀ id, path ≠ tempName id := by
    rintro id rfl
    cases hname.symm.trans (isTempName_tempName id)
  refine ⟨hname, ?_⟩
  cases h.filed with
  | same halike => exact (halike.createdAt path).trans hat
  | removed i _ task _ path' hproc hjob _ hdisk =>
    obtain ⟨id, -, rfl⟩ := hstock.removes task (mem_of_getElem? hproc.slot) path' hjob
    rw [hdisk, createdAt_remove, if_neg (hne id)]
    exact hat
  | renamed i _ task _ id plan temp path' hproc hjob htemp hpromot _ hdisk =>
    obtain ⟨rfl, -⟩ := hstock.plan task (mem_of_getElem? hproc.slot) id plan temp
      (by rw [hjob]; rfl) htemp
    have hoth : path ≠ path' := by
      rintro rfl
      rw [createdAt, (promotes_eq_some hpromot).2] at hat
      cases hat
    rw [hdisk, createdAt_rename, if_neg (hne id), if_neg hoth]
    exact hat
  | opened i _ _ _ request _ _ _ _ _ hopen =>
    rw [createdAt_openTemp hstock.sound hopen, if_neg (hne request.transferId)]
    exact hat

theorem final_before (hfoll : s.Followed host) (hstock : s.Stocked) (hfinal : t.disk.Final n path) :
    s.disk.Final n path ∨ ∃ i input task out id plan temp, Proceeds host s a i input task out ∧
      task.job = .receive id plan .promoting ∧ plan.seq = n ∧ out.effect = .rename temp path := by
  obtain ⟨hname, hat⟩ := hfinal
  cases h.filed with
  | same halike => exact .inl ⟨hname, (halike.createdAt path).symm.trans hat⟩
  | removed i _ _ _ _ _ _ _ hdisk =>
    rw [hdisk, createdAt_remove] at hat
    split at hat
    · cases hat
    · exact .inl ⟨hname, hat⟩
  | opened i _ _ _ _ _ _ _ _ _ hopen =>
    rw [createdAt_openTemp hstock.sound hopen] at hat
    split at hat
    · rename_i hpath
      rw [hpath] at hname
      cases hname.symm.trans (isTempName_tempName _)
    · exact .inl ⟨hname, hat⟩
  | renamed i input task out id plan temp _ hproc hjob htemp hpromot heff hdisk =>
    rw [hdisk, createdAt_rename] at hat
    split at hat
    · cases hat
    split at hat
    · rename_i hpath
      subst hpath
      have hcre := (createdAt_of_plan hfoll hstock (mem_of_getElem? hproc.slot) hjob
        htemp (promotes_eq_some hpromot).1).2
      exact .inr ⟨i, input, task, out, id, plan, temp, hproc, hjob,
        some.inj (hcre.symm.trans hat), heff⟩
    · exact .inl ⟨hname, hat⟩

theorem closing_other (hfresh : s.Fresh a) (hund : s.Undisturbed a) (hfoll : s.Followed host)
    (hs : s.Filled) (hj : s.tasks[j]? = some task) (hserv : task.serves = some n)
    (hprom : task.promoted.isSome) (hne : ∀ input, a ≠ .proceed j input)
    (hclos : s.Closing task.job n) : t.Closing task.job n := by
  cases hclos with
  | completed id r hr hseq hstate hjob =>
    cases h.recalled hfresh hfoll.kept id with
    | inserted i _ _ _ _ _ _ _ hnone => cases hnone.symm.trans hr
    | kept e f _ hrecord hf =>
      rw [hr] at hrecord
      have hstate' := ((hf r).evolves.terminal (by rw [hstate]; rfl)).1
      exact .completed id (f r) hrecord ((hf r).evolves.seq.trans hseq) (hstate'.trans hstate) hjob
  | completing id r hr hseq hdir hstate hjob =>
    cases h.recorded id with
    | inserted i _ task' r' ha htask hr' hid =>
      subst ha
      have hnone := hfresh task' htask r' hr'
      rw [hid, record_of_get hr] at hnone
      cases hnone
    | forgotten _ _ _ hr' =>
      obtain ⟨hget', hterm⟩ := mem_forgotten hr'
      obtain rfl := mem_unique hr hget'
      rw [hstate] at hterm
      cases hterm
    | kept e f he hget hf =>
      rw [hr] at hget
      have hevol := (hf r).evolves
      rcases (hf r).state with hsame | ⟨_, heq⟩
      · exact .completing id (f r) hget (hevol.seq.trans hseq)
          (hevol.direction.trans hdir) (hsame.trans hstate) hjob
      subst heq
      obtain ⟨i, input, task', _, hproc, heff, horig⟩ := he.proceeds nofun
      have hcompleting : s.isCompleting id := by
        refine any_eq_true.mpr ⟨task, mem_of_getElem? hj, ?_⟩
        rw [hprom, hjob]
        simp
      obtain ⟨ha, hslot, hadvan⟩ := hproc
      subst ha
      have hnext : (f r).state = .completed := hund task' hslot _ horig.1 hcompleting horig.2
      rw [hnext] at heff
      -- the call that completes the transfer is the stream that serves it
      have hevid := (evidence_of_completes hfoll ⟨rfl, hslot, hadvan⟩ heff
        (offer_eq_of_record (record_of_get hr)) hdir).2
      have hserv' : task'.serves = some n := hseq ▸ hevid.serves
      obtain rfl := index_of_serves (hs.once n) hslot hj hserv' hserv
      exact absurd rfl (hne input)

theorem closing_advance (hfresh : s.Fresh a) (hfoll : s.Followed host)
    (hproc : Proceeds host s a i input task out) (hclos : s.Closing task.job n) :
    t.Closing out.task.job n := by
  obtain ⟨ht, -⟩ := h.result hproc
  have hlead := (advance_advanced hproc.advances).leads
  cases hclos with
  | completed id r hr hseq hstate hjob =>
    cases h.recalled hfresh hfoll.kept id with
    | inserted i _ _ _ _ _ _ _ hnone => cases hnone.symm.trans hr
    | kept e f _ hrecord hf =>
      rw [hr] at hrecord
      have hstate' := ((hf r).evolves.terminal (by rw [hstate]; rfl)).1
      exact .completed id (f r) hrecord ((hf r).evolves.seq.trans hseq) (hstate'.trans hstate)
        (hlead.isStream hjob)
  | completing id r hr hseq hdir hstate hjob =>
    rcases Job.completes_eq_some hjob with ⟨_, path, hrec⟩ | ⟨call, _, _, hend, rfl, hnext, hcall⟩
    · have hadvan := hproc.advances
      unfold advance at hadvan
      rw [hrec] at hadvan
      obtain ⟨heff, _, htask⟩ := runReceive_storing hadvan
      refine .completing id { r with temp := none, storedAt := some path } ?_ hseq hdir hstate
        (by rw [htask]; rfl)
      rw [ht, heff]
      change (s.update _ _).transfers.get _ = _
      rw [get_update, hr, map_some, if_pos rfl]
    · have hcan : r.state.canTransitionTo call.next := by
        rw [hstate, hnext]
        rfl
      cases advance_ends hproc.advances hend with
      | enters _ heff hjob' =>
        refine .completed call.id
          (r.enter call.next call.failure (s.clock + host.config.deadlineFor call.next)) ?_ ?_ ?_ ?_
        · refine record_of_get ?_
          rw [ht, heff]
          change (s.update _ _).transfers.get _ = _
          rw [get_update, hr, map_some, if_pos rfl]
        · exact (r.enter_evolves _ _ _).seq.trans hseq
        · rw [TransferRecord.enter, if_pos hcan]
          exact hnext
        · rw [hjob']
          rfl
      | leaves hst =>
        rcases hst with ⟨-, hnot⟩ | hst
        · rw [canTransition, hr, any_some, hcan] at hnot
          cases hnot
        · cases hcall.symm.trans hst
      | looks tell hst | takes path hst | keeps hst | removes path hst =>
        cases hcall.symm.trans hst

end

theorem promoted_same (h : Stepped host s a t) (hfresh : s.Fresh a) (hfoll : s.Followed host)
    (hstock : s.Stocked) (hs : s.Filled) (hproc : Proceeds host s a i input task out)
    (hpath : task.promoted = some path) :
    out.task.promoted = some path ∧ ∃ n, out.task.serves = some n ∧ t.disk.Final n path ∧
      t.Contains n out.task.read ∧ t.Closing out.task.job n := by
  obtain ⟨n, hserv, hfinal, hcont, hclos⟩ :=
    hs.promoted task (mem_of_getElem? hproc.slot) path hpath
  have hnoted := advance_noted hproc.advances
  have hprom : out.task.promoted = task.promoted := by
    rcases hnoted.promoted with hsame | ⟨_, _, _, _, hjob, -⟩
    · exact hsame
    · obtain ⟨_, heq⟩ := hclos.not_receive hjob
      cases heq
  have hread : out.task.read = task.read := by
    rcases hnoted.read with hsame | ⟨_, _, _, _, hjob, -⟩
    · exact hsame
    · obtain ⟨_, heq⟩ := hclos.not_receive hjob
      cases heq
  have hserv' : out.task.serves = task.serves := by
    rcases hnoted.serves with hsame | ⟨_, r, hjob, -⟩
    · exact hsame
    rw [hjob] at hclos
    cases hclos with
    | completed _ r _ _ _ hstr => cases hstr
    | completing _ r _ _ _ _ hcomp => cases hcomp
  refine ⟨hprom.trans hpath, n, hserv'.trans hserv, final_step h hstock hfinal, ?_,
    closing_advance h hfresh hfoll hproc hclos⟩
  rw [hread]
  refine contains_step h hfoll hstock hs hcont (created_pos hfinal.2) ?_
  intro _ _ _ _ _ _ _ hproc' hjob' hst _
  obtain ⟨rfl, rfl, rfl⟩ := hproc.unique hproc'
  obtain ⟨_, rfl⟩ := hclos.not_receive hjob'
  rcases hst with hst | ⟨k, chunk, hst⟩ <;> cases hst

theorem promoted_new (h : Stepped host s a t) (hnam : s.Named a) (htim : s.Timely a)
    (hfoll : s.Followed host) (hstock : s.Stocked) (hs : s.Filled)
    (hproc : Proceeds host s a i input task out) (hjob : task.job = .receive id plan .promoting)
    (heff : out.effect = .rename temp path) :
    out.task.promoted = some path ∧ out.task.serves = some plan.seq ∧ t.disk.Final plan.seq path ∧
      t.Contains plan.seq out.task.read ∧ t.Closing out.task.job plan.seq := by
  obtain ⟨ht, -⟩ := h.result hproc
  have hmem := mem_of_getElem? hproc.slot
  obtain ⟨hserv, r, hoff, hseq, hdir⟩ := serves_of_receive hfoll hmem hjob
  cases advance_copies hproc.advances hjob with
  | promotes _ _ _ htemp hpromot heff' htask =>
    cases heff.symm.trans heff'
    have hfinal := hnam.ne_tempName hproc hjob htemp hpromot
    obtain ⟨rfl, hat⟩ := createdAt_of_plan hfoll hstock hmem hjob htemp (promotes_eq_some hpromot).1
    have hne : path ≠ tempName id := by
      rintro rfl
      cases hfinal.symm.trans (isTempName_tempName id)
    obtain ⟨_, _, hcont, hread⟩ := hs.content task hmem id plan .promoting [] hjob rfl
    rw [append_nil] at hread
    subst hread
    rw [htask]
    refine ⟨rfl, hserv, ⟨hfinal, ?_⟩, ?_, ?_⟩
    · have hdisk : t.disk = s.disk.rename (tempName id) path := by
        rw [ht, heff]
        rfl
      rw [hdisk, createdAt_rename, if_neg hne, if_pos rfl]
      exact hat
    · refine contains_step h hfoll hstock hs hcont (created_pos hat) ?_
      intro _ _ _ _ _ _ _ hproc' hjob' hst' _
      obtain ⟨rfl, rfl, rfl⟩ := hproc.unique hproc'
      cases hjob.symm.trans hjob'
      rcases hst' with hst' | ⟨k, chunk, hst'⟩ <;> cases hst'
    · obtain ⟨ha, hslot, -⟩ := hproc
      subst ha
      have hfound : path ∈ s.finalPath task.job := by
        rw [hjob, finalPath, htemp]
        exact hpromot
      have hver := htim task hslot path hfound id (by rw [hjob]; rfl)
      obtain ⟨r', hr', hstate⟩ := (any_eq_true _ _).mp hver
      have hoff' : r'.fixed = r :=
        some.inj ((offer_eq_of_record (record_of_get hr')).symm.trans hoff)
      subst hoff'
      refine .completing id r' ?_ hseq hdir (of_decide_eq_true hstate) rfl
      rw [ht, heff]
      exact hr'
  | opens file hst | reads file chunk hst | writes file chunk hst
  | stores path tell hst => cases hst
  | passes _ _ heff' | leaves _ _ _ heff' =>
    rcases heff' with heff' | heff' | heff' <;> cases heff.symm.trans heff'

theorem step_filled (h : Stepped host s a t) (hfresh : s.Fresh a) (hnam : s.Named a)
    (halone : s.Alone a) (htim : s.Timely a) (hund : s.Undisturbed a) (hfoll : s.Followed host)
    (hstock : s.Stocked) (hs : s.Filled) : t.Filled := by
  refine ⟨once_step h halone hs.once, unread_step h hfoll hs.unread,
    file_step h hfoll hstock hs.file, content_step h hfoll hstock hs, ?_, ?_⟩
  · refine h.forall_tasks ?_ ?_ ?_
    · intro j task htask hne path hpath
      obtain ⟨n, hserv, hfinal, hcont, hclos⟩ := hs.promoted task (mem_of_getElem? htask) path hpath
      exact ⟨n, hserv, final_step h hstock hfinal,
        contains_other h hfoll hstock hs hcont (created_pos hfinal.2) htask hserv hne,
        closing_other h hfresh hund hfoll hs htask hserv (by rw [hpath]; rfl) hne hclos⟩
    · intro _ _ _ _ _ hpath
      cases hpath
    · rintro i input task out rfl htask hadv rfl
      have hproc : Proceeds host s (.proceed i input) i input task out := ⟨rfl, htask, hadv⟩
      refine ⟨?_, ?_⟩
      · intro _ hpath
        rcases (advance_noted hadv).promoted with hsame | ⟨_, plan, _, _, hjob, -, -, heff⟩
        · exact (promoted_same h hfresh hfoll hstock hs hproc (hsame.symm.trans hpath)).2
        · obtain ⟨hprom, hrest⟩ := promoted_new h hnam htim hfoll hstock hs hproc hjob heff
          obtain rfl := mem_unique hprom hpath
          exact ⟨plan.seq, hrest⟩
      · intro task' htask' _ hpath
        cases (advance_advanced hadv).spawned task' htask' <;> cases hpath
  · intro path n hfinal
    rcases final_before h hfoll hstock hfinal with hbef | ⟨i, input, task, out, _, _, _,
      hproc, hjob, rfl, heff⟩
    · obtain ⟨task, htask, hserv, hpath⟩ := hs.final path n hbef
      obtain ⟨j, hj⟩ := mem_iff_getElem?.mp htask
      rcases h.persists hj with hkept | ⟨_, out, rfl, hadv, -, hout⟩
      · exact ⟨task, mem_of_getElem? hkept, hserv, hpath⟩
      obtain ⟨hprom, m, hserv', hfinal', -⟩ :=
        promoted_same h hfresh hfoll hstock hs ⟨rfl, hj, hadv⟩ hpath
      obtain rfl := mem_unique hfinal'.2 hfinal.2
      exact ⟨out.task, mem_of_getElem? hout, hserv', hprom⟩
    · obtain ⟨hprom, hserv, -⟩ := promoted_new h hnam htim hfoll hstock hs hproc hjob heff
      exact ⟨out.task, (h.result hproc).2, hserv, hprom⟩

end Steps

section Sample

/-- The file is received, verified and promoted, and then the transfer is cancelled before the
stream asks for its completion. -/
def cancelsPromoted : List (Action Nat) :=
  receivesFile [5, 6] ++ copiesFile 2 [5, 6] ++ promotesFile 2 ++ cancels 3 (sampleId 1) ++
  [Action.proceed 3 .go, .proceed 3 .go, .proceed 3 (.outcome true), .proceed 2 .go, .proceed 2 .go]

end Sample

end TransferManager

end Outcome

end OmniBridge.Desktop.Files
