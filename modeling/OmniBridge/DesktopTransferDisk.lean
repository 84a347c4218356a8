import OmniBridge.DesktopTransferHistory

/-! The files that transfers create. Each is created once, under the temp name of its
transfer, and is at one name at a time; a step opens it there, removes it, renames it or leaves
it where it is. -/

namespace OmniBridge.Desktop.Files

open List Option TransferRecord TransferId Function

section Names

theorem digitChar_inj : ∀ a b : Fin 16, Nat.digitChar a.val = Nat.digitChar b.val → a = b := by
  decide

theorem hexByte_injective : Injective hexByte := by
  intro b c h
  have hb := b.toNat_lt
  have hc := c.toNat_lt
  obtain ⟨hhigh, hlow⟩ : Nat.digitChar (b.toNat / 16) = Nat.digitChar (c.toNat / 16) ∧
      Nat.digitChar (b.toNat % 16) = Nat.digitChar (c.toNat % 16) := by simpa [hexByte] using h
  have hhigh := congrArg Fin.val
    (digitChar_inj ⟨b.toNat / 16, by omega⟩ ⟨c.toNat / 16, by omega⟩ hhigh)
  have hlow := congrArg Fin.val
    (digitChar_inj ⟨b.toNat % 16, by omega⟩ ⟨c.toNat % 16, by omega⟩ hlow)
  simp only at hhigh hlow
  exact UInt8.toNat_inj.mp (by omega)

theorem flatMap_hexByte_injective (bs cs : Bytes) (h : bs.flatMap hexByte = cs.flatMap hexByte) :
    bs = cs := by
  induction bs generalizing cs with
  | nil =>
    cases cs with
    | nil => rfl
    | cons => simp [hexByte] at h
  | cons b _ ih =>
    cases cs with
    | nil => simp [hexByte] at h
    | cons c cs =>
      obtain ⟨hhead, htail⟩ := append_inj h rfl
      rw [hexByte_injective hhead, ih cs htail]

theorem tempName_injective : Injective tempName := by
  intro id _ h
  have hlist := congrArg String.toList h
  simp only [tempName, toHex, String.toList_append, String.toList_ofList] at hlist
  have hbytes := flatMap_hexByte_injective _ _ (append_cancel_left (append_cancel_right hlist))
  obtain ⟨_, _⟩ := id
  subst hbytes
  rfl

def isTempName (name : String) : Bool :=
  ".pliwee-".toList.isPrefixOf name.toList && ".part".toList.isSuffixOf name.toList

theorem isTempName_tempName (id : TransferId) : isTempName (tempName id) := by
  rw [isTempName, Bool.and_eq_true, isPrefixOf_iff_prefix, isSuffixOf_iff_suffix]
  simp only [tempName, String.toList_append]
  exact ⟨(prefix_append _ _).trans (prefix_append _ _), suffix_append _ _⟩

end Names

namespace Disk

variable {d : Disk} {id : TransferId} {path temp : String} {n : Nat}

def createdAt (d : Disk) (path : String) : Option Nat :=
  (d.names path).bind (fun f => (d.files[f]?).bind File.creator)

def created (d : Disk) (n : Nat) : Nat := d.files.countP (fun file => file.creator = some n)

def Sound (d : Disk) : Prop := ∀ path f, d.names path = some f → f < d.files.length

structure Plain (d : Disk) : Prop where
  sound : d.Sound
  found : ∀ file ∈ d.files, file.creator = none

variable {name : String}

theorem reserve_free (h : d.reserve name = some path) : d.names path = none := by
  obtain ⟨hfind, hchild⟩ := filter_eq_some_iff.mp h
  have hfree := find?_some hfind
  simpa [hchild] using hfree

theorem promotes_eq_some (h : d.promotes temp name = some path) :
    (d.names temp).isSome ∧ d.names path = none := by
  unfold promotes at h
  split at h
  · rename_i htemp
    exact ⟨htemp, reserve_free h⟩
  · cases h

theorem names_remove (d : Disk) (path p : String) :
    (d.remove path).names p = if p = path then none else d.names p := by
  by_cases hp : p = path
  all_goals simp [remove, hp]

theorem names_rename (d : Disk) (temp path p : String) :
    (d.rename temp path).names p = if p = temp then none else if p = path then d.names temp
      else d.names p := by
  by_cases htemp : p = temp
  · simp [rename, htemp]
  by_cases hpath : p = path
  · subst hpath
    simp [rename, htemp]
  · simp [rename, htemp, hpath]

theorem createdAt_remove (d : Disk) (path p : String) :
    (d.remove path).createdAt p = if p = path then none else d.createdAt p := by
  unfold createdAt
  rw [names_remove]
  split <;> rfl

theorem createdAt_rename (d : Disk) (temp path p : String) :
    (d.rename temp path).createdAt p = if p = temp then none else if p = path then d.createdAt temp
      else d.createdAt p := by
  unfold createdAt
  rw [names_rename]
  split
  · rfl
  · split <;> rfl

variable {d' : Disk} {g : File → File} {f : Nat}

theorem creator_modify (hg : ∀ file, (g file).creator = file.creator) (files : List File)
    (k : Nat) : ((files.modify f g)[k]?).bind File.creator = (files[k]?).bind File.creator := by
  rw [getElem?_modify]
  cases files[k]? with
  | none => rfl
  | some =>
    by_cases hk : f = k
    · simp [hk, hg]
    · simp [hk]

theorem countP_creator_modify (hg : ∀ file, (g file).creator = file.creator) (files : List File)
    (n : Nat) :
    (files.modify f g).countP (fun file => file.creator = some n) = files.countP (fun file =>
      file.creator = some n) := by
  induction files generalizing f with
  | nil => cases f <;> rfl
  | cons _ _ ih =>
    cases f with
    | zero => simp [countP_cons, hg]
    | succ => simp [countP_cons, ih]

/-- The disks differ in the contents of files only. -/
structure Alike (d d' : Disk) : Prop where
  names : d'.names = d.names
  creator : ∀ k : Nat, (d'.files[k]?).bind File.creator = (d.files[k]?).bind File.creator
  created : ∀ n, d'.created n = d.created n
  length : d'.files.length = d.files.length

theorem Alike.refl (d : Disk) : d.Alike d := ⟨rfl, fun _ => rfl, fun _ => rfl, rfl⟩

theorem alike_modify (d : Disk) (f : Nat) (hg : ∀ file, (g file).creator = file.creator) :
    d.Alike { d with files := d.files.modify f g } :=
  ⟨rfl, creator_modify hg d.files, countP_creator_modify hg d.files, length_modify _ _ _⟩

theorem Alike.createdAt (h : d.Alike d') (path : String) :
    d'.createdAt path = d.createdAt path := by
  unfold Disk.createdAt
  rw [h.names]
  cases d.names path with
  | none => rfl
  | some f => exact h.creator f

theorem openTemp_eq_some (h : d.openTemp id n = some d') : d.names (tempName id) = none ∧
    d' = { files := d.files ++ [{ content := [], creator := some n }]
           names := update d.names (tempName id) (some d.files.length) } := by
  unfold openTemp at h
  split at h
  · cases h
  · rename_i hfree
    rw [Bool.not_eq_true, isSome_eq_false_iff, isNone_iff_eq_none] at hfree
    exact ⟨hfree, (some.inj h).symm⟩

theorem names_openTemp (h : d.openTemp id n = some d') (p : String) :
    d'.names p = if p = tempName id then some d.files.length else d.names p := by
  obtain ⟨-, rfl⟩ := openTemp_eq_some h
  by_cases hp : p = tempName id
  all_goals simp [hp]

theorem createdAt_openTemp (hd : d.Sound) (h : d.openTemp id n = some d') (p : String) :
    d'.createdAt p = if p = tempName id then some n else d.createdAt p := by
  obtain ⟨-, rfl⟩ := openTemp_eq_some h
  by_cases hp : p = tempName id
  · simp [createdAt, hp]
  simp only [createdAt, hp, if_false, update_of_ne hp]
  cases hf : d.names p with
  | none => rfl
  | some f => simp [getElem?_append_left (hd p f hf)]

theorem created_openTemp (h : d.openTemp id n = some d') (m : Nat) :
    d'.created m = d.created m + if n = m then 1 else 0 := by
  obtain ⟨-, rfl⟩ := openTemp_eq_some h
  simp [created, countP_append, countP_singleton]

theorem Alike.sound (h : d.Alike d') (hd : d.Sound) : d'.Sound := by
  intro path f hf
  rw [h.names] at hf
  rw [h.length]
  exact hd path f hf

theorem sound_remove (hd : d.Sound) (path : String) : (d.remove path).Sound := by
  intro p f hf
  rw [names_remove] at hf
  split at hf
  · cases hf
  · exact hd p f hf

theorem sound_rename (hd : d.Sound) (temp path : String) : (d.rename temp path).Sound := by
  intro p f hf
  rw [names_rename] at hf
  split at hf
  · cases hf
  · split at hf
    · exact hd temp f hf
    · exact hd p f hf

theorem sound_openTemp (hd : d.Sound) (h : d.openTemp id n = some d') : d'.Sound := by
  obtain ⟨-, rfl⟩ := openTemp_eq_some h
  intro p f hf
  rw [length_append, length_singleton]
  by_cases hp : p = tempName id
  · simp only [hp, update_self, some.injEq] at hf
    omega
  · simp only [update_of_ne hp] at hf
    have hlt := hd p f hf
    omega

theorem created_pos (h : d.createdAt path = some n) : 0 < d.created n := by
  obtain ⟨f, -, hf⟩ := bind_eq_some_iff.mp h
  obtain ⟨file, hfile, hcre⟩ := bind_eq_some_iff.mp hf
  exact countP_pos_iff.mpr ⟨file, mem_of_getElem? hfile, decide_eq_true hcre⟩

end Disk

namespace Job

variable {Fp : Type} {job : Job Fp} {id : TransferId} {n : Nat}

def transfer : Job Fp → Option TransferId
  | .offerFile _ _ (.inserting r) | .offerFile _ _ (.offering r) => some r.id
  | .onOffer _ id _ _ | .onAccept _ id _ _ | .onReady _ id _ _ | .onPeerEnded _ id _ _
  | .onComplete _ id | .cancel id
  | .checking id _ _ | .acceptStream _ _ id _ _ | .dial id _ | .runStream id | .send id _ _
  | .receive id _ _ => some id
  | .approval request _ _ _ => some request.transferId
  | .ending call _ _ => some call.id
  | _ => none

def unopened : Job Fp → Option Nat
  | .approval _ _ seq .asking | .approval _ _ seq .authorizing | .approval _ _ seq .opening =>
    some seq
  | _ => none

theorem takes_eq_some (h : job.takes = some id) :
    (∃ request session seq, job = .approval request session seq .discarding ∧
      request.transferId = id) ∨ ∃ call doomed toCheck, job = .ending call doomed toCheck ∧
      call.stage = .takeTemp ∧ call.id = id := by
  unfold takes at h
  split at h
  · cases h
    exact .inl ⟨_, _, _, rfl, rfl⟩
  · cases h
    exact .inr ⟨_, _, _, rfl, rfl, rfl⟩
  · cases h

variable {path : String}

theorem removes_eq_some (h : job.removes = some path) :
    (∃ request session seq, job = .approval request session seq (.removing path)) ∨
      ∃ call doomed toCheck, job = .ending call doomed toCheck ∧ call.stage = .remove path := by
  unfold removes at h
  split at h
  · cases h
    exact .inl ⟨_, _, _, rfl⟩
  · cases h
    exact .inr ⟨_, _, _, rfl, rfl⟩
  · cases h

/-- The transfer and the record whose temp file an approval has created and not recorded. -/
def unrecorded : Job Fp → Option (TransferId × Nat)
  | .approval request _ seq .generating | .approval request _ seq (.recording _) =>
    some (request.transferId, seq)
  | _ => none

theorem transfer_of_takes (h : job.takes = some id) : job.transfer = some id := by
  rcases takes_eq_some h with ⟨_, _, _, rfl, rfl⟩ | ⟨_, _, _, rfl, -, rfl⟩
  all_goals rfl

theorem unopened_eq_some (h : job.unopened = some n) :
    ∃ request session stage, job = .approval request session n stage ∧
      (stage = .asking ∨ stage = .authorizing ∨ stage = .opening) := by
  unfold unopened at h
  split at h
  · cases h
    exact ⟨_, _, _, rfl, .inl rfl⟩
  · cases h
    exact ⟨_, _, _, rfl, .inr (.inl rfl)⟩
  · cases h
    exact ⟨_, _, _, rfl, .inr (.inr rfl)⟩
  · cases h

theorem opens_eq_some (h : job.opens = some (id, n)) :
    ∃ request session, job = .approval request session n .opening ∧ request.transferId = id := by
  unfold opens at h
  split at h
  · cases h
    exact ⟨_, _, rfl, rfl⟩
  · cases h

theorem records_eq_some {challenge} (h : job.records = some (id, challenge)) :
    ∃ request session seq, job = .approval request session seq (.recording challenge) ∧
      request.transferId = id := by
  unfold records at h
  split at h
  · cases h
    exact ⟨_, _, _, rfl, rfl⟩
  · cases h

theorem stores_eq_some (h : job.stores = some (id, path)) :
    ∃ plan, job = .receive id plan (.storing path) := by
  unfold stores at h
  split at h
  · cases h
    exact ⟨_, rfl⟩
  · cases h

theorem unrecorded_eq_some (h : job.unrecorded = some (id, n)) :
    ∃ request session stage, job = .approval request session n stage ∧ request.transferId = id ∧
      (stage = .generating ∨ ∃ challenge, stage = .recording challenge) := by
  unfold unrecorded at h
  split at h
  · cases h
    exact ⟨_, _, _, rfl, rfl, .inl rfl⟩
  · cases h
    exact ⟨_, _, _, rfl, rfl, .inr ⟨_, rfl⟩⟩
  · cases h

theorem LeadsTo.approval_inv {request session seq stage}
    (h : job.LeadsTo (.approval request session seq stage)) :
    ∃ stage', job = .approval request session seq stage' := by
  cases job with
  | approval _ _ _ stage' =>
    obtain ⟨rfl, rfl, rfl⟩ := h
    exact ⟨stage', rfl⟩
  | _ => exact h.elim

theorem LeadsTo.receive_inv {plan stage} (h : job.LeadsTo (.receive id plan stage)) :
    (∃ stage', job = .receive id plan stage') ∨ job = .runStream id ∧ stage = .opening := by
  cases job with
  | receive _ _ stage' =>
    obtain ⟨rfl, rfl⟩ := h
    exact .inl ⟨stage', rfl⟩
  | runStream =>
    obtain ⟨rfl, rfl⟩ := h
    exact .inr ⟨rfl, rfl⟩
  | _ => exact h.elim

theorem LeadsTo.ending_inv {call doomed toCheck} (h : job.LeadsTo (.ending call doomed toCheck))
    (hlate : call.isFresh = false) :
    ∃ call' doomed' toCheck', job = .ending call' doomed' toCheck' := by
  cases job with
  | ending call' doomed' toCheck' => exact ⟨call', doomed', toCheck', rfl⟩
  | _ => cases hlate.symm.trans h.1

end Job

section Calls

variable {Fp : Type}

inductive Approves (s : TransferManager Fp) (request : IncomingOffer Fp) (session seq : Nat)
    (stage : ApprovalStage) (input : Input) (out : Outcome Fp) : Prop
  | asks (hst : stage = .asking ∧ out.task.job = .approval request session seq .authorizing ∨
      stage = .authorizing ∧ out.task.job = .approval request session seq .opening)
      (heff : out.effect = .nothing)
  | opens (hst : stage = .opening) (heff : out.effect = .openTemp request.transferId seq)
      (hjob : out.task.job = .approval request session seq .generating ∨
        out.task.job = .approval request session seq (.recording none))
  | draws (challenge : StreamChallenge) (hst : stage = .generating)
    (heff : out.effect = .draw challenge)
      (hjob : out.task.job = .approval request session seq (.recording (some challenge)))
  | records (challenge : Option StreamChallenge) (hst : stage = .recording challenge)
      (heff : out.effect = .setTemp request.transferId (tempName request.transferId) challenge)
      (hjob : out.task.job = .approval request session seq (.activating challenge))
  | activates (challenge : Option StreamChallenge) (hst : stage = .activating challenge)
      (heff : out.effect = .transition request.transferId .transferring none)
      (hjob : out.task.job = .approval request session seq (.accepting challenge))
  | discards (challenge : Option StreamChallenge) (hst : stage = .activating challenge)
    (heff : out.effect = .nothing)
      (hjob : out.task.job = .approval request session seq .discarding)
  | takes (path : String) (hst : stage = .discarding)
      (htemp : (s.transfers.get request.transferId).bind temp = some path)
      (heff : out.effect = .takeTemp request.transferId)
        (hjob : out.task.job = .approval request session seq (.removing path))
  | removes (path : String) (hst : stage = .removing path) (heff : out.effect = .remove path)
    (hjob : out.task.job = .done)
  | leaves (hjob : out.task.job = .done ∨ ∃ reason, out.task.job = failed request.transferId reason)
      (heff : out.effect = .nothing ∨ ∃ message, out.effect = .send session message)
      (hgen : stage = .generating → input = .generated none)
      (hrec : ∀ challenge, stage = .recording challenge →
        s.transfers.get request.transferId = none)
      (hact : ∀ challenge, stage ≠ .activating challenge)
      (hdisc : stage = .discarding → (s.transfers.get request.transferId).bind temp = none)
      (hrem : ∀ path, stage ≠ .removing path)

def ReceiveStage.file : ReceiveStage → Option Nat
  | .polling file | .reading file | .writing file _ => some file
  | _ => none

/-- What a stream has read and not written, where it has opened its file and goes on with it. -/
def ReceiveStage.pending : ReceiveStage → Option Bytes
  | .writing _ chunk => some chunk
  | .opening | .closing (some _) => none
  | _ => some []

inductive Copies (s : TransferManager Fp) (task : Task Fp) (id : TransferId) (plan : StreamPlan)
    (stage : ReceiveStage) (out : Outcome Fp) : Prop
  | opens (file : Nat) (hst : stage = .opening) (hfile : plan.temp.bind s.disk.names = some file)
      (heff : out.effect = .truncate file)
        (htask : out.task = task.goes (.receive id plan (.polling file)))
  | reads (file : Nat) (chunk : Bytes) (hst : stage = .reading file)
    (heff : out.effect = .nothing)
      (htask : out.task = { task with
        job := .receive id plan (.writing file chunk), read := task.read ++ chunk })
  | writes (file : Nat) (chunk : Bytes) (hst : stage = .writing file chunk)
    (heff : out.effect = .write file chunk)
      (htask : out.task = task.goes (.receive id plan (.polling file)))
  | passes (stage' : ReceiveStage) (htask : out.task = task.goes (.receive id plan stage'))
      (heff : out.effect = .nothing ∨ out.effect = .streamClosed id none ∨
        out.effect = .transition id .verifying none)
      (hfile : stage'.file = none ∨ stage'.file = stage.file)
      (hpend : stage'.pending = none ∨ stage'.pending = some [] ∧ stage.pending = some [] ∧
        ∀ file chunk, stage ≠ .writing file chunk)
      (hopening : stage' ≠ .opening) (hst : ∀ path, stage' ≠ .storing path)
  | promotes (temp path : String) (hst : stage = .promoting) (htemp : plan.temp = some temp)
      (hprom : s.disk.promotes temp plan.filename = some path)
        (heff : out.effect = .rename temp path)
      (htask : out.task = { task with
        job := .receive id plan (.storing path), promoted := some path })
  | stores (path : String) (tell : Option Nat) (hst : stage = .storing path)
    (heff : out.effect = .setStored id path)
      (htask : out.task = task.goes (.ending
        { id := id, next := .completed, failure := none, stage := .transition, tell := tell }
          [] []))
  | leaves (job : Job Fp) (htask : out.task = task.goes job) (hjob : job = .done ∨ ∃ reason,
    job = failed id reason)
      (heff : out.effect = .nothing ∨ out.effect = .streamClosed id none ∨
        out.effect = .transition id .verifying none)
      (hst : ∀ path, stage ≠ .storing path)

inductive Ends (s : TransferManager Fp) (call : Ending) (doomed : List (TransferId × FailureReason))
    (toCheck : List (TransferId × Fp)) (out : Outcome Fp) : Prop
  | looks (tell : Option Nat) (hst : call.stage = .lookup) (heff : out.effect = .nothing)
      (hjob : out.task.job =
        .ending { call with stage := .transition, tell := tell } doomed toCheck)
  | enters (hst : call.stage = .transition) (heff : out.effect = .transition call.id call.next
    call.failure)
      (hjob : out.task.job = .ending { call with stage := .takeTemp } doomed toCheck)
  | takes (path : String) (hst : call.stage = .takeTemp)
      (htemp : (s.transfers.get call.id).bind temp = some path)
        (heff : out.effect = .takeTemp call.id)
      (hjob : out.task.job = .ending { call with stage := .remove path } doomed toCheck)
  | keeps (hst : call.stage = .takeTemp) (htemp : (s.transfers.get call.id).bind temp = none)
      (heff : out.effect = .nothing) (hjob : out.task.job = .ending { call with stage := .tell }
        doomed toCheck)
  | removes (path : String) (hst : call.stage = .remove path)
    (heff : out.effect = .remove path)
      (hjob : out.task.job = .ending { call with stage := .tell } doomed toCheck)
  | leaves (hst : call.stage = .transition ∧ s.canTransition call.id call.next = false ∨
    call.stage = .tell)
      (hjob : out.task.job = failAll doomed toCheck)

end Calls

namespace TransferManager

variable {Fp : Type} {host : Host Fp} {s t : TransferManager Fp} {id : TransferId} {task : Task Fp}
  {plan : StreamPlan} {a : Action Fp} {i n : Nat} {input : Input} {out : Outcome Fp} {path : String}

section Calls

variable {request : IncomingOffer Fp} {session seq : Nat} {stage : ApprovalStage} {call : Ending}
  {doomed : List (TransferId × FailureReason)} {toCheck : List (TransferId × Fp)}

theorem approves_of_goes {job} (h : goes task job = some out)
    (hjob : job = .done ∨ ∃ reason, job = failed request.transferId reason)
    (hst : stage = .asking ∨ stage = .authorizing ∨ stage = .opening ∨ ∃ challenge,
      stage = .accepting challenge) : Approves s request session seq stage input out := by
  cases h
  refine .leaves hjob (.inl rfl) ?_ ?_ ?_ ?_ ?_
  all_goals rcases hst with rfl | rfl | rfl | ⟨challenge, rfl⟩ <;> nofun

theorem approval_approves (h : s.approval host task request session seq stage input = some out) :
    Approves s request session seq stage input out := by
  unfold approval at h
  split at h
  · split at h
    · cases h
      exact .asks (.inl ⟨rfl, rfl⟩) rfl
    · exact approves_of_goes h (.inr ⟨_, rfl⟩) (.inl rfl)
  · split at h
    · cases h
      exact .asks (.inr ⟨rfl, rfl⟩) rfl
    · exact approves_of_goes h (.inr ⟨_, rfl⟩) (.inr (.inl rfl))
  · split at h
    · cases h
      refine .opens rfl rfl ?_
      cases hrole : host.role with
      | acceptor => exact .inl rfl
      | dialer => exact .inr rfl
    · exact approves_of_goes h (.inr ⟨_, rfl⟩) (.inr (.inr (.inl rfl)))
  · cases h
    exact .draws _ rfl rfl rfl
  · cases h
    exact .leaves (.inr ⟨_, rfl⟩) (.inl rfl) (fun _ => rfl) (by simp) (by simp) (by simp) (by simp)
  · split at h
    · cases h
      exact .records _ rfl rfl rfl
    rename_i hnot
    cases h
    refine .leaves (.inl rfl) (.inl rfl) (by simp) ?_ (by simp) (by simp) (by simp)
    intro _ _
    simpa [SortedMap.contains] using hnot
  · split at h
    · cases h
      exact .activates _ rfl rfl rfl
    · cases h
      exact .discards _ rfl rfl rfl
  · split at h
    · rename_i path htemp
      cases h
      exact .takes path rfl htemp rfl rfl
    · rename_i htemp
      cases h
      exact .leaves (.inl rfl) (.inl rfl) (by simp) (by simp) (by simp) (fun _ => htemp) (by simp)
  · cases h
    exact .removes _ rfl rfl rfl
  · split at h
    · cases h
      exact .leaves (.inl rfl) (.inr ⟨_, rfl⟩) (by simp) (by simp) (by simp) (by simp) (by simp)
    · exact approves_of_goes h (.inr ⟨_, rfl⟩) (.inr (.inr (.inr ⟨_, rfl⟩)))
  · cases h

theorem runReceive_copies {stage} (h : s.runReceive host task id plan stage input = some out) :
    Copies s task id plan stage out := by
  unfold runReceive at h
  split at h
  case h_4 | h_5 | h_6 =>
    cases h
    exact .passes _ rfl (.inl rfl) (.inl rfl) (.inl rfl) nofun nofun
  case h_10 | h_11 | h_12 =>
    cases h
    exact .passes _ rfl (.inl rfl) (.inl rfl) (.inr ⟨rfl, rfl, nofun⟩) nofun nofun
  · split at h
    · rename_i file hfile
      cases h
      exact .opens file rfl (filter_eq_some_iff.mp hfile).1 rfl rfl
    · cases h
      exact .leaves _ rfl (.inr ⟨_, rfl⟩) (.inl rfl) nofun
  · cases h
    refine .passes _ rfl (.inl rfl) ?_ ?_ ?_ ?_
    · split
      · exact .inl rfl
      · split
        · exact .inl rfl
        · exact .inr rfl
    · split
      · exact .inr ⟨rfl, rfl, nofun⟩
      · split
        · exact .inl rfl
        · exact .inr ⟨rfl, rfl, nofun⟩
    · split
      · nofun
      · split <;> nofun
    · intro _
      split
      · nofun
      · split <;> nofun
  · split at h
    · cases h
      exact .reads _ _ rfl rfl rfl
    · cases h
  · split at h
    · cases h
      exact .writes _ _ rfl rfl rfl
    · cases h
      exact .passes _ rfl (.inl rfl) (.inl rfl) (.inl rfl) nofun nofun
  · rename_i ok
    cases h
    cases ok with
    | true => exact .passes _ rfl (.inl rfl) (.inl rfl) (.inr ⟨rfl, rfl, nofun⟩) nofun nofun
    | false => exact .passes _ rfl (.inl rfl) (.inl rfl) (.inl rfl) nofun nofun
  · split at h
    · cases h
      exact .passes _ rfl (.inl rfl) (.inl rfl) (.inl rfl) nofun nofun
    · cases h
  · rename_i failure
    cases h
    cases failure with
    | none => exact .passes _ rfl (.inr (.inl rfl)) (.inl rfl) (.inr ⟨rfl, rfl, nofun⟩) nofun nofun
    | some reason => exact .leaves _ rfl (.inr ⟨reason, rfl⟩) (.inr (.inl rfl)) nofun
  · split at h
    · cases h
      exact .passes _ rfl (.inl rfl) (.inl rfl) (.inr ⟨rfl, rfl, nofun⟩) nofun nofun
    · cases h
      exact .leaves _ rfl (.inr ⟨_, rfl⟩) (.inl rfl) nofun
  · split at h
    · cases h
      by_cases hdig : host.sha256 task.read = plan.sha256
      · rw [if_pos hdig]
        exact .passes _ rfl (.inr (.inr rfl)) (.inl rfl) (.inr ⟨rfl, rfl, nofun⟩) nofun nofun
      · rw [if_neg hdig]
        exact .leaves _ rfl (.inr ⟨_, rfl⟩) (.inr (.inr rfl)) nofun
    · cases h
      exact .leaves _ rfl (.inl rfl) (.inl rfl) nofun
  · split at h
    · rename_i temp path hfilter
      cases h
      obtain ⟨_, hfound⟩ := bind_eq_some_iff.mp (filter_eq_some_iff.mp hfilter).1
      obtain ⟨hplan, hpath⟩ := hfound
      obtain ⟨_, hprom, heq⟩ := map_eq_some_iff.mp hpath
      cases heq
      exact .promotes _ _ rfl hplan hprom rfl rfl
    · cases h
      exact .leaves _ rfl (.inr ⟨_, rfl⟩) (.inl rfl) nofun
  · cases h
    exact .stores _ _ rfl rfl rfl
  · cases h

theorem ending_ends (h : s.ending task call doomed toCheck call.stage input = some out) :
    Ends s call doomed toCheck out := by
  obtain ⟨_, _, _, stage, tell⟩ := call
  match stage, input, h with
  | .lookup, .go, h =>
    cases h
    exact .looks _ rfl rfl rfl
  | .transition, .go, h =>
    simp only [ending] at h
    split at h
    · cases h
      exact .enters rfl rfl rfl
    · rename_i hcan
      cases h
      exact .leaves (.inl ⟨rfl, Bool.not_eq_true _ ▸ hcan⟩) rfl
  | .takeTemp, .go, h =>
    simp only [ending] at h
    split at h
    · rename_i path htemp
      cases h
      exact .takes path rfl htemp rfl rfl
    · rename_i htemp
      cases h
      exact .keeps rfl htemp rfl rfl
  | .remove path, .go, h =>
    cases h
    exact .removes path rfl rfl rfl
  | .tell, .outcome ok, h =>
    cases h
    exact .leaves (.inr rfl) rfl

theorem removes_failAll (doomed : List (TransferId × FailureReason))
    (toCheck : List (TransferId × Fp)) : (failAll doomed toCheck).removes = none := by
  cases doomed with
  | cons => rfl
  | nil => cases toCheck <;> rfl

end Calls

section Moves

variable [DecidableEq Fp] {request : IncomingOffer Fp} {session seq : Nat} {stage : ApprovalStage}
  {call : Ending} {doomed : List (TransferId × FailureReason)} {toCheck : List (TransferId × Fp)}

section

variable (h : s.advance host task input = some out)
include h

theorem advance_approves (hjob : task.job = .approval request session seq stage) :
    Approves s request session seq stage input out := by
  unfold advance at h
  rw [hjob] at h
  exact approval_approves h

theorem advance_copies {stage} (hjob : task.job = .receive id plan stage) :
    Copies s task id plan stage out := by
  unfold advance at h
  rw [hjob] at h
  exact runReceive_copies h

theorem advance_ends (hjob : task.job = .ending call doomed toCheck) :
    Ends s call doomed toCheck out := by
  unfold advance at h
  rw [hjob] at h
  exact ending_ends h

theorem unopened_of_advance (hn : out.task.job.unopened = some n) :
    task.job.unopened = some n ∧ ∀ id creator, out.effect ≠ .openTemp id creator := by
  obtain ⟨_, _, _, hout, _⟩ := Job.unopened_eq_some hn
  have hlead := (advance_advanced h).leads
  rw [hout] at hlead
  obtain ⟨_, hjob⟩ := hlead.approval_inv
  rw [hjob]
  cases advance_approves h hjob with
  | asks hst heff =>
    refine ⟨?_, fun id creator heq => nomatch heff.symm.trans heq⟩
    rcases hst with ⟨rfl, -⟩ | ⟨rfl, -⟩
    all_goals rfl
  | opens _ _ hjob' => rcases hjob' with hjob' | hjob' <;> rw [hjob'] at hn <;> cases hn
  | leaves hjob' => rcases hjob' with hjob' | ⟨reason, hjob'⟩ <;> rw [hjob'] at hn <;> cases hn
  | draws _ _ _ hjob' | records _ _ _ hjob' | activates _ _ _ hjob' | discards _ _ _ hjob'
  | takes _ _ _ _ hjob' | removes _ _ _ hjob' => rw [hjob'] at hn; cases hn

theorem unrecorded_of_advance (hn : out.task.job.unrecorded = some (id, n)) :
    task.job.unrecorded = some (id, n) ∨ out.effect = .openTemp id n := by
  obtain ⟨_, _, _, hout, rfl, _⟩ := Job.unrecorded_eq_some hn
  have hlead := (advance_advanced h).leads
  rw [hout] at hlead
  obtain ⟨_, hjob⟩ := hlead.approval_inv
  rw [hjob]
  cases advance_approves h hjob with
  | opens _ heff => exact .inr heff
  | draws _ hst =>
    subst hst
    exact .inl rfl
  | asks hst => rcases hst with ⟨-, hjob'⟩ | ⟨-, hjob'⟩ <;> rw [hjob'] at hn <;> cases hn
  | leaves hjob' => rcases hjob' with hjob' | ⟨reason, hjob'⟩ <;> rw [hjob'] at hn <;> cases hn
  | records _ _ _ hjob' | activates _ _ _ hjob' | discards _ _ _ hjob' | takes _ _ _ _ hjob'
  | removes _ _ _ hjob' => rw [hjob'] at hn; cases hn

theorem removes_of_advance (hpath : out.task.job.removes = some path) :
    ∃ id, task.job.takes = some id ∧ (s.transfers.get id).bind temp = some path ∧
      out.task.job.transfer = some id := by
  have hlead := (advance_advanced h).leads
  rcases Job.removes_eq_some hpath with ⟨request, _, _, hout⟩ | ⟨_, _, _, hout, hcall⟩
  · rw [hout] at hlead
    obtain ⟨_, hjob⟩ := hlead.approval_inv
    rw [hjob]
    cases advance_approves h hjob with
    | takes _ hst htemp _ hjob' =>
      subst hst
      rw [hjob'] at hpath ⊢
      cases hpath
      exact ⟨request.transferId, rfl, htemp, rfl⟩
    | asks hst =>
      rcases hst with ⟨-, hjob'⟩ | ⟨-, hjob'⟩ <;> rw [hjob'] at hpath <;> cases hpath
    | opens _ _ hjob' => rcases hjob' with hjob' | hjob' <;> rw [hjob'] at hpath <;> cases hpath
    | leaves hjob' =>
      rcases hjob' with hjob' | ⟨reason, hjob'⟩ <;> rw [hjob'] at hpath <;> cases hpath
    | draws _ _ _ hjob' | records _ _ _ hjob' | activates _ _ _ hjob' | discards _ _ _ hjob'
    | removes _ _ _ hjob' => rw [hjob'] at hpath; cases hpath
  · rw [hout] at hlead
    obtain ⟨call', _, _, hjob⟩ := hlead.ending_inv (by rw [Ending.isFresh, hcall])
    rw [hjob]
    cases advance_ends h hjob with
    | takes _ hst htemp _ hjob' =>
      obtain ⟨id, _, _, _, _⟩ := call'
      subst hst
      rw [hjob'] at hpath ⊢
      cases hpath
      exact ⟨id, rfl, htemp, rfl⟩
    | looks _ _ _ hjob' | enters _ _ hjob' | keeps _ _ _ hjob' | removes _ _ _ hjob' =>
      rw [hjob'] at hpath; cases hpath
    | leaves _ hjob' => rw [hjob', removes_failAll] at hpath; cases hpath

theorem advance_takes (hid : task.job.takes = some id)
    (hpath : (s.transfers.get id).bind temp = some path) :
    out.task.job.removes = some path ∧ out.effect = .takeTemp id := by
  rcases Job.takes_eq_some hid with ⟨_, _, _, hjob, rfl⟩ | ⟨_, _, _, hjob, hcall, rfl⟩
  · cases advance_approves h hjob with
    | takes _ _ htemp heff hjob' =>
      rw [hjob']
      exact ⟨htemp.symm.trans hpath, heff⟩
    | leaves _ _ _ _ _ hdisc => cases (hdisc rfl).symm.trans hpath
    | asks hst => rcases hst with ⟨hst, -⟩ | ⟨hst, -⟩ <;> cases hst
    | opens hst | draws challenge hst | records challenge hst
    | activates challenge hst | discards challenge hst
    | removes _ hst => cases hst
  · cases advance_ends h hjob with
    | takes _ _ htemp heff hjob' =>
      rw [hjob']
      exact ⟨htemp.symm.trans hpath, heff⟩
    | keeps _ htemp => cases htemp.symm.trans hpath
    | looks tell hst | enters hst | removes path hst => cases hcall.symm.trans hst
    | leaves hst =>
      rcases hst with ⟨hst, -⟩ | hst
      all_goals cases hcall.symm.trans hst

theorem advance_removes (hpath : task.job.removes = some path) : out.effect = .remove path := by
  rcases Job.removes_eq_some hpath with ⟨_, _, _, hjob⟩ | ⟨_, _, _, hjob, hcall⟩
  · cases advance_approves h hjob with
    | removes _ hst heff =>
      cases hst
      exact heff
    | leaves _ _ _ _ _ _ hrem => exact absurd rfl (hrem path)
    | asks hst => rcases hst with ⟨hst, -⟩ | ⟨hst, -⟩ <;> cases hst
    | opens hst | draws challenge hst | records challenge hst
    | activates challenge hst | discards challenge hst
    | takes _ hst => cases hst
  · cases advance_ends h hjob with
    | removes _ hst heff =>
      cases hcall.symm.trans hst
      exact heff
    | looks tell hst | enters hst | takes path hst | keeps hst =>
      cases hcall.symm.trans hst
    | leaves hst =>
      rcases hst with ⟨hst, -⟩ | hst
      all_goals cases hcall.symm.trans hst

theorem takes_of_enters {next failure} (heff : out.effect = .transition id next failure)
    (hnext : next.isTerminal) : out.task.job.takes = some id := by
  obtain ⟨hent, hcan⟩ := from_of_advance h heff
  unfold Job.enters at hent
  split at hent
  case h_1 | h_2 | h_3 => cases hent; cases hnext
  · rename_i hjob
    cases hent
    cases advance_ends h hjob with
    | enters _ _ hjob' => rw [hjob']; rfl
    | looks tell hst | takes path hst | keeps hst | removes path hst => cases hst
    | leaves hst =>
      obtain ⟨-, hnot⟩ := hst.resolve_right nofun
      cases hnot.symm.trans hcan
  · cases hent

end

end Moves

section Filed

variable [DecidableEq Fp]

inductive Filed (host : Host Fp) (s : TransferManager Fp) (a : Action Fp) (t : TransferManager Fp) :
    Prop
  | same (halike : s.disk.Alike t.disk)
  | opened (i : Nat) (input : Input) (task : Task Fp) (out : Outcome Fp)
    (request : IncomingOffer Fp)
      (session seq : Nat) (hproc : Proceeds host s a i input task out)
        (hjob : task.job = .approval request session seq .opening)
      (heff : out.effect = .openTemp request.transferId seq)
        (hopen : s.disk.openTemp request.transferId seq = some t.disk)
  | removed (i : Nat) (input : Input) (task : Task Fp) (out : Outcome Fp) (path : String)
      (hproc : Proceeds host s a i input task out) (hjob : task.job.removes = some path)
        (heff : out.effect = .remove path)
      (hdisk : t.disk = s.disk.remove path)
  | renamed (i : Nat) (input : Input) (task : Task Fp) (out : Outcome Fp) (id : TransferId)
    (plan : StreamPlan)
      (temp path : String) (hproc : Proceeds host s a i input task out)
        (hjob : task.job = .receive id plan .promoting)
      (htemp : plan.temp = some temp) (hprom : s.disk.promotes temp plan.filename = some path)
      (heff : out.effect = .rename temp path) (hdisk : t.disk = s.disk.rename temp path)

theorem Stepped.filed (h : Stepped host s a t) : Filed host s a t := by
  cases h with
  | environment | starts | forgets => exact .same (.refl _)
  | @proceeds i input task out htask hadv =>
    have horig := (advance_advanced hadv).origin
    have hproc : Proceeds host s (.proceed i input) i input task out := ⟨rfl, htask, hadv⟩
    cases heff : out.effect with
    | openTemp _ creator =>
      rw [heff] at horig
      obtain ⟨request, session, hjob, rfl⟩ := Job.opens_eq_some horig.1
      obtain ⟨d, hd⟩ := isSome_iff_exists.mp horig.2
      refine .opened i input task out request session creator hproc hjob heff ?_
      rw [hd]
      exact congrArg some (congrArg (getD · s.disk) hd).symm
    | remove path =>
      rw [heff] at horig
      exact .removed i input task out path hproc horig heff rfl
    | rename temp path =>
      rw [heff] at horig
      obtain ⟨id, plan, hjob, htemp, hprom⟩ := horig
      exact .renamed i input task out id plan temp path hproc hjob htemp hprom heff rfl
    | truncate file | write file bytes => exact .same (Disk.alike_modify s.disk file (fun _ => rfl))
    | _ => exact .same (.refl _)

def finalPath (s : TransferManager Fp) : Job Fp → Option String
  | .receive _ plan .promoting => plan.temp.bind (fun temp => s.disk.promotes temp plan.filename)
  | _ => none

def Named (s : TransferManager Fp) : Action Fp → Prop
  | .proceed i _ => ∀ task ∈ s.tasks[i]?, ∀ path ∈ s.finalPath task.job, isTempName path = false
  | _ => True

instance (s : TransferManager Fp) (a : Action Fp) : Decidable (s.Named a) := by
  unfold Named
  induction a using Action.casesOn <;> infer_instance

theorem Named.ne_tempName {temp} (h : s.Named a) (hproc : Proceeds host s a i input task out)
    (hjob : task.job = .receive id plan .promoting) (htemp : plan.temp = some temp)
    (hprom : s.disk.promotes temp plan.filename = some path) : isTempName path = false := by
  obtain ⟨rfl, hslot, -⟩ := hproc
  refine h task hslot path ?_
  rw [hjob, finalPath, htemp]
  exact hprom

end Filed

end TransferManager

end OmniBridge.Desktop.Files
