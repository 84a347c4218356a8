import OmniBridge.Channel
import OmniBridge.DesktopFiles

/-! Asking a human about an incoming file. Providers attach to one seam and displace
each other; a question waits for the reply whose sender is in the pending map, and the
session of a provider decides what it was shown and detaches on its way out. -/

namespace OmniBridge.Desktop.Files

open List Option

def PROVIDER_QUEUE : Nat := 32

structure Pending (Fp : Type) where
  peer : Fp
  reply : Nat

inductive QuestionStage where
  | waiting
  | replied (accept : Bool)
  | returned (accept : Bool)
  | dropped
deriving DecidableEq

structure Question (Fp : Type) where
  offer : IncomingOffer Fp
  asked : Option Nat
  stage : QuestionStage

/-- Where `run_file_approval_session` is; `writing` is a write to its client, and `failed` the
return with its error. -/
inductive ProviderStage (Fp : Type) where
  | writing
  | selecting
  | checking (offer : IncomingOffer Fp)
  | leaving
  | finishing
  | returned
  | failed

structure Provider (Fp : Type) where
  epoch : UInt64
  offers : Channel (IncomingOffer Fp) PROVIDER_QUEUE := .empty
  shown : List TransferId := []
  stage : ProviderStage Fp := .writing

structure Answer where
  question : Nat
  accept : Bool
  provider : Nat
  attached : Option Nat
deriving DecidableEq

structure FileApproval (Fp : Type) where
  unattended : Bool
  provider : Option Nat := none
  epoch : UInt64 := 0
  pending : SortedMap TransferId (Pending Fp) := .empty
  questions : List (Question Fp) := []
  providers : List (Provider Fp) := []
  answers : List Answer := []

/-- What a provider's session waits for. `ignored` is a line that is no decision, a progress
event or a lagged one; `closed` is the end of its client or of the transfer manager. -/
inductive ProviderInput where
  | written (ok : Bool)
  | offer
  | live (live : Bool)
  | decision (transfer : Option TransferId) (accept : Bool)
  | settled (id : TransferId)
  | ignored
  | closed
  | detach

inductive ApprovalAction (Fp : Type) where
  | watch
  | confirmReceive (offer : IncomingOffer Fp)
  | resume (question : Nat)
  | timeout (question : Nat)
  | session (index : Nat) (input : ProviderInput)

variable {Fp : Type}

/-- The sender of a question is used once; a future that is gone does not hear it. -/
def Question.hear (accept : Bool) (q : Question Fp) : Question Fp :=
  match q.stage with
  | .waiting => { q with stage := .replied accept }
  | _ => q

def Provider.trySend (offer : IncomingOffer Fp) (p : Provider Fp) : Option (Provider Fp) :=
  match p.stage with
  | .returned | .failed => none
  | _ => (p.offers.send offer).map (fun offers => { p with offers := offers })

def Provider.told (p : Provider Fp) : List TransferId :=
  p.offers.items.map IncomingOffer.transferId ++ p.shown ++
    match p.stage with
    | .checking offer => [offer.transferId]
    | _ => []

def Provider.hasDetached (p : Provider Fp) : Bool :=
  match p.stage with
  | .finishing | .returned => true
  | _ => false

def Provider.hasEnded (p : Provider Fp) : Bool :=
  match p.stage with
  | .finishing | .returned | .failed => true
  | _ => false

namespace FileApproval

def attach (s : FileApproval Fp) : FileApproval Fp :=
  { s with epoch := s.epoch + 1, provider := some s.providers.length, pending := .empty
           providers := s.providers ++ [{ epoch := s.epoch + 1 }] }

def detach (epoch : UInt64) (s : FileApproval Fp) : FileApproval Fp :=
  if s.epoch ≠ epoch then s else { s with provider := none, pending := .empty }

/-- `decide`, called by the session of the `caller`. -/
def decide (caller : Nat) (transfer : TransferId) (accept : Bool) (s : FileApproval Fp) :
    FileApproval Fp :=
  match s.pending.get transfer with
  | none => s
  | some p =>
    { s with pending := s.pending.erase transfer
             questions := s.questions.modify p.reply (Question.hear accept)
             answers := s.answers ++ [⟨p.reply, accept, caller, s.provider⟩] }

def withdraw (transfer : TransferId) (s : FileApproval Fp) : FileApproval Fp :=
  { s with pending := s.pending.erase transfer }

def setProvider (i : Nat) (p : Provider Fp) (s : FileApproval Fp) : FileApproval Fp :=
  { s with providers := s.providers.modify i (fun _ => p) }

def ask (offer : IncomingOffer Fp) (asked : Option Nat) (stage : QuestionStage)
    (s : FileApproval Fp) : FileApproval Fp :=
  { s with questions := s.questions ++ [⟨offer, asked, stage⟩] }

open Provider

def confirmReceive (offer : IncomingOffer Fp) (s : FileApproval Fp) : FileApproval Fp :=
  if s.unattended then s.ask offer none (.returned true)
  else
    match s.provider with
    | none => s.ask offer none (.returned false)
    | some i =>
      match (s.providers[i]?).bind (trySend offer) with
      | none => s.ask offer none (.returned false)
      | some p =>
        ask offer (some i) .waiting
          { s.setProvider i p with
            pending := s.pending.insert offer.transferId ⟨offer.peer, s.questions.length⟩ }

/-- The future of a question ends, and its `PendingGuard` is dropped. -/
def leave (k : Nat) (q : Question Fp) (stage : QuestionStage) (s : FileApproval Fp) :
    FileApproval Fp :=
  withdraw q.offer.transferId { s with
    questions := s.questions.modify k ({ · with stage := stage }) }

/-- A question goes on when it has its reply, or when the sender of its reply is dropped. -/
def resume (k : Nat) (q : Question Fp) (s : FileApproval Fp) : Option (FileApproval Fp) :=
  match q.stage with
  | .replied accept => some (s.leave k q (.returned accept))
  | .waiting =>
    if (s.pending.get q.offer.transferId).any (·.reply = k) then none
    else some (s.leave k q (.returned false))
  | _ => none

def timeout (k : Nat) (q : Question Fp) (s : FileApproval Fp) : Option (FileApproval Fp) :=
  match q.stage with
  | .replied _ | .waiting => some (s.leave k q .dropped)
  | _ => none

def runFileApprovalSession (i : Nat) (p : Provider Fp) (input : ProviderInput)
    (s : FileApproval Fp) : Option (FileApproval Fp) :=
  match p.stage, input with
  | .writing, .written ok =>
    some (s.setProvider i { p with stage := if ok then .selecting else .failed })
  | .selecting, .offer =>
    match p.offers.recv with
    | some (offer, rest) =>
      some (s.setProvider i { p with offers := rest, stage := .checking offer })
    | none =>
      if s.provider = some i then none else some (s.setProvider i { p with stage := .leaving })
  | .checking offer, .live live =>
    if live then some (s.setProvider i { p with
      shown := offer.transferId :: p.shown, stage := .writing })
    else some ((s.withdraw offer.transferId).setProvider i { p with stage := .selecting })
  | .selecting, .decision transfer accept =>
    match transfer.filter (· ∈ p.shown) with
    | none => some s
    | some id =>
      some ((s.decide i id accept).setProvider i { p with shown := p.shown.filter (· ≠ id) })
  | .selecting, .settled id =>
    if id ∈ p.shown then
      some ((s.withdraw id).setProvider i { p with
        shown := p.shown.filter (· ≠ id), stage := .writing })
    else some s
  | .selecting, .ignored => some s
  | .selecting, .closed => some (s.setProvider i { p with stage := .leaving })
  | .leaving, .detach => some ((s.detach p.epoch).setProvider i { p with stage := .finishing })
  | .finishing, .written _ => some (s.setProvider i { p with stage := .returned })
  | _, _ => none

def step (s : FileApproval Fp) : ApprovalAction Fp → Option (FileApproval Fp)
  | .watch => some s.attach
  | .confirmReceive offer => some (s.confirmReceive offer)
  | .resume k => (s.questions[k]?).bind (s.resume k)
  | .timeout k => (s.questions[k]?).bind (s.timeout k)
  | .session i input => (s.providers[i]?).bind (fun p => s.runFileApprovalSession i p input)

def AskedOnce (s : FileApproval Fp) : Prop := (s.questions.map (·.offer.transferId)).Nodup

/-- The provider of the seam is the last to attach, what is pending was put to it, and a question
that was accepted has the answer of the provider that was attached when it was asked. -/
structure Sound (s : FileApproval Fp) : Prop where
  epoch : s.epoch = UInt64.ofNat s.providers.length
  epochs : ∀ (i : Nat) p, s.providers[i]? = some p → p.epoch = UInt64.ofNat (i + 1)
  last : ∀ i ∈ s.provider, i + 1 = s.providers.length
  pending : ∀ id p, s.pending.get id = some p → ∃ q, s.questions[p.reply]? = some q ∧
    q.offer.transferId = id ∧ q.stage = .waiting ∧ q.asked = s.provider ∧ s.provider ≠ none
  told : ∀ (i : Nat) p, s.providers[i]? = some p → ∀ id ∈ p.told,
    ∃ (k : Nat) (q : Question Fp), s.questions[k]? = some q ∧
    q.offer.transferId = id ∧ q.asked = some i
  heard : ∀ a ∈ s.answers, ∃ q, s.questions[a.question]? = some q ∧ q.stage ≠ .waiting
  once : (s.answers.map Answer.question).Nodup
  accepted : ∀ (k : Nat) q, s.questions[k]? = some q → q.stage = .replied true ∨
    q.stage = .returned true → s.unattended ∨ ∃ a ∈ s.answers, a.question = k ∧ a.accept ∧
    a.attached = q.asked ∧ q.asked ≠ none
  own : s.AskedOnce → ∀ a ∈ s.answers, a.attached = some a.provider
  left : ∀ (i : Nat) p, s.providers[i]? = some p → p.hasDetached →
    s.provider ≠ some i

section Sound

variable {s t : FileApproval Fp} {i k : Nat} {p p' : Provider Fp} {q : Question Fp}
  {id : TransferId}

theorem sound_start (unattended) : ({ unattended := unattended } : FileApproval Fp).Sound where
  epoch := rfl
  epochs := nofun
  last := nofun
  pending := nofun
  told := nofun
  heard := nofun
  once := nodup_nil
  accepted := nofun
  own := nofun
  left := nofun

theorem Sound.withdraw (h : s.Sound) (id) : (s.withdraw id).Sound :=
  { h with
    pending := by
      intro id' p hp
      rw [FileApproval.withdraw, SortedMap.get_erase] at hp
      split at hp
      · cases hp
      · exact h.pending id' p hp }

theorem getElem?_setProvider {j r} (h : (s.setProvider i p').providers[j]? = some r) :
    j = i ∧ r = p' ∨ s.providers[j]? = some r := by
  obtain ⟨_, hr', rfl⟩ := getElem?_modify_eq_some h
  split
  · next hij => exact .inl ⟨hij.symm, rfl⟩
  · exact .inr hr'

theorem Sound.setProvider (h : s.Sound) (hi : s.providers[i]? = some p)
    (hepoch : p'.epoch = p.epoch) (htold : ∀ id ∈ p'.told, id ∈ p.told)
    (hleft : p'.hasDetached → s.provider ≠ some i) : (s.setProvider i p').Sound := by
  have hlen : (s.setProvider i p').providers.length = s.providers.length := length_modify _ _ _
  refine { h with epoch := ?_, epochs := ?_, last := ?_, told := ?_, left := ?_ }
  · exact h.epoch.trans (congrArg UInt64.ofNat hlen.symm)
  · intro j r hr
    rcases getElem?_setProvider hr with ⟨rfl, rfl⟩ | hr
    · exact hepoch.trans (h.epochs j p hi)
    · exact h.epochs j r hr
  · exact fun j hj => (h.last j hj).trans hlen.symm
  · intro j r hr id hid
    rcases getElem?_setProvider hr with ⟨rfl, rfl⟩ | hr
    · exact h.told j p hi id (htold id hid)
    · exact h.told j r hr id hid
  · intro j r hr hover
    rcases getElem?_setProvider hr with ⟨rfl, rfl⟩ | hr
    · exact hleft hover
    · exact h.left j r hr hover

theorem Sound.attach (h : s.Sound) : s.attach.Sound := by
  have hnext : s.epoch + 1 = UInt64.ofNat (s.providers.length + 1) := by
    rw [h.epoch, UInt64.ofNat_add]
    rfl
  refine { h with epoch := ?_, epochs := ?_, last := ?_, pending := nofun, told := ?_, left := ?_ }
  · simpa [FileApproval.attach] using hnext
  · exact forall_getElem?_concat h.epochs hnext
  · simp [FileApproval.attach]
  · exact forall_getElem?_concat h.told nofun
  · intro j r hr hover hj
    rcases getElem?_concat_eq_some hr with hr | ⟨-, rfl⟩
    · cases hj
      exact absurd (List.getElem?_eq_some_iff.mp hr).1 (Nat.lt_irrefl _)
    · cases hover

theorem Sound.detach (h : s.Sound) (epoch : UInt64) : (s.detach epoch).Sound := by
  unfold FileApproval.detach
  split
  · exact h
  · exact { h with last := nofun, pending := nofun, left := nofun }

variable {f : Question Fp → Question Fp}

theorem map_modify_questions (k) (hf : ∀ q, (f q).offer = q.offer) (qs : List (Question Fp)) :
    (qs.modify k f).map (·.offer.transferId) = qs.map (·.offer.transferId) := by
  refine ext_getElem? (fun j => ?_)
  rw [getElem?_map, getElem?_map, getElem?_modify]
  cases qs[j]? with
  | none => rfl
  | some =>
    by_cases hkj : k = j
    · simp [hkj, hf]
    · simp [hkj]

theorem Sound.modify (h : s.Sound) (hq : s.questions[k]? = some q)
    {answers} (hf : ∀ q, (f q).offer = q.offer ∧ (f q).asked = q.asked)
      (hst : (f q).stage ≠ .waiting)
    (hheard : ∀ a ∈ answers, a ∈ s.answers ∨ a.question = k) (hmore : ∀ a ∈ s.answers, a ∈ answers)
    (honce : (answers.map Answer.question).Nodup)
    (hacc : (f q).stage = .replied true ∨ (f q).stage = .returned true → s.unattended ∨
      ∃ a ∈ answers, a.question = k ∧ a.accept ∧ a.attached = q.asked ∧ q.asked ≠ none)
    (hown : s.AskedOnce → ∀ a ∈ answers, a.attached = some a.provider) :
    ({ s with pending := s.pending.erase q.offer.transferId, questions := s.questions.modify k f,
              answers := answers } : FileApproval Fp).Sound := by
  refine { h with pending := ?_, told := ?_, heard := ?_, once := honce, accepted := ?_, own := ?_ }
  · intro id p hp
    rw [SortedMap.get_erase] at hp
    split at hp
    · cases hp
    · next hne =>
      obtain ⟨q', hq', hid, hrest⟩ := h.pending id p hp
      have hoth : k ≠ p.reply := by
        rintro rfl
        obtain rfl := mem_unique hq hq'
        exact hne hid.symm
      refine ⟨q', ?_, hid, hrest⟩
      rw [getElem?_modify_of_eq_some hq', if_neg hoth]
  · intro i p hi id hid
    obtain ⟨k', q', hq', hofr, hasked⟩ := h.told i p hi id hid
    refine ⟨k', _, getElem?_modify_of_eq_some hq' k f, ?_⟩
    split
    · rw [(hf q').1, (hf q').2]
      exact ⟨hofr, hasked⟩
    · exact ⟨hofr, hasked⟩
  · intro a ha
    by_cases hk : k = a.question
    · subst hk
      exact ⟨f q, getElem?_modify_self hq f, hst⟩
    · obtain ⟨q', hq', hheard'⟩ := h.heard a ((hheard a ha).resolve_right (Ne.symm hk))
      refine ⟨q', ?_, hheard'⟩
      rw [getElem?_modify_of_eq_some hq', if_neg hk]
  · intro j r hr hyes
    obtain ⟨r', hr', rfl⟩ := getElem?_modify_eq_some hr
    split at hyes
    · next hkj =>
      subst hkj
      obtain rfl := mem_unique hq hr'
      rw [if_pos rfl, (hf q).2]
      exact hacc hyes
    · next hkj =>
      rw [if_neg hkj]
      refine (h.accepted j r' hr' hyes).imp_right ?_
      rintro ⟨a, ha, hrest⟩
      exact ⟨a, hmore a ha, hrest⟩
  · intro hasked
    refine hown ?_
    rw [AskedOnce, map_modify_questions k (fun q => (hf q).1)] at hasked
    exact hasked

theorem Sound.leave (h : s.Sound) (hq : s.questions[k]? = some q) {stage}
    (hst : stage = .dropped ∨ ∃ accept, stage = .returned accept ∧
      (accept = true → q.stage = .replied true)) : (s.leave k q stage).Sound := by
  refine h.modify hq (f := fun q => { q with stage := stage })
    (fun _ => ⟨rfl, rfl⟩) ?_ (fun a ha => .inl ha)
    (fun a ha => ha) h.once ?_ h.own
  · rcases hst with rfl | ⟨_, rfl, -⟩
    · nofun
    · nofun
  · rintro (hyes | hyes)
    · rcases hst with rfl | ⟨_, rfl, -⟩
      · cases hyes
      · cases hyes
    rcases hst with rfl | ⟨_, rfl, hrepl⟩
    · cases hyes
    · cases hyes
      exact h.accepted k q hq (.inl (hrepl rfl))

theorem Sound.decide (h : s.Sound) (i) (accept)
    (hown : s.AskedOnce → ∀ p, s.pending.get id = some p → s.provider = some i) :
    (s.decide i id accept).Sound := by
  unfold FileApproval.decide
  split
  · exact h
  · next p hp =>
    obtain ⟨q, hq, rfl, hwait, hasked, hatt⟩ := h.pending id p hp
    have hhear : (q.hear accept).stage = .replied accept := by rw [Question.hear, hwait]
    refine h.modify hq ?_ ?_ ?_ (fun a ha => mem_append_left _ ha) ?_ ?_ ?_
    · intro q
      unfold Question.hear
      split <;> exact ⟨rfl, rfl⟩
    · rw [hhear]
      nofun
    · intro a ha
      refine (mem_append.mp ha).imp_right (fun ha => ?_)
      rw [mem_singleton.mp ha]
    · rw [map_append, nodup_append]
      refine ⟨h.once, nodup_singleton _, ?_⟩
      rintro k hk _ hnew rfl
      obtain rfl := mem_singleton.mp hnew
      obtain ⟨a, ha, haq⟩ := mem_map.mp hk
      obtain ⟨_, hq', hheard⟩ := h.heard a ha
      rw [haq] at hq'
      obtain rfl := mem_unique hq hq'
      exact hheard hwait
    · rw [hhear]
      rintro (hyes | hyes)
      · cases hyes
        exact .inr ⟨_, mem_append_right _ (mem_singleton_self _), rfl, rfl, hasked.symm,
          hasked ▸ hatt⟩
      · cases hyes
    · exact fun honce => forall_mem_concat (h.own honce) (hown honce p hp)

theorem Sound.ask (h : s.Sound) (offer) {stage} (asked : Option Nat)
    (hst : ∃ accept, stage = .returned accept ∧ (accept = true → s.unattended = true) ∨
      stage = .waiting) : (s.ask offer asked stage).Sound := by
  refine { h with pending := ?_, told := ?_, heard := ?_, accepted := ?_, own := ?_ }
  · intro id p hp
    obtain ⟨q, hq, hrest⟩ := h.pending id p hp
    exact ⟨q, getElem?_concat_of_eq_some hq _, hrest⟩
  · intro i p hi id hid
    obtain ⟨k, q, hq, hrest⟩ := h.told i p hi id hid
    exact ⟨k, q, getElem?_concat_of_eq_some hq _, hrest⟩
  · intro a ha
    obtain ⟨q, hq, hheard⟩ := h.heard a ha
    exact ⟨q, getElem?_concat_of_eq_some hq _, hheard⟩
  · intro k q hq hyes
    rcases getElem?_concat_eq_some hq with hq | ⟨rfl, rfl⟩
    · exact h.accepted k q hq hyes
    obtain ⟨_, ⟨rfl, hun⟩ | rfl⟩ := hst
    · rcases hyes with hyes | hyes
      · cases hyes
      · cases hyes
        exact .inl (hun rfl)
    · rcases hyes with hyes | hyes <;> cases hyes
  · intro honce
    rw [AskedOnce, FileApproval.ask, map_append] at honce
    exact h.own (List.Nodup.of_append_left honce)

theorem told_trySend {offer} (h : p.trySend offer = some p') :
    p'.epoch = p.epoch ∧ p'.hasDetached = p.hasDetached ∧ ∀ id ∈ p'.told, id = offer.transferId ∨
      id ∈ p.told := by
  have hsent : (p.offers.send offer).map (fun offers => { p with offers := offers }) = some p' := by
    unfold trySend at h
    split at h
    · cases h
    · cases h
    · exact h
  obtain ⟨_, hoff, rfl⟩ := map_eq_some_iff.mp hsent
  refine ⟨rfl, rfl, ?_⟩
  intro _ hid
  simp only [told, Channel.send_eq_some hoff, map_append, map_singleton, mem_append,
    mem_singleton] at hid ⊢
  tauto

theorem Sound.confirmReceive (h : s.Sound) (offer) : (s.confirmReceive offer).Sound := by
  unfold FileApproval.confirmReceive
  split
  · next hun => exact h.ask offer none ⟨true, .inl ⟨rfl, fun _ => hun⟩⟩
  split
  · exact h.ask offer none ⟨false, .inl ⟨rfl, nofun⟩⟩
  · next i hi =>
    split
    · exact h.ask offer none ⟨false, .inl ⟨rfl, nofun⟩⟩
    · next hp' =>
      obtain ⟨p, hp, hsent⟩ := bind_eq_some_iff.mp hp'
      obtain ⟨hepoch, hst, htold⟩ := told_trySend hsent
      have hask : (s.ask offer (some i) .waiting).Sound := h.ask offer (some i) ⟨true, .inr rfl⟩
      have hnew : (s.questions ++ [⟨offer, some i, .waiting⟩])[s.questions.length]? = some ⟨offer,
          some i, .waiting⟩ := by
        simp
      -- The provider is told of the new question, and the entry of the new question is put in.
      refine { hask with
        epoch := ?_, epochs := ?_, last := ?_, pending := ?_, told := ?_, left := ?_ }
      · simpa [FileApproval.ask, FileApproval.setProvider] using h.epoch
      · intro j r hr
        rcases getElem?_setProvider hr with ⟨rfl, rfl⟩ | hr
        · exact hepoch.trans (h.epochs j p hp)
        · exact h.epochs j r hr
      · simpa [FileApproval.ask, FileApproval.setProvider] using h.last
      · intro id e he
        change (s.pending.insert offer.transferId ⟨offer.peer, s.questions.length⟩).get id =
          some e at he
        rw [SortedMap.get_insert] at he
        split at he
        · next hid =>
          cases he
          exact ⟨_, hnew, hid.symm, rfl, hi.symm, ne_none_iff_exists'.mpr ⟨i, hi⟩⟩
        · exact hask.pending id e he
      · intro j r hr id hid
        rcases getElem?_setProvider hr with ⟨rfl, rfl⟩ | hr
        · rcases htold id hid with rfl | hid
          · exact ⟨_, _, hnew, rfl, rfl⟩
          · exact hask.told j p hp id hid
        · exact hask.told j r hr id hid
      · intro j r hr hover
        rcases getElem?_setProvider hr with ⟨rfl, rfl⟩ | hr
        · exact h.left j p hp (hst.symm.trans hover)
        · exact h.left j r hr hover

theorem Sound.provider_of_shown (h : s.Sound) (hi : s.providers[i]? = some p) (hid : id ∈ p.shown)
    (honce : s.AskedOnce) {e} (he : s.pending.get id = some e) : s.provider = some i := by
  obtain ⟨q, hq, rfl, -, hasked, -⟩ := h.pending id e he
  obtain ⟨k, _, hq', hofr, hasked'⟩ :=
    h.told i p hi q.offer.transferId (by simp [Provider.told, hid])
  have hlt : k < (s.questions.map (·.offer.transferId)).length := by
    rw [length_map]
    exact (List.getElem?_eq_some_iff.mp hq').1
  have hsame : k = e.reply := by
    refine (getElem?_inj hlt honce).mp ?_
    rw [getElem?_map, getElem?_map, hq, hq', map_some, map_some, hofr]
  subst hsame
  obtain rfl := mem_unique hq hq'
  exact hasked.symm.trans hasked'

theorem told_of_stage {stage shown} (hshown : ∀ id ∈ shown, id ∈ p.shown)
    (hst : ∀ offer, stage ≠ .checking offer) :
    ∀ id ∈ ({ p with shown := shown, stage := stage } : Provider Fp).told, id ∈ p.told := by
  intro id hid
  unfold told at hid ⊢
  dsimp only at hid
  split at hid
  · exact absurd rfl (hst _)
  · simp only [append_nil, mem_append] at hid ⊢
    exact .inl (hid.imp_right (hshown id))

theorem Sound.runFileApprovalSession (h : s.Sound) (hi : s.providers[i]? = some p) {input}
    (hstep : s.runFileApprovalSession i p input = some t) : t.Sound := by
  have hless : ∀ id, ∀ id' ∈ p.shown.filter (· ≠ id), id' ∈ p.shown := fun id id' hid' =>
    mem_of_mem_filter hid'
  have hall : ∀ id ∈ p.shown, id ∈ p.shown := fun _ hid => hid
  unfold FileApproval.runFileApprovalSession at hstep
  split at hstep
  · next ok _ =>
    cases hstep
    cases ok with
    | false | true => exact h.setProvider hi rfl (told_of_stage hall nofun) nofun
  · split at hstep
    · next hrecv =>
      cases hstep
      refine h.setProvider hi rfl ?_ nofun
      intro _ hid
      simp only [Provider.told, Channel.recv_eq_some hrecv, map_cons, mem_append, mem_cons] at hid ⊢
      tauto
    · split at hstep
      · cases hstep
      · cases hstep
        exact h.setProvider hi rfl (told_of_stage hall nofun) nofun
  · next offer _ hst =>
    split at hstep
    · cases hstep
      refine h.setProvider hi rfl ?_ nofun
      intro _ hid
      simp only [Provider.told, hst, mem_append, mem_cons, not_mem_nil, or_false] at hid ⊢
      tauto
    · cases hstep
      exact (h.withdraw offer.transferId).setProvider hi rfl (told_of_stage hall nofun) nofun
  · next accept hst =>
    split at hstep
    · cases hstep
      exact h
    · next id hid =>
      cases hstep
      obtain ⟨-, hshown⟩ := filter_eq_some_iff.mp hid
      have hdecide := h.decide i accept (fun honce e =>
        h.provider_of_shown hi (of_decide_eq_true hshown) honce)
      have hsame : (s.decide i id accept).providers = s.providers := by
        unfold FileApproval.decide
        split <;> rfl
      have hi' : (s.decide i id accept).providers[i]? = some p := hsame.symm ▸ hi
      refine hdecide.setProvider hi' rfl (told_of_stage (hless id) ?_) ?_
      · rw [hst]
        nofun
      · simp [Provider.hasDetached, hst]
  · next id _ =>
    split at hstep
    · cases hstep
      exact (h.withdraw id).setProvider hi rfl (told_of_stage (hless id) nofun) nofun
    · cases hstep
      exact h
  · cases hstep
    exact h
  · cases hstep
    exact h.setProvider hi rfl (told_of_stage hall nofun) nofun
  · cases hstep
    -- The provider of the seam has its epoch, so it is not the provider any more.
    have hprov : (s.detach p.epoch).providers = s.providers ∧
        (s.detach p.epoch).provider ≠ some i := by
      unfold FileApproval.detach
      split
      · next hne =>
        refine ⟨rfl, fun hprov => hne ?_⟩
        rw [h.epoch, h.epochs i p hi, h.last i hprov]
      · exact ⟨rfl, nofun⟩
    have hi' : (s.detach p.epoch).providers[i]? = some p := hprov.1.symm ▸ hi
    exact (h.detach p.epoch).setProvider hi' rfl (told_of_stage hall nofun) (fun _ => hprov.2)
  · next hst =>
    cases hstep
    refine h.setProvider hi rfl (told_of_stage hall nofun) (fun _ => h.left i p hi ?_)
    simp [Provider.hasDetached, hst]
  · cases hstep

open FileApproval

theorem step_sound {a} (h : s.Sound) (hstep : s.step a = some t) : t.Sound := by
  cases a with
  | watch =>
    cases hstep
    exact h.attach
  | confirmReceive offer =>
    cases hstep
    exact h.confirmReceive offer
  | resume =>
    obtain ⟨q, hq, hstep⟩ := bind_eq_some_iff.mp hstep
    unfold resume at hstep
    split at hstep
    · next accept hrepl =>
      cases hstep
      refine h.leave hq (.inr ⟨accept, rfl, ?_⟩)
      rintro rfl
      exact hrepl
    · split at hstep
      · cases hstep
      · cases hstep
        exact h.leave hq (.inr ⟨false, rfl, nofun⟩)
    · cases hstep
  | timeout =>
    obtain ⟨q, hq, hstep⟩ := bind_eq_some_iff.mp hstep
    unfold timeout at hstep
    split at hstep
    · cases hstep
      exact h.leave hq (.inl rfl)
    · cases hstep
      exact h.leave hq (.inl rfl)
    · cases hstep
  | session =>
    obtain ⟨p, hi, hstep⟩ := bind_eq_some_iff.mp hstep
    exact h.runFileApprovalSession hi hstep

theorem run_sound {unattended as} (hrun : run step { unattended := unattended } as = some t) :
    t.Sound :=
  run_preserves step (fun _ _ _ hstep h => step_sound h hstep) hrun (sound_start unattended)

/-- Every transfer is asked about once: then an accepted question was accepted by the provider it
was put to, while that provider was attached. No question has two answers, and a provider that
was displaced detaches without effect. -/
theorem approval_given_by_provider {unattended : Bool} {as : List (ApprovalAction Fp)}
    (hrun : run step { unattended := unattended } as = some t) (honce : t.AskedOnce)
    (hfew : t.providers.length < 2 ^ 64) :
    (∀ (k : Nat) q, t.questions[k]? = some q → q.stage = .returned true → t.unattended ∨
      ∃ i, q.asked = some i ∧ ⟨k, true, i, some i⟩ ∈ t.answers) ∧
    (t.answers.map Answer.question).Nodup ∧
    ∀ i j u, t.provider = some j → i ≠ j → t.step (.session i .detach) = some u →
      u.provider = t.provider ∧ u.epoch = t.epoch ∧ u.pending = t.pending ∧
      u.questions = t.questions ∧ u.providers[j]? = t.providers[j]? := by
  have h := run_sound hrun
  refine ⟨?_, h.once, ?_⟩
  · intro k q hq hyes
    refine (h.accepted k q hq (.inr hyes)).imp_right ?_
    rintro ⟨⟨_, _, i, attached⟩, ha, rfl, rfl, hatt, -⟩
    have hown : attached = some i := h.own honce _ ha
    subst hown
    exact ⟨i, hatt.symm, ha⟩
  · intro i j u hj hij hstep
    obtain ⟨p, hi, hstep⟩ := bind_eq_some_iff.mp hstep
    have hlast := h.last j hj
    have hlt := (List.getElem?_eq_some_iff.mp hi).1
    have hepoch : t.epoch ≠ p.epoch := by
      rw [h.epoch, h.epochs i p hi]
      intro heq
      have hnat := congrArg UInt64.toNat heq
      rw [UInt64.toNat_ofNat', UInt64.toNat_ofNat', Nat.mod_eq_of_lt hfew,
        Nat.mod_eq_of_lt (by omega)] at hnat
      omega
    have hsame : t.detach p.epoch = t := if_pos hepoch
    cases hst : p.stage with
    | leaving =>
      simp only [runFileApprovalSession, hst, hsame, some.injEq] at hstep
      subst hstep
      refine ⟨rfl, rfl, rfl, rfl, ?_⟩
      simp [setProvider, hij]
    | _ => simp [runFileApprovalSession, hst] at hstep

end Sound

def sampleQuestion : IncomingOffer Nat := ⟨⟨replicate 16 1, rfl⟩, 7, "a.txt", 3, "text/plain"⟩

def showsQuestion : List (ApprovalAction Nat) :=
  [.watch, .session 0 (.written true), .confirmReceive sampleQuestion, .session 0 .offer,
    .session 0 (.live true), .session 0 (.written true)]

theorem approval_given_by_provider_accepts :
    ∃ (t : FileApproval Nat) (q : Question Nat),
      run step { unattended := false }
      (showsQuestion ++ [.session 0 (.decision (some sampleQuestion.transferId) true), .resume 0]) =
      some t ∧ t.questions[0]? = some q ∧ ∃ i, q.asked = some i ∧
      ⟨0, true, i, some i⟩ ∈ t.answers := by
  refine exists_some_imp₂ (P := fun t q => q.stage = .returned true ∧ t.unattended = false ∧
    t.providers.length = 1 ∧ (t.questions.map (·.offer.transferId)).Nodup)
    (exists_of_any₂ (by decide +kernel)) ?_
  intro t q hrun hq ⟨hyes, hattend, hone, honce⟩
  refine ((approval_given_by_provider hrun honce (by omega)).1 0 q hq hyes).resolve_left ?_
  rw [hattend]
  nofun

/-- The transfer is asked about again after the first provider was displaced, which decides it
for the second. -/
theorem displaced_provider_decides :
    ∃ t, run step { unattended := false } (showsQuestion ++ [.watch, .confirmReceive sampleQuestion,
      .session 0 (.decision (some sampleQuestion.transferId) true), .resume 1]) = some t ∧
      t.unattended = false ∧ t.questions[1]?.map (fun q => (q.asked, q.stage)) = some (some 1,
      .returned true) ∧ t.answers = [⟨1, true, 0, some 1⟩] :=
  exists_of_any (by decide +kernel)

section Ended

variable {s t : FileApproval Fp} {i k : Nat} {p : Provider Fp} {q : Question Fp}

/-- No write of the session to its client fails before the session has detached. -/
def WritesUntilDetach (i : Nat) (s : FileApproval Fp) : ApprovalAction Fp → Prop
  | .session j (.written ok) =>
    j = i → ok ∨ (s.providers[i]?).any Provider.hasDetached
  | _ => True

instance (i : Nat) (s : FileApproval Fp) (a : ApprovalAction Fp) :
    Decidable (s.WritesUntilDetach i a) := by
  unfold WritesUntilDetach
  split <;> infer_instance

def Unfailed (i : Nat) (s : FileApproval Fp) : Prop :=
  ∀ p, s.providers[i]? = some p → p.stage ≠ .failed

theorem Unfailed.setProvider {j} {p' : Provider Fp} (h : s.Unfailed i)
    (hp' : j = i → p'.stage ≠ .failed) : (s.setProvider j p').Unfailed i := by
  intro r hr
  rcases getElem?_setProvider hr with ⟨rfl, rfl⟩ | hr
  · exact hp' rfl
  · exact h r hr

theorem Unfailed.runFileApprovalSession {j input} (h : s.Unfailed i) (hj : s.providers[j]? = some p)
    (hok : s.WritesUntilDetach i (.session j input))
    (hstep : s.runFileApprovalSession j p input = some t) : t.Unfailed i := by
  unfold FileApproval.runFileApprovalSession at hstep
  split at hstep
  · next ok hst =>
    cases hstep
    refine h.setProvider ?_
    rintro rfl
    obtain rfl : ok := (hok rfl).resolve_right (by simp [hj, Provider.hasDetached, hst])
    nofun
  · split at hstep
    · cases hstep
      exact h.setProvider nofun
    · split at hstep
      · cases hstep
      · cases hstep
        exact h.setProvider nofun
  · split at hstep <;> cases hstep <;> exact h.setProvider nofun
  · next accept hst =>
    split at hstep
    · cases hstep
      exact h
    · next id _ =>
      cases hstep
      have hdec : (s.decide j id accept).Unfailed i := by
        unfold FileApproval.decide
        split <;> exact h
      exact hdec.setProvider (fun _ => by simp [hst])
  · split at hstep
    · cases hstep
      exact h.setProvider nofun
    · cases hstep
      exact h
  · cases hstep
    exact h
  · cases hstep
    exact h.setProvider nofun
  · cases hstep
    have hdet : (s.detach p.epoch).Unfailed i := by
      unfold FileApproval.detach
      split <;> exact h
    exact hdet.setProvider nofun
  · cases hstep
    exact h.setProvider nofun
  · cases hstep

theorem step_unfailed {a} (hok : s.WritesUntilDetach i a) (hstep : s.step a = some t)
    (h : s.Unfailed i) : t.Unfailed i := by
  cases a with
  | watch =>
    cases hstep
    intro p hp
    rcases getElem?_concat_eq_some hp with hp | ⟨-, rfl⟩
    · exact h p hp
    · nofun
  | confirmReceive offer =>
    cases hstep
    unfold confirmReceive
    split
    · exact h
    split
    · exact h
    split
    · exact h
    · next hp' =>
      obtain ⟨p, hp, hsent⟩ := bind_eq_some_iff.mp hp'
      refine Unfailed.setProvider (s := s) h ?_
      rintro rfl
      unfold trySend at hsent
      split at hsent
      · cases hsent
      · cases hsent
      · obtain ⟨_, -, rfl⟩ := map_eq_some_iff.mp hsent
        exact h p hp
  | resume =>
    obtain ⟨q, -, hstep⟩ := bind_eq_some_iff.mp hstep
    unfold resume at hstep
    split at hstep
    · cases hstep
      exact h
    · split at hstep <;> cases hstep
      exact h
    · cases hstep
  | timeout =>
    obtain ⟨q, -, hstep⟩ := bind_eq_some_iff.mp hstep
    unfold timeout at hstep
    split at hstep <;> cases hstep <;> exact h
  | session =>
    obtain ⟨p, hp, hstep⟩ := bind_eq_some_iff.mp hstep
    exact h.runFileApprovalSession hp hok hstep

/-- A session none of whose writes fails before it has detached leaves nothing pending when it
ends: what was put to it and has no answer is declined when its question goes on. -/
theorem lost_provider_declines {unattended : Bool} {as : List (ApprovalAction Fp)}
    (hrun : run step { unattended := unattended } as = some t)
    (hwr : Meets step (WritesUntilDetach i) { unattended := unattended } as)
    (hi : t.providers[i]? = some p) (hended : p.hasEnded) :
    t.provider ≠ some i ∧ ∀ (k : Nat) q, t.questions[k]? = some q → q.asked = some i →
      (∀ e ∈ t.pending.get q.offer.transferId, e.reply ≠ k) ∧
      (q.stage = .waiting → t.step (.resume k) = some (t.leave k q (.returned false))) := by
  have h := run_sound hrun
  have hunf := run_invariant step (fun _ _ _ => step_unfailed) hrun hwr nofun p hi
  have hdet : p.hasDetached := by
    unfold Provider.hasEnded at hended
    unfold Provider.hasDetached
    split at hended
    · next hst => rw [hst]
    · next hst => rw [hst]
    · next hst => exact absurd hst hunf
    · cases hended
  have hprov := h.left i p hi hdet
  refine ⟨hprov, ?_⟩
  intro k q hq hasked
  have hgone : ∀ e ∈ t.pending.get q.offer.transferId, e.reply ≠ k := by
    rintro e he rfl
    obtain ⟨_, hq', -, -, hasked', -⟩ := h.pending _ e he
    obtain rfl := mem_unique hq hq'
    exact hprov (hasked'.symm.trans hasked)
  refine ⟨hgone, ?_⟩
  intro hwait
  have hfree : (t.pending.get q.offer.transferId).any (·.reply = k) = false := by
    rw [Option.any_eq_false]
    exact fun e he => decide_eq_false (hgone e he)
  simp [step, hq, resume, hwait, hfree]

end Ended

theorem lost_provider_declines_closed :
    ∃ (t : FileApproval Nat) (p : Provider Nat), run step { unattended := false } (showsQuestion ++
        [.session 0 .closed, .session 0 .detach, .session 0 (.written false)]) = some t ∧
      t.providers[0]? = some p ∧ p.hasEnded ∧ t.provider ≠ some 0 ∧
      (t.questions[0]?).map Question.stage = some .waiting ∧ (t.step (.resume 0)).isSome := by
  refine exists_some_imp₂ (P := fun t p => p.hasEnded ∧ ∃ q, t.questions[0]? = some q ∧
    q.asked = some 0 ∧ q.stage = .waiting) (exists_of_any₂ (by decide +kernel)) ?_
  rintro t p hrun hp ⟨hended, q, hq, hasked, hwait⟩
  obtain ⟨hprov, hdecl⟩ := lost_provider_declines hrun (by decide +kernel) hp hended
  refine ⟨hended, hprov, by rw [hq, ← hwait]; rfl, ?_⟩
  rw [(hdecl 0 q hq hasked).2 hwait]
  rfl

/-- The write of the question fails: the provider stays attached, and its question waits on. -/
theorem failed_write_leaves_question :
    ∃ (t : FileApproval Nat) (p : Provider Nat), run step { unattended := false }
        [.watch, .session 0 (.written true), .confirmReceive sampleQuestion, .session 0 .offer,
          .session 0 (.live true), .session 0 (.written false)] = some t ∧
      t.providers[0]? = some p ∧ (p.stage matches .failed) ∧ t.provider = some 0 ∧
      (t.questions[0]?).map (fun q => (q.asked, q.stage)) = some (some 0, .waiting) ∧
      (t.step (.resume 0)).isNone :=
  exists_of_any₂ (by decide +kernel)

end FileApproval

end OmniBridge.Desktop.Files
