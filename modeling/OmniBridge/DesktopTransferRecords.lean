import OmniBridge.DesktopTransferSteps

/-! What the transfer manager keeps over its steps. Whatever the effect of a step, a record
that is not removed keeps what its offer fixed, and its state moves by the table; a number
is given to one record only. -/

namespace OmniBridge.Desktop.Files

open List Option SortedMap

section Records

variable {Fp : Type} {r r' : TransferRecord Fp}

namespace TransferRecord

def fixed (r : TransferRecord Fp) : TransferRecord Fp :=
  { r with state := .offered
           challenge := none
           temp := none
           storedAt := none
           failure := none
           cancel := 0
           deadline := 0
           streamActive := false }

structure Evolves (r r' : TransferRecord Fp) : Prop where
  fixed : r'.fixed = r.fixed
  moves : r'.state = r.state ∧ r'.cancel = r.cancel ∨
    r.state.canTransitionTo r'.state ∧ r'.cancel = if r'.state.isTerminal then r.cancel + 1
    else r.cancel

theorem Evolves.refl (r : TransferRecord Fp) : r.Evolves r := ⟨rfl, .inl ⟨rfl, rfl⟩⟩

theorem enter_evolves (next : TransferState) (failure : Option FailureReason) (deadline : Nat)
    (r : TransferRecord Fp) : r.Evolves (r.enter next failure deadline) := by
  unfold enter
  split
  · rename_i hcan
    exact ⟨rfl, .inr ⟨hcan, rfl⟩⟩
  · exact .refl r

namespace Evolves

section

variable (h : r.Evolves r')
include h

theorem seq : r'.seq = r.seq := (congrArg TransferRecord.seq h.fixed :)

theorem id : r'.id = r.id := (congrArg TransferRecord.id h.fixed :)

theorem peer : r'.peer = r.peer := (congrArg TransferRecord.peer h.fixed :)

theorem direction : r'.direction = r.direction :=
  (congrArg TransferRecord.direction h.fixed :)

theorem terminal (hr : r.state.isTerminal) : r'.state = r.state ∧ r'.cancel = r.cancel := by
  rcases h.moves with hsame | ⟨hcan, -⟩
  · exact hsame
  · have hact := TransferState.isActive_of_canTransitionTo hcan
    simp [TransferState.isActive, hr] at hact

theorem active (hr : r'.state.isActive) : r.state.isActive := by
  rcases h.moves with ⟨hsame, -⟩ | ⟨hcan, -⟩
  · exact hsame ▸ hr
  · exact TransferState.isActive_of_canTransitionTo hcan

end

end Evolves

end TransferRecord

end Records

def Action.isProceed {Fp : Type} : Action Fp → Bool
  | .proceed _ _ => true
  | _ => false

namespace Effect

variable {Fp : Type}

def inserting : Effect Fp → List (TransferRecord Fp)
  | .insert r => [r]
  | _ => []

structure Alters (e : Effect Fp) (id : TransferId) (r r' : TransferRecord Fp) : Prop where
  evolves : r.Evolves r'
  state : r'.state = r.state ∨ ∃ failure, e = .transition id r'.state failure
  challenge : r'.challenge = r.challenge ∨ r'.challenge = none ∨
    (∃ challenge, e = .setChallenge id challenge ∧ r'.challenge = some challenge) ∨ ∃ path,
    e = .setTemp id path r'.challenge
  temp : r'.temp = r.temp ∨ r'.temp = none ∧ (e = .takeTemp id ∨ ∃ path, e = .setStored id path) ∨
    ∃ path challenge, e = .setTemp id path challenge ∧ r'.temp = some path

theorem Alters.refl (e : Effect Fp) (id : TransferId) (r) : e.Alters id r r :=
  ⟨.refl r, .inl rfl, .inl rfl, .inl rfl⟩

theorem enter_alters (id : TransferId) (next : TransferState) (failure : Option FailureReason)
    (deadline : Nat) (r : TransferRecord Fp) :
    (transition id next failure).Alters id r (r.enter next failure deadline) := by
  have hevol := r.enter_evolves next failure deadline
  unfold TransferRecord.enter at hevol ⊢
  split at hevol
  · rename_i hcan
    rw [if_pos hcan]
    refine ⟨hevol, .inr ⟨failure, rfl⟩, ?_, .inl rfl⟩
    by_cases hnext : next.isTerminal
    · exact .inr (.inl (if_pos hnext))
    · exact .inl (if_neg hnext)
  · rename_i hcan
    rw [if_neg hcan]
    exact .refl _ id r

end Effect

namespace TransferManager

variable {Fp : Type} {host : Host Fp} {s t : TransferManager Fp} {id : TransferId}

section Apply

theorem get_update (s : TransferManager Fp) (id id' : TransferId)
    (f : TransferRecord Fp → TransferRecord Fp) :
    (s.update id f).transfers.get id' = (s.transfers.get id').map (fun r => if id' = id then f r
      else r) := by
  by_cases hid : id' = id
  · subst hid
    simp only [update, get_modify_self, if_true]
  · simp only [update, get_modify_of_ne hid, hid, if_false, Option.map_id']

variable [DecidableEq Fp]

@[simp]
theorem apply_tasks (e : Effect Fp) : (s.apply host e).tasks = s.tasks := by
  cases e <;> rfl

inductive Touches (host : Host Fp) (s : TransferManager Fp) (e : Effect Fp) : Prop
  | inserts (r : TransferRecord Fp) (he : e = .insert r)
  | alters (id : TransferId) (f : TransferRecord Fp → TransferRecord Fp) (he : e.inserting = [])
      (happly : s.apply host e = s.update id f) (hf : ∀ r, e.Alters id r (f r))
  | nothing (he : e.inserting = []) (htable : (s.apply host e).transfers = s.transfers)
      (hdrop : (s.apply host e).dropped = s.dropped)

theorem touches (host : Host Fp) (s : TransferManager Fp) (e) : Touches host s e := by
  cases e with
  | insert r => exact .inserts r rfl
  | transition id next failure => exact .alters id _ rfl rfl (Effect.enter_alters id next failure _)
  | setChallenge id challenge =>
    refine .alters id _ rfl rfl ?_
    exact fun r =>
      ⟨⟨rfl, .inl ⟨rfl, rfl⟩⟩, .inl rfl, .inr (.inr (.inl ⟨challenge, rfl, rfl⟩)), .inl rfl⟩
  | setTemp id path challenge =>
    refine .alters id _ rfl rfl ?_
    exact fun r => ⟨⟨rfl, .inl ⟨rfl, rfl⟩⟩, .inl rfl, .inr (.inr (.inr ⟨path, rfl⟩)),
      .inr (.inr ⟨path, challenge, rfl, rfl⟩)⟩
  | takeTemp id =>
    refine .alters id _ rfl rfl ?_
    exact fun r => ⟨⟨rfl, .inl ⟨rfl, rfl⟩⟩, .inl rfl, .inl rfl, .inr (.inl ⟨rfl, .inl rfl⟩)⟩
  | setStored id path =>
    refine .alters id _ rfl rfl ?_
    exact fun r => ⟨⟨rfl, .inl ⟨rfl, rfl⟩⟩, .inl rfl, .inl rfl, .inr (.inl ⟨rfl, .inr ⟨path, rfl⟩⟩)⟩
  | consume id | takeChallenge id =>
    refine .alters id _ rfl rfl ?_
    exact fun r => ⟨⟨rfl, .inl ⟨rfl, rfl⟩⟩, .inl rfl, .inr (.inl rfl), .inl rfl⟩
  | streamOpened id | streamClosed id =>
    refine .alters id _ rfl rfl ?_
    exact fun r => ⟨⟨rfl, .inl ⟨rfl, rfl⟩⟩, .inl rfl, .inl rfl, .inl rfl⟩
  | _ => exact .nothing rfl rfl rfl

theorem get_apply (host : Host Fp) (s : TransferManager Fp) {e}
    (he : ∀ r, e = .insert r → r.id ≠ id) :
    ∃ f, (s.apply host e).transfers.get id = (s.transfers.get id).map f ∧ ∀ r : TransferRecord Fp,
      e.Alters id r (f r) := by
  cases touches host s e with
  | inserts r heq =>
    subst heq
    exact ⟨fun r => r, by simp [apply, get_insert_of_ne (he r rfl).symm], .refl _ id⟩
  | alters id' f _ happly hf =>
    refine ⟨_, happly ▸ s.get_update id' id f, ?_⟩
    intro r
    split
    · rename_i hid
      exact hid ▸ hf r
    · exact .refl _ id r
  | nothing _ htable => exact ⟨fun r => r, by simp [htable], .refl _ id⟩

end Apply

theorem handler_starts {ctx : Context Fp} {message job} (h : handler ctx message = some job) :
    job.Starts ∧ job.isStream = false := by
  cases message with
  | offer offer =>
    obtain ⟨id, -, rfl⟩ := map_eq_some_iff.mp h
    exact ⟨.onOffer ctx id offer, rfl⟩
  | accept id challenge =>
    obtain ⟨id, -, rfl⟩ := map_eq_some_iff.mp h
    exact ⟨.onAccept ctx id challenge, rfl⟩
  | ready id challenge =>
    obtain ⟨id, -, rfl⟩ := map_eq_some_iff.mp h
    exact ⟨.onReady ctx id challenge, rfl⟩
  | reject id reason | cancel id reason =>
    obtain ⟨id, -, rfl⟩ := map_eq_some_iff.mp h
    exact ⟨.onPeerEnded ctx id _ (.inl rfl), rfl⟩
  | failed id =>
    obtain ⟨id, -, rfl⟩ := map_eq_some_iff.mp h
    exact ⟨.onPeerEnded ctx id _ (.inr rfl), rfl⟩
  | complete id =>
    obtain ⟨id, -, rfl⟩ := map_eq_some_iff.mp h
    exact ⟨.onComplete ctx id, rfl⟩

section Stepped

variable [DecidableEq Fp] {a : Action Fp} {i : Nat} {task task' : Task Fp} {out : Outcome Fp}

inductive Stepped (host : Host Fp) (s : TransferManager Fp) : Action Fp → TransferManager Fp → Prop
  | environment {a : Action Fp} (ha : a.isProceed = false) (links : List (Link Fp))
      (sessions : Fp → Option Nat) (clock : Nat) :
      Stepped host s a { s with links := links, sessions := sessions, clock := clock }
  | starts {a : Action Fp} {job : Job Fp} (ha : a.isProceed = false) (hstart : job.Starts)
      {handler : Option Nat} (hhand : job.isStream → handler = none) : Stepped host s a
        (s.spawn job handler)
  | forgets (keep : Nat) : Stepped host s (.forgetFinished keep) (s.forgetFinished keep)
  | proceeds {i : Nat} {input : Input} {task : Task Fp} {out : Outcome Fp}
      (htask : s.tasks[i]? = some task) (hadv : s.advance host task input = some out) :
      Stepped host s (.proceed i input) ((s.apply host out.effect).resume i out)

theorem step_stepped (h : s.step host a = some t) : Stepped host s a t := by
  cases a with
  | tick => cases h; exact .environment rfl s.links s.sessions _
  | connect => cases h; exact .environment rfl _ _ s.clock
  | disconnect => cases h; exact .environment rfl _ s.sessions s.clock
  | control =>
    obtain ⟨_, -, hlink⟩ := bind_eq_some_iff.mp h
    split at hlink
    · cases hlink
    split at hlink
    · cases hlink
      exact .environment rfl s.links s.sessions s.clock
    rename_i hjob
    cases hlink
    obtain ⟨hstart, hnot⟩ := handler_starts hjob
    exact .starts rfl hstart (fun hstr => by rw [hnot] at hstr; cases hstr)
  | offerFile peer path => cases h; exact .starts rfl (.offerFile peer path) (fun _ => rfl)
  | cancel id => cases h; exact .starts rfl (.cancel id) (fun _ => rfl)
  | cancelPeer peer reason => cases h; exact .starts rfl (.cancelPeer peer reason) (fun _ => rfl)
  | reap => cases h; exact .starts rfl (.reap s.clock) (fun _ => rfl)
  | forgetFinished keep => cases h; exact .forgets keep
  | stream peer profile auth =>
    cases h
    unfold acceptDataStream
    split
    · exact .environment rfl s.links s.sessions s.clock
    · split
      · exact .environment rfl s.links s.sessions s.clock
      · exact .starts rfl (.acceptStream peer profile _ auth.mac) (fun _ => rfl)
  | proceed =>
    obtain ⟨_, htask, hout⟩ := bind_eq_some_iff.mp h
    obtain ⟨_, hadv, rfl⟩ := map_eq_some_iff.mp hout
    exact .proceeds htask hadv

theorem getElem?_resume {j} (h : ((s.apply host out.effect).resume i out).tasks[j]? = some task') :
    j = i ∧ task' = out.task ∨ j ≠ i ∧ s.tasks[j]? = some task' ∨ task' ∈ out.spawned := by
  rw [resume, apply_tasks] at h
  by_cases hj : j < s.tasks.length
  · rw [getElem?_append_left (by simpa using hj)] at h
    by_cases hi : i = j
    · subst hi
      rw [getElem?_set_self hj] at h
      exact .inl ⟨rfl, (some.inj h).symm⟩
    · rw [getElem?_set_ne hi] at h
      exact .inr (.inl ⟨Ne.symm hi, h⟩)
  · rw [getElem?_append_right (by simpa using hj)] at h
    exact .inr (.inr (mem_of_getElem? h))

theorem Stepped.persists {j} (h : Stepped host s a t) (htask : s.tasks[j]? = some task) :
    t.tasks[j]? = some task ∨ ∃ input out, a = .proceed j input ∧
      s.advance host task input = some out ∧ t = (s.apply host out.effect).resume j out ∧
      t.tasks[j]? = some out.task := by
  cases h with
  | environment | forgets => exact .inl htask
  | starts => exact .inl (getElem?_concat_of_eq_some htask _)
  | @proceeds i input _ out htask' hadv =>
    have hlt := (List.getElem?_eq_some_iff.mp htask).1
    have hat : ((s.apply host out.effect).resume i out).tasks[j]? =
        (s.tasks.set i out.task)[j]? := by
      rw [resume, apply_tasks, getElem?_append_left (by simpa using hlt)]
    by_cases hij : i = j
    · subst hij
      obtain rfl := mem_unique htask' htask
      exact .inr ⟨input, out, rfl, hadv, rfl, hat.trans (getElem?_set_self hlt)⟩
    · exact .inl (hat.trans ((getElem?_set_ne hij).trans htask))

theorem Stepped.forall_getElem {P : Nat → Task Fp → Prop} (h : Stepped host s a t)
    (hold : ∀ j task, s.tasks[j]? = some task → (∀ input, a ≠ .proceed j input) → P j task)
    (hstart : ∀ j job handler, job.Starts → (job.isStream → handler = none) →
      P j { job := job, handler := handler })
    (hnew : ∀ i input task out, a = .proceed i input → s.tasks[i]? = some task →
      s.advance host task input = some out → t = (s.apply host out.effect).resume i out →
      P i out.task ∧ ∀ j, ∀ task' ∈ out.spawned, P j task') :
    ∀ j task, t.tasks[j]? = some task → P j task := by
  intro j task' htask'
  have hkept : s.tasks[j]? = some task' → a.isProceed = false → P j task' := by
    intro hj ha
    refine hold j task' hj ?_
    rintro _ rfl
    cases ha
  cases h with
  | environment ha => exact hkept htask' ha
  | starts ha hstarts hhand =>
    rcases getElem?_concat_eq_some htask' with hj | ⟨-, rfl⟩
    · exact hkept hj ha
    · exact hstart j _ _ hstarts hhand
  | forgets => exact hkept htask' rfl
  | proceeds htask hadv =>
    have hout := hnew _ _ _ _ rfl htask hadv rfl
    rcases getElem?_resume htask' with ⟨rfl, rfl⟩ | ⟨hj, htask'⟩ | htask'
    · exact hout.1
    · refine hold j task' htask' ?_
      rintro _ heq
      cases heq
      exact hj rfl
    · exact hout.2 j task' htask'

theorem Stepped.forall_tasks {P : Task Fp → Prop} (h : Stepped host s a t)
    (hold : ∀ j task, s.tasks[j]? = some task → (∀ input, a ≠ .proceed j input) → P task)
    (hstart : ∀ job handler, job.Starts → (job.isStream → handler = none) →
      P { job := job, handler := handler })
    (hnew : ∀ i input task out, a = .proceed i input → s.tasks[i]? = some task →
      s.advance host task input = some out → t = (s.apply host out.effect).resume i out →
      P out.task ∧ ∀ task' ∈ out.spawned, P task') : ∀ task ∈ t.tasks, P task := by
  intro task' htask'
  obtain ⟨j, hj⟩ := mem_iff_getElem?.mp htask'
  refine @Stepped.forall_getElem _ host s t _ a (fun _ => P) h hold (fun _ => hstart) ?_ j task' hj
  intro i input task out ha htask hadv ht
  exact ⟨(hnew i input task out ha htask hadv ht).1,
    fun _ => (hnew i input task out ha htask hadv ht).2⟩

end Stepped

end TransferManager

def Job.Made {Fp : Type} : Job Fp → Prop
  | .offerFile peer _ (.inserting r) =>
    r.peer = peer ∧ r.direction = .sending ∧ r.state = .offered ∧ r.challenge = none ∧ r.temp = none
  | .onOffer ctx id offer (.inserting r) =>
    (r.id = id ∧ r.peer = ctx.peer ∧ r.sizeBytes = offer.sizeBytes ∧ r.mimeType = offer.mimeType) ∧
      r.direction = .receiving ∧ r.state = .waitingAccept ∧ r.challenge = none ∧ r.temp = none
  | _ => True

def Job.isOffer {Fp : Type} : Job Fp → Bool
  | .offerFile _ _ _ | .onOffer _ _ _ _ => true
  | _ => false

namespace TransferManager

variable {Fp : Type} {host : Host Fp} {s t : TransferManager Fp} {job : Job Fp}
  {id : TransferId} {a : Action Fp} {i : Nat} {task task' : Task Fp} {input : Input}
  {out : Outcome Fp} {r : TransferRecord Fp}

section Inserting

theorem isOffer_of_leadsTo {job'} (h : job.LeadsTo job') (hoff : job'.isOffer) : job.isOffer := by
  cases job' with
  | offerFile =>
    cases job with
    | offerFile => rfl
    | _ => exact h.elim
  | onOffer =>
    cases job with
    | onOffer => rfl
    | _ => exact h.elim
  | _ => cases hoff

theorem isOffer_of_inserts (hr : job.inserts = some r) : job.isOffer := by
  cases job with
  | offerFile | onOffer => rfl
  | _ => cases hr

variable [DecidableEq Fp]

theorem advance_inserting (h : s.advance host task input = some out)
    (hr : task.job.inserts = some r) :
    out.effect = .insert r ∧
      ((∃ peer path, task.job = .offerFile peer path (.inserting r) ∧
          out.task.job = .offerFile peer path (.offering r) ∧ out.spawned = []) ∨
        ∃ ctx id offer, task.job = .onOffer ctx id offer (.inserting r) ∧ out.task.job = .done ∧
          out.spawned =
            [{ job := .approval ⟨id, ctx.peer, r.filename, offer.sizeBytes, offer.mimeType⟩
                 ctx.session r.seq .asking }]) := by
  obtain ⟨job, _, _, _, _, _, _, _⟩ := task
  cases job with
  | offerFile peer path stage =>
    cases stage with
    | inserting =>
      cases hr
      cases input with
      | go => cases h; exact ⟨rfl, .inl ⟨peer, path, rfl, rfl, rfl⟩⟩
      | _ => cases h
    | _ => cases hr
  | onOffer ctx id offer stage =>
    cases stage with
    | inserting =>
      cases hr
      cases input with
      | go => cases h; exact ⟨rfl, .inr ⟨ctx, id, offer, rfl, rfl, rfl⟩⟩
      | _ => cases h
    | _ => cases hr
  | _ => cases hr

theorem made_of_advance (h : s.advance host task input = some out)
    (hr : out.task.job.inserts = some r) :
    out.effect = .number ∧ r.seq = s.nextSeq ∧ out.task.job.Made := by
  have hoff := isOffer_of_leadsTo (advance_advanced h).leads (isOffer_of_inserts hr)
  unfold advance at h
  split at h <;> rename_i hjob <;> rw [hjob] at hoff
  · unfold offerFile at h
    split at h
    · cases h
      revert hr
      split <;> rintro ⟨⟩
    · split at h <;> cases h <;> cases hr
    · split at h
      · cases h; cases hr
      · split at h <;> cases h <;> cases hr
    · cases h
      cases hr
      exact ⟨rfl, rfl, rfl, rfl, rfl, rfl, rfl⟩
    · cases h; cases hr
    · cases h; cases hr
    · split at h <;> cases h <;> cases hr
    · cases h
  · unfold onOffer at h
    split at h
    · cases h
      revert hr
      split <;> rintro ⟨⟩
    · split at h
      · cases h; cases hr
      · split at h <;> cases h <;> cases hr
    · split at h
      · cases h; cases hr
      split at h
      · cases h
        cases hr
        exact ⟨rfl, rfl, ⟨rfl, rfl, rfl, rfl⟩, rfl, rfl, rfl, rfl⟩
      · cases h; cases hr
    · cases h; cases hr
    · cases h; cases hr
    · cases h
  all_goals cases hoff

end Inserting

section Recorded

theorem mem_forgotten {keep p} (h : p ∈ s.forgotten keep) :
    s.transfers.get p.1 = some p.2 ∧ p.2.state.isTerminal := by
  have hsort := mem_of_mem_take h
  rw [mem_insertionSort, mem_filter] at hsort
  exact ⟨get_eq_some_iff.mpr hsort.1, hsort.2⟩

theorem get_forgetFinished (s : TransferManager Fp) (keep : Nat) (id : TransferId) :
    (s.forgetFinished keep).transfers.get id = s.transfers.get id ∨
      (s.forgetFinished keep).transfers.get id = none ∧ ∃ r, (id, r) ∈ s.forgotten keep := by
  rw [forgetFinished, SortedMap.get_filter]
  by_cases hid : ((s.forgotten keep).map Prod.fst).contains id
  · right
    obtain ⟨p, hp, rfl⟩ := mem_map.mp (contains_iff_mem.mp hid)
    refine ⟨?_, p.2, hp⟩
    rw [filter_eq_none_iff]
    intro r _
    simp only [hid, Bool.not_true, Bool.false_eq_true, not_false_eq_true]
  · left
    rw [Bool.not_eq_true] at hid
    cases s.transfers.get id with
    | none => rfl
    | some => rw [filter_some, hid, Bool.not_false, if_pos rfl]

variable [DecidableEq Fp]

structure Proceeds (host : Host Fp) (s : TransferManager Fp) (a : Action Fp) (i : Nat)
    (input : Input) (task : Task Fp) (out : Outcome Fp) : Prop where
  action : a = .proceed i input
  slot : s.tasks[i]? = some task
  advances : s.advance host task input = some out

theorem Proceeds.unique {i' input' out'} (h : Proceeds host s a i input task out)
    (h' : Proceeds host s a i' input' task' out') : i' = i ∧ task' = task ∧ out' = out := by
  obtain ⟨rfl, hslot, hadvan⟩ := h
  obtain ⟨heq, hslot', hadvan'⟩ := h'
  cases heq
  obtain rfl := mem_unique hslot' hslot
  exact ⟨rfl, rfl, some.inj (hadvan'.symm.trans hadvan)⟩

theorem Stepped.result (h : Stepped host s a t) (hproc : Proceeds host s a i input task out) :
    t = (s.apply host out.effect).resume i out ∧ out.task ∈ t.tasks := by
  obtain ⟨rfl, hslot, hadvan⟩ := hproc
  have ht : t = (s.apply host out.effect).resume i out := by
    cases h with
    | environment ha | starts ha => cases ha
    | proceeds htask hadv =>
      obtain rfl := mem_unique htask hslot
      obtain rfl := mem_unique hadv hadvan
      rfl
  have hlt := (List.getElem?_eq_some_iff.mp hslot).1
  refine ⟨ht, ?_⟩
  rw [ht, resume, apply_tasks]
  exact mem_append_left _ (mem_of_getElem? (getElem?_set_self hlt))

def IsEffect (host : Host Fp) (s : TransferManager Fp) (a : Action Fp) (e : Effect Fp) : Prop :=
  e = .nothing ∨ ∃ i input task out, Proceeds host s a i input task out ∧ out.effect = e

inductive Recorded (host : Host Fp) (s : TransferManager Fp) (a : Action Fp)
    (t : TransferManager Fp) (id : TransferId) : Prop
  | kept (e : Effect Fp) (f : TransferRecord Fp → TransferRecord Fp) (he : IsEffect host s a e)
      (hget : t.transfers.get id = (s.transfers.get id).map f) (hf : ∀ r, e.Alters id r (f r))
  | inserted (i : Nat) (input : Input) (task : Task Fp) (r : TransferRecord Fp)
      (ha : a = .proceed i input) (htask : s.tasks[i]? = some task) (hr : task.job.inserts = some r)
        (hid : r.id = id)
      (hget : t.transfers.get id = some r) (hdrop : t.dropped = s.dropped ++
        (s.transfers.get id).toList)
  | forgotten (keep : Nat) (r : TransferRecord Fp) (ha : a = .forgetFinished keep)
      (hr : (id, r) ∈ s.forgotten keep) (hget : t.transfers.get id = none)

variable {e : Effect Fp}

theorem from_of_advance (h : s.advance host task input = some out) (he : out.effect = e) :
    e.From s task.job :=
  he ▸ (advance_advanced h).origin

theorem Stepped.recorded (h : Stepped host s a t) (id : TransferId) : Recorded host s a t id := by
  cases h with
  | environment => exact .kept .nothing (fun r => r) (.inl rfl) (by simp) (.refl _ id)
  | starts => exact .kept .nothing (fun r => r) (.inl rfl) (by simp [spawn]) (.refl _ id)
  | forgets keep =>
    rcases s.get_forgetFinished keep id with hsame | ⟨hnone, r, hr⟩
    · exact .kept .nothing (fun r => r) (.inl rfl) (by simp [hsame]) (.refl _ id)
    · exact .forgotten keep r rfl hr hnone
  | @proceeds i input task out htask hadv =>
    by_cases hins : ∃ r, out.effect = .insert r ∧ r.id = id
    · obtain ⟨r, heff, hid⟩ := hins
      refine .inserted i input task r rfl htask (from_of_advance hadv heff) hid ?_ ?_
      · rw [heff, ← hid]
        exact get_insert_self _ _ _
      · rw [heff, ← hid]
        rfl
    · have hoth : ∀ r, out.effect = .insert r → r.id ≠ id := fun r hr hid => hins ⟨r, hr, hid⟩
      obtain ⟨f, hget, hf⟩ := get_apply host s hoth
      exact .kept out.effect f (.inr ⟨i, input, task, out, ⟨rfl, htask, hadv⟩, rfl⟩) hget hf

theorem Stepped.before (h : Stepped host s a t) (hr : t.transfers.get id = some r) :
    (∃ i input task, a = .proceed i input ∧ s.tasks[i]? = some task ∧ task.job.inserts = some r ∧
      r.id = id) ∨ ∃ e r₀, IsEffect host s a e ∧ s.transfers.get id = some r₀ ∧
      e.Alters id r₀ r := by
  cases h.recorded id with
  | kept e f he hget hf =>
    obtain ⟨r₀, hr₀, rfl⟩ := map_eq_some_iff.mp (hget.symm.trans hr)
    exact .inr ⟨e, r₀, he, hr₀, hf r₀⟩
  | inserted i input task _ ha htask hr' hid hget =>
    obtain rfl := mem_unique hget hr
    exact .inl ⟨i, input, task, ha, htask, hr', hid⟩
  | forgotten _ _ _ _ hget => cases hget.symm.trans hr

theorem IsEffect.proceeds (he : IsEffect host s a e) (hne : e ≠ .nothing) :
    ∃ i input task out, Proceeds host s a i input task out ∧ out.effect = e ∧
      e.From s task.job := by
  obtain ⟨i, input, task, out, hproc, heff⟩ := he.resolve_left hne
  exact ⟨i, input, task, out, hproc, heff, from_of_advance hproc.advances heff⟩

end Recorded

section Numbered

section

variable (s : TransferManager Fp)

def records : List (TransferRecord Fp) := s.transfers.entries.map Prod.snd ++ s.dropped

def recorded (n : Nat) : Nat := s.records.countP (·.seq = n)

def numbered (n : Nat) : Nat :=
  s.recorded n + s.tasks.countP (fun task => task.job.inserts.any (·.seq = n))

end

/-- Records are found under their ids, and no two have the same number. -/
structure Numbered (s : TransferManager Fp) : Prop where
  keyed : ∀ id r, s.transfers.get id = some r → r.id = id
  once : ∀ n, s.numbered n ≤ 1
  below : ∀ n, s.nextSeq ≤ n → s.numbered n = 0

theorem countP_update (id : TransferId) (f : TransferRecord Fp → TransferRecord Fp)
    (hf : ∀ r, TransferRecord.Evolves r (f r)) (n : Nat) :
    (s.update id f).transfers.entries.countP (·.2.seq = n) = s.transfers.entries.countP
      (·.2.seq = n) := by
  rw [update, countP_modify]
  congr 1
  funext p
  by_cases hp : p.1 = id
  · simp only [hp, if_true, (hf p.2).seq]
  · simp only [hp, if_false]

theorem recorded_forgetFinished (keep n : Nat) :
    (s.forgetFinished keep).recorded n = s.recorded n := by
  have hsub : s.forgotten keep ⊆ s.transfers.entries := fun p hp =>
    get_eq_some_iff.mp (mem_forgotten hp).1
  have hnodup : (s.forgotten keep).Nodup :=
    (((perm_insertionSort olderOrSame _).nodup_iff.mpr
      (s.transfers.nodup_entries.filter _))).sublist (take_sublist _ _)
  have hperm := (perm_filter_keys hsub hnodup).countP_eq (·.2.seq = n)
  have hspl := countP_eq_countP_filter_add s.transfers.entries (·.2.seq = n)
    (fun p => ((s.forgotten keep).map Prod.fst).contains p.1)
  simp only [recorded, records, forgetFinished, SortedMap.filter, countP_append, countP_map,
    Function.comp_def]
  omega

theorem inserts_of_starts (h : job.Starts) : job.inserts = none := by
  cases h <;> rfl

theorem inserts_of_spawned (h : Spawned host job task) : task.job.inserts = none := by
  cases h <;> rfl

theorem countP_inserts_spawned {spawned : List (Task Fp)}
    (h : ∀ task' ∈ spawned, Spawned host job task') (n : Nat) :
    spawned.countP (fun task => task.job.inserts.any (·.seq = n)) = 0 := by
  refine countP_eq_zero.mpr ?_
  intro task' htask'
  rw [inserts_of_spawned (h task' htask')]
  exact Bool.false_ne_true

theorem mem_records_of_get (hr : s.transfers.get id = some r) : r ∈ s.records :=
  mem_append_left _ (mem_map.mpr ⟨(id, r), get_eq_some_iff.mp hr, rfl⟩)

theorem recorded_pos (hr : r ∈ s.records) : 0 < s.recorded r.seq :=
  countP_pos_iff.mpr ⟨r, hr, decide_eq_true rfl⟩

theorem Numbered.apart_inserting (hs : s.Numbered) (htask : task ∈ s.tasks)
    (hr : task.job.inserts = some r) : s.recorded r.seq = 0 := by
  have hinser : 0 < s.tasks.countP (fun task => task.job.inserts.any (·.seq = r.seq)) :=
    countP_pos_iff.mpr ⟨task, htask, by simp [hr]⟩
  have honce := hs.once r.seq
  unfold numbered at honce
  omega

theorem Numbered.unique (hs : s.Numbered) {r'} (hr : r ∈ s.records) (hr' : r' ∈ s.records)
    (hseq : r'.seq = r.seq) : r' = r := by
  have honce := hs.once r.seq
  have hrec : s.recorded r.seq ≤ 1 := by
    unfold numbered at honce
    omega
  exact eq_of_countP_le_one hrec hr hr' (decide_eq_true rfl) (decide_eq_true hseq)

theorem numbered_start (disk : Disk) : (start disk : TransferManager Fp).Numbered := by
  refine ⟨?_, fun _ => Nat.zero_le 1, fun _ _ => rfl⟩
  intro id r hr
  cases (get_empty id).symm.trans hr

variable [DecidableEq Fp]

theorem recorded_apply (host : Host Fp) (s : TransferManager Fp) (e) (n) :
    (s.apply host e).recorded n = s.recorded n + e.inserting.countP (·.seq = n) := by
  simp only [recorded, records, countP_append, countP_map, Function.comp_def]
  cases touches host s e with
  | inserts r heq =>
    subst heq
    have hinsert := s.transfers.countP_insert r.id r (·.2.seq = n)
    simp only [apply, countP_append, Effect.inserting, countP_singleton] at hinsert ⊢
    omega
  | alters id f hne happly hf =>
    rw [happly, hne, countP_nil, Nat.add_zero, countP_update id f (fun r => (hf r).evolves) n]
    rfl
  | nothing hne htable hdrop => rw [htable, hdrop, hne, countP_nil, Nat.add_zero]

theorem numbered_resume (htask : s.tasks[i]? = some task)
    (hadv : s.advance host task input = some out) (n : Nat) :
    ((s.apply host out.effect).resume i out).numbered n = s.numbered n + if out.task.job.inserts.any
      (·.seq = n) then 1 else 0 := by
  have hadvanc := advance_advanced hadv
  have htable : ((s.apply host out.effect).resume i out).recorded n = _ :=
    recorded_apply host s out.effect n
  have hset := countP_set_add htask (fun task => task.job.inserts.any (·.seq = n)) out.task
  have hspawn := countP_inserts_spawned hadvanc.spawned n
  have heff : out.effect.inserting.countP (·.seq = n) = if task.job.inserts.any
      (·.seq = n) then 1 else 0 := by
    cases hr : task.job.inserts with
    | some =>
      rw [(advance_inserting hadv hr).1]
      simp [Effect.inserting]
    | none =>
      have horig := hadvanc.origin
      cases hout : out.effect with
      | insert =>
        rw [hout] at horig
        cases hr.symm.trans horig
      | _ => rfl
  simp only [numbered, htable]
  simp only [resume, apply_tasks, countP_append]
  omega

theorem step_numbered (h : Stepped host s a t) (hs : s.Numbered) : t.Numbered := by
  have hkeyed : ∀ id r, t.transfers.get id = some r → r.id = id := by
    intro id r hr
    rcases h.before hr with ⟨i, _, _, -, -, -, hid⟩ | ⟨e, r₀, -, hr₀, halt⟩
    · exact hid
    · exact halt.evolves.id.trans (hs.keyed id r₀ hr₀)
  cases h with
  | environment => exact ⟨hkeyed, hs.once, hs.below⟩
  | @starts a job _ hstart handler =>
    have hsame : ∀ n, (s.spawn job handler).numbered n = s.numbered n := by
      intro n
      simp [numbered, recorded, records, spawn, inserts_of_starts hstart]
    exact ⟨hkeyed, fun n => hsame n ▸ hs.once n, fun n hn => (hsame n).trans (hs.below n hn)⟩
  | forgets keep =>
    have hsame : ∀ n, (s.forgetFinished keep).numbered n = s.numbered n := by
      intro n
      rw [numbered, recorded_forgetFinished]
      rfl
    exact ⟨hkeyed, fun n => (hsame n).le.trans (hs.once n), fun n hn =>
      (hsame n).trans (hs.below n hn)⟩
  | @proceeds i _ task out htask hadv =>
    have hnumb := numbered_resume htask hadv
    cases hr : out.task.job.inserts with
    | none =>
      have hle : s.nextSeq ≤ (s.apply host out.effect).nextSeq := by
        cases out.effect with
        | number => exact Nat.le_succ _
        | _ => exact Nat.le_refl _
      simp only [hr, any_none, Bool.false_eq_true, if_false, Nat.add_zero] at hnumb
      exact ⟨hkeyed, fun n => hnumb n ▸ hs.once n, fun n hn =>
        (hnumb n).trans (hs.below n (hle.trans hn))⟩
    | some =>
      obtain ⟨heff, hseq, -⟩ := made_of_advance hadv hr
      simp only [hr, any_some, decide_eq_true_eq, hseq] at hnumb
      have hnext : ((s.apply host out.effect).resume i out).nextSeq = s.nextSeq + 1 := by
        rw [heff]
        rfl
      have hfree := hs.below s.nextSeq (Nat.le_refl _)
      refine ⟨hkeyed, ?_, ?_⟩
      · intro n
        have honce := hs.once n
        rw [hnumb n]
        by_cases hn : s.nextSeq = n
        · subst hn
          rw [if_pos rfl, hfree]
        · rw [if_neg hn]
          exact honce
      · intro n hn
        rw [hnext] at hn
        have hbelow := hs.below n (Nat.le_of_succ_le hn)
        rw [hnumb n, if_neg (by omega), hbelow]

theorem recorded_step (h : Stepped host s a t) (n : Nat) : s.recorded n ≤ t.recorded n := by
  cases h with
  | environment | starts => exact Nat.le_refl _
  | forgets keep => exact (recorded_forgetFinished keep n).ge
  | proceeds => exact (Nat.le_add_right _ _).trans (recorded_apply host s _ n).ge

end Numbered

section Made

theorem made_of_inserts_eq_none (h : job.inserts = none) : job.Made := by
  unfold Job.Made
  split
  · cases h
  · cases h
  · trivial

theorem new_of_inserts (hr : job.inserts = some r) (hmade : job.Made) :
    (r.state = if r.direction = .sending then .offered else .waitingAccept) ∧ r.challenge = none ∧
      r.temp = none := by
  unfold Job.inserts at hr
  split at hr
  case h_1 | h_2 =>
    cases hr
    obtain ⟨-, hdir, hstate, hrest⟩ := hmade
    exact ⟨by rw [hdir, hstate]; rfl, hrest⟩
  · cases hr

variable [DecidableEq Fp]

theorem step_made (h : Stepped host s a t) (hs : ∀ task ∈ s.tasks, task.job.Made) :
    ∀ task ∈ t.tasks, task.job.Made := by
  refine h.forall_tasks ?_ ?_ ?_
  · intro j other hoth _
    exact hs other (mem_of_getElem? hoth)
  · intro _ _ hstart _
    exact made_of_inserts_eq_none (inserts_of_starts hstart)
  · rintro i _ task out rfl _ hadv rfl
    refine ⟨?_, fun task' htask' =>
      made_of_inserts_eq_none (inserts_of_spawned
        ((advance_advanced hadv).spawned task' htask'))⟩
    cases hr : out.task.job.inserts with
    | none => exact made_of_inserts_eq_none hr
    | some => exact (made_of_advance hadv hr).2.2

end Made

end TransferManager

end OmniBridge.Desktop.Files
