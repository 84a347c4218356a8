import OmniBridge.DesktopTransferStreams

/-! A transfer has one data stream, where we are the side that accepts it. A challenge that is
drawn is new; it is put into one record, sent by the call that drew it, and used up by the
stream that shows it. -/

namespace OmniBridge.Desktop.Files

open List Option Job

namespace Job

variable {Fp : Type} {job : Job Fp} {id : TransferId} {c : StreamChallenge}

def holds : Job Fp → Option (TransferId × StreamChallenge)
  | .approval request _ _ (.recording challenge) | .approval request _ _ (.activating challenge)
  | .approval request _ _ (.accepting challenge) => challenge.map (fun c => (request.transferId, c))
  | .onAccept _ id _ (.challenging _ c) | .onAccept _ id _ (.activating _ c)
  | .onAccept _ id _ (.readying _ c) => some (id, c)
  | _ => none

def unset : Job Fp → Option StreamChallenge
  | .approval _ _ _ (.recording challenge) => challenge
  | .onAccept _ _ _ (.challenging _ c) => some c
  | _ => none

def dials : Job Fp → Bool
  | .dial _ _ | .onReady _ _ _ (.challenging _) => true
  | _ => false

theorem holds_of_unset (h : job.unset = some c) : ∃ id, job.holds = some (id, c) := by
  unfold unset at h
  split at h
  · rename_i request session seq challenge
    subst h
    exact ⟨request.transferId, rfl⟩
  · rename_i id _ _ _
    cases h
    exact ⟨id, rfl⟩
  · cases h

theorem holds_of_discloses (h : job.discloses = some c) : ∃ id, job.holds = some (id, c) := by
  unfold discloses at h
  split at h
  · rename_i request session seq challenge
    subst h
    exact ⟨request.transferId, rfl⟩
  · rename_i id _ _ _
    cases h
    exact ⟨id, rfl⟩
  · cases h

theorem holds_of_challenges (hdials : job.dials = false) (h : job.challenges = some (id, c)) :
    job.unset = some c ∧ job.holds = some (id, c) := by
  unfold challenges at h
  split at h
  · cases h
    exact ⟨rfl, rfl⟩
  · cases hdials
  · cases h

theorem holds_of_records (h : job.records = some (id, some c)) :
    job.unset = some c ∧ job.holds = some (id, c) := by
  unfold records at h
  split at h
  · cases h
    exact ⟨rfl, rfl⟩
  · cases h

theorem enters_of_unset (h : job.unset = some c) : job.enters = none := by
  unfold unset at h
  split at h
  · rfl
  · rfl
  · cases h

end Job

def TransferState.isActivated : TransferState → Bool
  | .offered | .waitingAccept => false
  | _ => true

theorem TransferState.isActivated_of_canTransitionTo {state next : TransferState}
    (h : state.canTransitionTo next) (hstate : state.isActivated) :
    next.isActivated ∧ next ≠ .transferring := by
  cases state <;> cases next <;> simp_all [canTransitionTo, isActivated, isTerminal]

def Input.drawn : Input → Option StreamChallenge
  | .generated challenge => challenge
  | _ => none

namespace TransferManager

variable {Fp : Type} {host : Host Fp} {s t : TransferManager Fp} {id : TransferId} {task : Task Fp}
  {r : TransferRecord Fp} {a : Action Fp} {i j : Nat} {input : Input} {out : Outcome Fp}
  {c : StreamChallenge}

section Secrecy

structure Secrecy (s : TransferManager Fp) (job : Job Fp) (input : Input) (out : Outcome Fp) :
    Prop where
  holds : ∀ id c, out.task.job.holds = some (id, c) → job.holds = some (id, c) ∨
    input = .generated (some c) ∧ out.effect = .draw c
  unset : ∀ c, out.task.job.unset = some c → input = .generated (some c) ∧ out.effect = .draw c
  discloses : ∀ c, out.task.job.discloses = some c → ∃ id, job.holds = some (id, c) ∧
    out.effect = .transition id .transferring none ∧ s.canTransition id .transferring

theorem secrecy_of_holds_eq_none {job} (h : out.task.job.holds = none) :
    Secrecy s job input out := by
  refine ⟨?_, ?_, ?_⟩
  · intro _ c hholds
    cases h.symm.trans hholds
  · intro c hunset
    obtain ⟨_, hholds⟩ := holds_of_unset hunset
    cases h.symm.trans hholds
  · intro c hdisc
    obtain ⟨_, hholds⟩ := holds_of_discloses hdisc
    cases h.symm.trans hholds

section

variable (hrole : host.role = .acceptor)
include hrole

theorem approval_secrecy {request session seq stage}
    (h : s.approval host task request session seq stage input = some out) :
    Secrecy s (.approval request session seq stage) input out := by
  unfold approval at h
  split at h
  case h_1 | h_2 | h_8 | h_10 => split at h <;> cases h <;> exact secrecy_of_holds_eq_none rfl
  case h_5 | h_9 =>
    cases h
    exact secrecy_of_holds_eq_none rfl
  · split at h
    · cases h
      refine secrecy_of_holds_eq_none ?_
      simp only [Task.goes, hrole]
      rfl
    · cases h
      exact secrecy_of_holds_eq_none rfl
  · cases h
    refine ⟨?_, ?_, nofun⟩
    · rintro _ _ ⟨⟩
      exact .inr ⟨rfl, rfl⟩
    · rintro _ ⟨⟩
      exact ⟨rfl, rfl⟩
  · split at h
    · cases h
      exact ⟨fun _ _ heq => .inl heq, nofun, nofun⟩
    · cases h
      exact secrecy_of_holds_eq_none rfl
  · rename_i challenge
    split at h
    · rename_i hcan
      cases h
      refine ⟨fun _ _ heq => .inl heq, nofun, ?_⟩
      intro c heq
      refine ⟨request.transferId, ?_, rfl, hcan⟩
      rw [show challenge = some c from heq]
      rfl
    · cases h
      exact secrecy_of_holds_eq_none rfl
  · cases h

theorem onAccept_secrecy [DecidableEq Fp] {ctx bytes} {stage}
    (h : s.onAccept host task ctx id bytes stage input = some out) :
    Secrecy s (.onAccept ctx id bytes stage) input out := by
  unfold onAccept at h
  split at h
  · split at h
    case h_1 | h_2 =>
      cases h
      exact secrecy_of_holds_eq_none rfl
    · rename_i hdial
      cases hrole.symm.trans hdial
  · cases h
    refine ⟨?_, ?_, nofun⟩
    · rintro _ _ ⟨⟩
      exact .inr ⟨rfl, rfl⟩
    · rintro _ ⟨⟩
      exact ⟨rfl, rfl⟩
  · cases h
    exact secrecy_of_holds_eq_none rfl
  · split at h
    · cases h
      exact ⟨fun _ _ heq => .inl heq, nofun, nofun⟩
    · cases h
      exact secrecy_of_holds_eq_none rfl
  · split at h
    · rename_i hcan
      split at h
      · cases h
        refine ⟨fun _ _ heq => .inl heq, nofun, ?_⟩
        rintro _ ⟨⟩
        exact ⟨id, rfl, rfl, hcan⟩
      · rename_i hdial
        cases hrole.symm.trans hdial
    · cases h
      exact secrecy_of_holds_eq_none rfl
  · cases h
    exact secrecy_of_holds_eq_none rfl
  · cases h

theorem advance_secrecy [DecidableEq Fp] (h : s.advance host task input = some out) :
    Secrecy s task.job input out := by
  have hlead := (advance_advanced h).leads
  cases hout : out.task.job with
  | approval =>
    rw [hout] at hlead
    unfold advance at h
    split at h <;> rename_i hjob <;> rw [hjob] at hlead ⊢
    case h_3 => exact approval_secrecy hrole h
    all_goals exact hlead.elim
  | onAccept =>
    rw [hout] at hlead
    unfold advance at h
    split at h <;> rename_i hjob <;> rw [hjob] at hlead ⊢
    case h_4 => exact onAccept_secrecy hrole h
    all_goals exact hlead.elim
  | _ => exact secrecy_of_holds_eq_none (by rw [hout]; rfl)

theorem dials_of_advance [DecidableEq Fp] (h : s.advance host task input = some out)
    (hdials : task.job.dials = false) :
    out.task.job.dials = false ∧ ∀ task' ∈ out.spawned, task'.job.dials = false := by
  have hadvan := advance_advanced h
  refine ⟨?_, ?_⟩
  · have hlead := hadvan.leads
    cases hout : out.task.job with
    | dial =>
      rw [hout] at hlead
      cases hjob : task.job with
      | dial =>
        rw [hjob] at hdials
        cases hdials
      | _ =>
        rw [hjob] at hlead
        exact hlead.elim
    | onReady =>
      rw [hout] at hlead
      unfold advance at h
      split at h <;> rename_i hjob <;> rw [hjob] at hlead hdials
      case h_5 =>
        unfold onReady at h
        split at h
        · rw [hrole] at h
          cases h
          cases hout
        · cases hdials
        · cases h
      all_goals exact hlead.elim
    | _ => rfl
  · intro task' htask'
    cases hadvan.spawned task' htask' with
    | approval => rfl
    | dial _ hcase =>
      rcases hcase with hdial | ⟨_, _, _, hjob⟩
      · cases hrole.symm.trans hdial
      · rw [hjob] at hdials
        cases hdials

end

end Secrecy

variable {job : Job Fp}

theorem holds_of_starts (h : job.Starts) : job.holds = none ∧ job.dials = false := by
  cases h <;> exact ⟨rfl, rfl⟩

theorem holds_of_spawned (h : Spawned host job task) :
    task.job.holds = none ∧ task.opened = none := by
  cases h <;> exact ⟨rfl, rfl⟩

variable [DecidableEq Fp]

def disclosed (s : TransferManager Fp) (c : StreamChallenge) : Bool :=
  s.sent.any (fun m => m.2.challenge = some c.bytes)

def passes (host : Host Fp) (s : TransferManager Fp) : Job Fp → Option (TransferRecord Fp)
  | .acceptStream peer profile id mac .checking => (s.checkStream host id peer profile mac).toOption
  | _ => none

/-- A challenge that is drawn is new, and nobody has the MAC of a challenge that was not sent. -/
def Unforged (host : Host Fp) (s : TransferManager Fp) : Action Fp → Prop
  | .proceed i input => (∀ c ∈ input.drawn, c ∉ s.drawn) ∧
      ∀ task ∈ s.tasks[i]?, ∀ r ∈ s.passes host task.job, ∀ c ∈ r.challenge, s.disclosed c
  | _ => True

instance (host : Host Fp) (s : TransferManager Fp) (a : Action Fp) :
    Decidable (s.Unforged host a) := by
  unfold Unforged
  induction a using Action.casesOn <;> infer_instance

section Steps

def Out (s : TransferManager Fp) (c : StreamChallenge) : Prop :=
  s.disclosed c ∨ ∃ task ∈ s.tasks, task.job.discloses = some c

theorem holds_step (hrole : host.role = .acceptor) (h : Stepped host s a t)
    (htask : t.tasks[j]? = some task) (hholds : task.job.holds = some (id, c)) :
    (∃ task₀, s.tasks[j]? = some task₀ ∧ task₀.job.holds = some (id, c)) ∨
      a = .proceed j (.generated (some c)) ∧ c ∈ t.drawn := by
  refine h.forall_getElem (P := fun j task => task.job.holds = some (id, c) →
    (∃ task₀, s.tasks[j]? = some task₀ ∧ task₀.job.holds = some (id, c)) ∨
    a = .proceed j (.generated (some c)) ∧ c ∈ t.drawn) ?_ ?_ ?_ j task htask hholds
  · intro j task htask _ hholds
    exact .inl ⟨task, htask, hholds⟩
  · intro j _ _ hstart _ hholds
    cases (holds_of_starts hstart).1.symm.trans hholds
  · rintro i _ task _ rfl hslot hadv rfl
    refine ⟨?_, ?_⟩
    · intro hholds
      rcases (advance_secrecy hrole hadv).holds id c hholds with hold | ⟨rfl, heff⟩
      · exact .inl ⟨task, hslot, hold⟩
      · refine .inr ⟨rfl, ?_⟩
        rw [heff]
        exact mem_append_right _ (mem_singleton.mpr rfl)
    · intro j task' htask' hholds
      cases (holds_of_spawned ((advance_advanced hadv).spawned task' htask')).1.symm.trans hholds

theorem unset_step (hrole : host.role = .acceptor) (h : Stepped host s a t)
    (htask : t.tasks[j]? = some task) (hunset : task.job.unset = some c) :
    s.tasks[j]? = some task ∧ (∀ input, a ≠ .proceed j input) ∨
      a = .proceed j (.generated (some c)) := by
  refine h.forall_getElem (P := fun j task => task.job.unset = some c →
    s.tasks[j]? = some task ∧ (∀ input, a ≠ .proceed j input) ∨
    a = .proceed j (.generated (some c))) ?_ ?_ ?_ j task htask hunset
  · intro j _ htask hne _
    exact .inl ⟨htask, hne⟩
  · intro j _ _ hstart _ hunset
    obtain ⟨_, hholds⟩ := holds_of_unset hunset
    cases (holds_of_starts hstart).1.symm.trans hholds
  · rintro i _ _ _ rfl _ hadv rfl
    refine ⟨?_, ?_⟩
    · intro hunset
      obtain ⟨rfl, -⟩ := (advance_secrecy hrole hadv).unset c hunset
      exact .inr rfl
    · intro j task' htask' hunset
      obtain ⟨_, hholds⟩ := holds_of_unset hunset
      cases (holds_of_spawned ((advance_advanced hadv).spawned task' htask')).1.symm.trans hholds

theorem stored_step (hquiet : ∀ task ∈ s.tasks, task.job.dials = false)
    (hmade : ∀ task ∈ s.tasks, task.job.Made) (h : Stepped host s a t)
    (hr : t.transfers.get id = some r) (hc : r.challenge = some c) :
    (∃ r₀, s.transfers.get id = some r₀ ∧ r₀.challenge = some c) ∨ ∃ i input task out,
      Proceeds host s a i input task out ∧ task.job.unset = some c ∧
      task.job.holds = some (id, c) := by
  rcases h.before hr with ⟨i, input, task, -, htask, hr', -⟩ | ⟨e, r₀, he, hr₀, halt⟩
  · cases (new_of_inserts hr' (hmade task (mem_of_getElem? htask))).2.1.symm.trans hc
  rcases halt.challenge with hsame | hnone | ⟨_, rfl, hset⟩ | ⟨_, rfl⟩
  · exact .inl ⟨r₀, hr₀, hsame.symm.trans hc⟩
  · cases hnone.symm.trans hc
  · cases hset.symm.trans hc
    obtain ⟨i, input, task, out, hproc, -, horig, -⟩ := he.proceeds nofun
    have hdials := hquiet task (mem_of_getElem? hproc.slot)
    exact .inr ⟨i, input, task, out, hproc, holds_of_challenges hdials horig⟩
  · obtain ⟨i, input, task, out, hproc, -, horig, -⟩ := he.proceeds nofun
    rw [hc] at horig
    exact .inr ⟨i, input, task, out, hproc, holds_of_records horig⟩

theorem disclosed_step (h : Stepped host s a t) (hc : t.disclosed c) : s.Out c := by
  cases h with
  | environment | starts | forgets => exact .inl hc
  | @proceeds i _ task out htask hadv =>
    have horig := (advance_advanced hadv).origin
    cases heff : out.effect with
    | send session message =>
      rw [heff] at hc horig
      change (s.sent ++ [(session, message)]).any _ at hc
      rw [any_append, Bool.or_eq_true] at hc
      rcases hc with hc | hc
      · exact .inl hc
      · simp only [any_cons, any_nil, Bool.or_false, decide_eq_true_eq] at hc
        exact .inr ⟨task, mem_of_getElem? htask, horig c hc⟩
    | _ =>
      rw [heff] at hc
      exact .inl hc

theorem out_step (hrole : host.role = .acceptor) (h : Stepped host s a t) (hc : t.Out c) :
    s.Out c ∨ ∃ i input task out id, Proceeds host s a i input task out ∧
      task.job.holds = some (id, c) ∧ out.effect = .transition id .transferring none ∧
      s.canTransition id .transferring := by
  rcases hc with hc | ⟨task, htask, hc⟩
  · exact .inl (disclosed_step h hc)
  refine h.forall_tasks (P := fun task => task.job.discloses = some c → s.Out c ∨
    ∃ i input task out id, Proceeds host s a i input task out ∧ task.job.holds = some (id, c) ∧
    out.effect = .transition id .transferring none ∧
    s.canTransition id .transferring) ?_ ?_ ?_ task htask hc
  · intro j task htask _ hc
    exact .inl (.inr ⟨task, mem_of_getElem? htask, hc⟩)
  · intro _ _ hstart _ hc
    obtain ⟨_, hholds⟩ := holds_of_discloses hc
    cases (holds_of_starts hstart).1.symm.trans hholds
  · rintro i input task out rfl hslot hadv rfl
    refine ⟨?_, ?_⟩
    · intro hc
      obtain ⟨id, hholds, heff, hcan⟩ := (advance_secrecy hrole hadv).discloses c hc
      exact .inr ⟨i, input, task, out, id, ⟨rfl, hslot, hadv⟩, hholds, heff, hcan⟩
    · intro task' htask' hc
      obtain ⟨_, hholds⟩ := holds_of_discloses hc
      cases (holds_of_spawned ((advance_advanced hadv).spawned task' htask')).1.symm.trans hholds

theorem drawn_step (h : Stepped host s a t) (hc : c ∈ s.drawn) : c ∈ t.drawn := by
  cases h with
  | environment | starts | forgets => exact hc
  | @proceeds i _ _ out =>
    cases heff : out.effect with
    | draw => exact mem_append_left _ hc
    | _ => exact hc

end Steps

section Secret

/-- Where a challenge is: drawn before it is anywhere, with one call until it is in a record,
in the record of that call only, and out only when its transfer is activated. A transfer whose
stream was opened has no challenge that is out. -/
structure Secret (s : TransferManager Fp) : Prop where
  numbered : s.Numbered
  made : ∀ task ∈ s.tasks, task.job.Made
  quiet : ∀ task ∈ s.tasks, task.job.dials = false
  held : ∀ task ∈ s.tasks, ∀ id c, task.job.holds = some (id, c) → c ∈ s.drawn
  stored : ∀ id r c, s.transfers.get id = some r → r.challenge = some c → c ∈ s.drawn
  shown : ∀ c, s.Out c → c ∈ s.drawn
  alone : ∀ (i : Nat) task c, s.tasks[i]? = some task →
    task.job.unset = some c → (∀ (j : Nat) (task' : Task Fp) id, s.tasks[j]? = some task' →
    task'.job.holds = some (id, c) → j = i) ∧
    (∀ id r, s.transfers.get id = some r → r.challenge ≠ some c) ∧ ¬ s.Out c
  own : ∀ task ∈ s.tasks, ∀ id c, task.job.holds = some (id, c) →
    ∀ id' r, s.transfers.get id' = some r → r.challenge = some c → id' = id
  known : ∀ task ∈ s.tasks, ∀ n, task.opened = some n → 0 < s.recorded n
  spent : ∀ task ∈ s.tasks, ∀ id r, s.transfers.get id = some r → task.opened = some r.seq →
    r.state.isActivated ∧ ∀ c, r.challenge = some c → ¬ s.Out c
  once : ∀ n, s.tasks.countP (fun task => task.opened = some n) ≤ 1

variable (hrole : host.role = .acceptor) (hunf : s.Unforged host a) (h : Stepped host s a t)
  (hs : s.Secret)

include hrole h hs in
theorem step_held (htask : task ∈ t.tasks) (hholds : task.job.holds = some (id, c)) :
    c ∈ t.drawn := by
  obtain ⟨j, hj⟩ := mem_iff_getElem?.mp htask
  rcases holds_step hrole h hj hholds with ⟨task₀, htask₀, hholds₀⟩ | ⟨-, hdrawn⟩
  · exact drawn_step h (hs.held task₀ (mem_of_getElem? htask₀) id c hholds₀)
  · exact hdrawn

include h hs in
theorem step_stored (hr : t.transfers.get id = some r) (hc : r.challenge = some c) :
    c ∈ s.drawn := by
  rcases stored_step hs.quiet hs.made h hr hc with ⟨r₀, hr₀, hc₀⟩
    | ⟨i, _, task, _, hproc, -, hholds⟩
  · exact hs.stored id r₀ c hr₀ hc₀
  · exact hs.held task (mem_of_getElem? hproc.slot) id c hholds

include hrole h hs in
theorem step_shown (hc : t.Out c) : c ∈ s.drawn := by
  rcases out_step hrole h hc with hc | ⟨i, _, task, _, id, hproc, hholds, -⟩
  · exact hs.shown c hc
  · exact hs.held task (mem_of_getElem? hproc.slot) id c hholds

include hunf in
theorem fresh_draw (ha : a = .proceed i (.generated (some c))) : c ∉ s.drawn := by
  subst ha
  exact hunf.1 c rfl

include hrole hunf h hs in
theorem step_alone (htask : t.tasks[i]? = some task) (hunset : task.job.unset = some c) :
    (∀ (j : Nat) (task' : Task Fp) id, t.tasks[j]? = some task' → task'.job.holds = some (id, c) →
      j = i) ∧ (∀ id r, t.transfers.get id = some r → r.challenge ≠ some c) ∧ ¬ t.Out c := by
  rcases unset_step hrole h htask hunset with ⟨htask₀, hne⟩ | ha
  · obtain ⟨hhold, hrec, hout⟩ := hs.alone i task c htask₀ hunset
    have hdrawn : c ∈ s.drawn := by
      obtain ⟨id, hholds⟩ := holds_of_unset hunset
      exact hs.held task (mem_of_getElem? htask₀) id c hholds
    have hstep : ∀ {j input task' out id}, Proceeds host s a j input task' out →
        task'.job.holds ≠ some (id, c) := by
      intro j input task' _ id hproc hholds
      obtain rfl := hhold j task' id hproc.slot hholds
      exact hne input hproc.action
    refine ⟨?_, ?_, ?_⟩
    · intro j _ id htask' hholds
      rcases holds_step hrole h htask' hholds with ⟨task₀, htask₀', hholds₀⟩ | ⟨ha, -⟩
      · exact hhold j task₀ id htask₀' hholds₀
      · exact absurd hdrawn (fresh_draw hunf ha)
    · intro id r hr hc
      rcases stored_step hs.quiet hs.made h hr hc with ⟨r₀, hr₀, hc₀⟩
        | ⟨j, _, _, _, hproc, -, hholds⟩
      · exact hrec id r₀ hr₀ hc₀
      · exact hstep hproc hholds
    · intro hc
      rcases out_step hrole h hc with hc | ⟨j, _, _, _, _, hproc, hholds, -⟩
      · exact hout hc
      · exact hstep hproc hholds
  · have hnew := fresh_draw hunf ha
    refine ⟨?_, ?_, ?_⟩
    · intro j _ id htask' hholds
      rcases holds_step hrole h htask' hholds with ⟨task₀, htask₀', hholds₀⟩ | ⟨ha', -⟩
      · exact absurd (hs.held task₀ (mem_of_getElem? htask₀') id c hholds₀) hnew
      · rw [ha] at ha'
        cases ha'
        rfl
    · intro _ r hr hc
      exact hnew (step_stored h hs hr hc)
    · intro hc
      exact hnew (step_shown hrole h hs hc)

include hrole hunf h hs in
theorem step_own (htask : task ∈ t.tasks) (hholds : task.job.holds = some (id, c)) {id'}
    (hr : t.transfers.get id' = some r) (hc : r.challenge = some c) : id' = id := by
  obtain ⟨j, hj⟩ := mem_iff_getElem?.mp htask
  rcases holds_step hrole h hj hholds with ⟨task₀, htask₀, hholds₀⟩ | ⟨ha, -⟩
  · rcases stored_step hs.quiet hs.made h hr hc with ⟨r₀, hr₀, hc₀⟩ | ⟨i, _, task', _, hproc,
      hunset, hholds'⟩
    · exact hs.own task₀ (mem_of_getElem? htask₀) id c hholds₀ id' r₀ hr₀ hc₀
    -- the call that puts the challenge there is the only one that holds it
    obtain rfl := (hs.alone i task' c hproc.slot hunset).1 j task₀ id htask₀ hholds₀
    obtain rfl := mem_unique hproc.slot htask₀
    cases hholds'.symm.trans hholds₀
    rfl
  · exact absurd (step_stored h hs hr hc) (fresh_draw hunf ha)

theorem opened_of_advance (hadv : s.advance host task input = some out)
    (hdials : task.job.dials = false) :
    out.task.opened = task.opened ∨ ∃ id r, s.passes host task.job = some r ∧
      s.transfers.get id = some r ∧ r.state = .transferring ∧ r.challenge.isSome ∧
      out.task.opened = some r.seq ∧ out.effect = .consume id := by
  have hnoted := advance_noted hadv
  unfold advance at hadv
  split at hadv <;> rename_i hjob <;> rw [hjob] at hdials hnoted ⊢
  case h_13 =>
    unfold acceptStream at hadv
    split at hadv
    case h_1 | h_3 | h_4 => cases hadv; exact .inl rfl
    · split at hadv
      · cases hadv; exact .inl rfl
      rename_i id mac _ r hcheck
      cases hadv
      obtain ⟨hget, hstate, _, hchal, -⟩ := checkStream_ok hcheck
      refine .inr ⟨_, r, ?_, hget, hstate, by rw [hchal]; rfl, rfl, rfl⟩
      rw [passes, hcheck]
      rfl
    · cases hadv
  case h_14 => cases hdials
  all_goals
    rcases hnoted.opened with hsame | ⟨_, r, hid, -⟩
    · exact .inl hsame
    · cases hid

include h hs in
theorem opened_step {n} (htask : t.tasks[j]? = some task) (hopen : task.opened = some n) :
    (∃ task₀, s.tasks[j]? = some task₀ ∧ task₀.opened = some n) ∨ ∃ id r,
      s.transfers.get id = some r ∧ r.seq = n ∧ r.state = .transferring ∧
      t.transfers.get id = some { r with challenge := none, streamActive := true } := by
  refine h.forall_getElem (P := fun j task => task.opened = some n →
    (∃ task₀, s.tasks[j]? = some task₀ ∧ task₀.opened = some n) ∨ ∃ id r,
    s.transfers.get id = some r ∧ r.seq = n ∧ r.state = .transferring ∧
    t.transfers.get id = some { r with challenge := none, streamActive := true }) ?_ ?_ ?_ j task
    htask hopen
  · intro j task htask _ hopen
    exact .inl ⟨task, htask, hopen⟩
  · intro j _ _ _ _ hopen
    cases hopen
  · rintro i _ task _ rfl hslot hadv rfl
    refine ⟨?_, ?_⟩
    · intro hopen
      rcases opened_of_advance hadv (hs.quiet task (mem_of_getElem? hslot)) with
        hsame | ⟨id, r, -, hr, hstate, -, hnew, heff⟩
      · exact .inl ⟨task, hslot, hsame ▸ hopen⟩
      refine .inr ⟨id, r, hr, some.inj (hnew.symm.trans hopen), hstate, ?_⟩
      rw [heff]
      refine (s.get_update id id _).trans ?_
      rw [hr, map_some, if_pos rfl]
    · intro j task' htask' hopen
      cases (holds_of_spawned ((advance_advanced hadv).spawned task' htask')).2.symm.trans hopen

include h hs in
theorem step_known {n} (htask : task ∈ t.tasks) (hopen : task.opened = some n) :
    0 < t.recorded n := by
  obtain ⟨j, hj⟩ := mem_iff_getElem?.mp htask
  rcases opened_step h hs hj hopen with ⟨task₀, htask₀, hopen₀⟩ | ⟨_, r, hr, rfl, -⟩
  · exact (hs.known task₀ (mem_of_getElem? htask₀) n hopen₀).trans_le (recorded_step h n)
  · exact (recorded_pos (mem_records_of_get hr)).trans_le (recorded_step h _)

include hrole h hs in
theorem not_out_step {r₀ : TransferRecord Fp} (hr₀ : s.transfers.get id = some r₀)
    (hact : r₀.state.isActivated) (hhidden : ∀ c, r₀.challenge = some c → ¬ s.Out c)
    (hr : t.transfers.get id = some r) (hc : r.challenge = some c) : ¬ t.Out c := by
  intro hout
  rcases stored_step hs.quiet hs.made h hr hc with ⟨r₁, hr₁, hc₁⟩ | ⟨i, input, task, out, hproc,
    hunset, hholds⟩
  · obtain rfl := mem_unique hr₁ hr₀
    rcases out_step hrole h hout with hbef | ⟨i, _, task, _, id', hproc, hholds, -, hcan⟩
    · exact hhidden c hc₁ hbef
    · obtain rfl := hs.own task (mem_of_getElem? hproc.slot) id' c hholds id r₁ hr₁ hc₁
      rw [canTransition, hr₁, any_some] at hcan
      exact (TransferState.isActivated_of_canTransitionTo hcan hact).2 rfl
  · rcases out_step hrole h hout with hbef | ⟨_, _, _, _, _, hproc', -, heff, -⟩
    · exact (hs.alone i task c hproc.slot hunset).2.2 hbef
    · obtain ⟨-, rfl, -⟩ := hproc.unique hproc'
      cases (enters_of_unset hunset).symm.trans (from_of_advance hproc'.advances heff).1

include hrole h hs in
theorem step_spent (htask : task ∈ t.tasks) (hr : t.transfers.get id = some r)
    (hopen : task.opened = some r.seq) :
    r.state.isActivated ∧ ∀ c, r.challenge = some c → ¬ t.Out c := by
  obtain ⟨j, hj⟩ := mem_iff_getElem?.mp htask
  rcases h.before hr with ⟨i, _, _, -, htask', hr', -⟩ | ⟨e, r₀, -, hr₀, halt⟩
  · have hfree := hs.numbered.apart_inserting (mem_of_getElem? htask') hr'
    rcases opened_step h hs hj hopen with ⟨task₀, htask₀, hopen₀⟩ | ⟨_, _, hr₀, hseq, -⟩
    · have hknown := hs.known task₀ (mem_of_getElem? htask₀) _ hopen₀
      omega
    · have hknown := recorded_pos (mem_records_of_get hr₀)
      rw [hseq] at hknown
      omega
  · have hseq := halt.evolves.seq
    rcases opened_step h hs hj hopen with ⟨task₀, htask₀, hopen₀⟩ | ⟨id', r₁, hr₁, hseq₁,
      hstate, hcons⟩
    · rw [hseq] at hopen₀
      obtain ⟨hact, hhidden⟩ := hs.spent task₀ (mem_of_getElem? htask₀) id r₀ hr₀ hopen₀
      refine ⟨?_, fun c hc => not_out_step hrole h hs hr₀ hact hhidden hr hc⟩
      rcases halt.evolves.moves with ⟨hsame, -⟩ | ⟨hcan, -⟩
      · exact hsame ▸ hact
      · exact (TransferState.isActivated_of_canTransitionTo hcan hact).1
    · obtain rfl : r₁ = r₀ := hs.numbered.unique (mem_records_of_get hr₀) (mem_records_of_get hr₁)
        (hseq₁.trans hseq)
      obtain rfl : id' = id := (hs.numbered.keyed id' r₁ hr₁).symm.trans
        (hs.numbered.keyed id r₁ hr₀)
      have heq := some.inj (hcons.symm.trans hr)
      rw [← heq]
      refine ⟨?_, nofun⟩
      rw [hstate]
      rfl

include hunf h hs in
theorem step_once (n : Nat) : t.tasks.countP (fun task => task.opened = some n) ≤ 1 := by
  have honce := hs.once n
  cases h with
  | environment | forgets => exact honce
  | starts => simpa [spawn] using honce
  | @proceeds i _ task out htask hadv =>
    have hset := countP_set_add htask (fun task => task.opened = some n) out.task
    have hspawn : out.spawned.countP (fun task => task.opened = some n) = 0 := by
      refine countP_eq_zero.mpr ?_
      intro task' htask'
      simp [(holds_of_spawned ((advance_advanced hadv).spawned task' htask')).2]
    simp only [resume, apply_tasks, countP_append, hspawn]
    rcases opened_of_advance hadv (hs.quiet task (mem_of_getElem? htask)) with
      hsame | ⟨id, r, hpass, hr, -, hsome, hnew, -⟩
    · rw [hsame] at hset
      omega
    by_cases hn : r.seq = n
    · subst hn
      -- a stream that passes shows a challenge that is out, so none was opened before
      have hzero : s.tasks.countP (fun task => task.opened = some r.seq) = 0 := by
        refine countP_eq_zero.mpr ?_
        intro task' htask' hopen
        obtain ⟨c, hc⟩ := isSome_iff_exists.mp hsome
        have hdiscl := hunf.2 task htask r hpass c hc
        exact (hs.spent task' htask' id r hr (of_decide_eq_true hopen)).2 c hc (.inl hdiscl)
      split at hset <;> split at hset <;> omega
    · have hoth : ¬ out.task.opened = some n := by
        rw [hnew]
        exact fun heq => hn (some.inj heq)
      simp only [hoth, decide_false, Bool.false_eq_true, if_false] at hset
      omega

include hrole hunf h hs in
theorem step_secret : t.Secret := by
  refine ⟨step_numbered h hs.numbered, step_made h hs.made, h.forall_tasks ?_ ?_ ?_, ?_, ?_, ?_, ?_,
    ?_, ?_, ?_, step_once hunf h hs⟩
  · intro j task htask _
    exact hs.quiet task (mem_of_getElem? htask)
  · intro _ _ hstart _
    exact (holds_of_starts hstart).2
  · rintro i _ task _ rfl hslot hadv rfl
    exact dials_of_advance hrole hadv (hs.quiet task (mem_of_getElem? hslot))
  · intro _ htask _ c hholds
    exact step_held hrole h hs htask hholds
  · intro _ r c hr hc
    exact drawn_step h (step_stored h hs hr hc)
  · intro c hc
    exact drawn_step h (step_shown hrole h hs hc)
  · intro i _ c htask hunset
    exact step_alone hrole hunf h hs htask hunset
  · intro _ htask _ c hholds _ r hr hc
    exact step_own hrole hunf h hs htask hholds hr hc
  · intro _ htask n hopen
    exact step_known h hs htask hopen
  · intro _ htask _ r hr hopen
    exact step_spent hrole h hs htask hr hopen

end Secret

omit [DecidableEq Fp] in
theorem secret_start (disk : Disk) : (start disk : TransferManager Fp).Secret := by
  have htasks : ∀ {P : Task Fp → Prop}, ∀ task ∈ (start disk : TransferManager Fp).tasks, P task :=
    fun task h => absurd h not_mem_nil
  have htable : ∀ id r, (start disk : TransferManager Fp).transfers.get id ≠ some r := by
    intro id r hr
    cases (SortedMap.get_empty id).symm.trans hr
  refine ⟨numbered_start disk, htasks, htasks, htasks, ?_, ?_, ?_, htasks, htasks, htasks,
    fun n => Nat.zero_le 1⟩
  · intro id r c hr
    exact absurd hr (htable id r)
  · rintro c (hc | ⟨_, htask, -⟩)
    · cases hc
    · exact absurd htask not_mem_nil
  · intro i _ c htask
    cases htask

end TransferManager

end OmniBridge.Desktop.Files
