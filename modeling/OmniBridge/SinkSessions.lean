import OmniBridge.Slots
import OmniBridge.SinkSlot

/-! Sessions of one peer that replace each other. The sender, the connected flag
and the count of superseded sessions are written at different moments, so what
the newest session finds depends on where the older detaches stand. -/

namespace OmniBridge.Sink

variable {Id : Type} [LinearOrder Id]

namespace Slot

structure SameSessions (s t : Slot Id) : Prop where
  generation : t.generation = s.generation
  outbound : t.outbound = s.outbound
  sessions : t.sessions = s.sessions
  connected : t.state.connected = s.state.connected
  supersededSessions : t.state.supersededSessions = s.state.supersededSessions

theorem start_sameSessions (s) (e : Reading) (item : Item Id Nat) :
    SameSessions s (s.start e item) := by
  fun_cases Slot.start s e item <;> exact ⟨rfl, rfl, rfl, rfl, rfl⟩

theorem proceed_sameSessions (x : Texts) (e : Reading) (s) (task : Task Id) :
    SameSessions s (s.proceed x e task) := by
  fun_cases Slot.proceed x e s task <;> exact ⟨rfl, rfl, rfl, rfl, rfl⟩

end Slot

def Action.isSession : Action Id → Bool
  | .attachGeneration | .attachSender _ | .attachState _ | .detachCheck _ | .detachSender _
  | .detachState _ => true
  | _ => false

namespace Slot

theorem step_sameSessions {x} {s t : Slot Id} {a} (h : s.step x a = some t)
    (ha : a.isSession = false) : SameSessions s t := by
  cases step_cases h with
  | attachGeneration | attachSender | attachState | detachCheck | detachSender | detachState =>
    cases ha
  | receive i policy control =>
    obtain ⟨_, _, _, heq⟩ := s.receive_eq i policy control
    rw [heq]
    exact ⟨rfl, rfl, rfl, rfl, rfl⟩
  | start e item rest =>
    have hh := start_sameSessions { s with batch := rest } e item
    exact ⟨hh.generation, hh.outbound, hh.sessions, hh.connected, hh.supersededSessions⟩
  | proceed e => exact proceed_sameSessions x e s s.task
  | noteClosed =>
    unfold noteClosed
    split <;> exact ⟨rfl, rfl, rfl, rfl, rfl⟩
  | timerConnected =>
    unfold timerConnected
    split <;> exact ⟨rfl, rfl, rfl, rfl, rfl⟩
  | askRoles =>
    unfold askRoles
    split <;> exact ⟨rfl, rfl, rfl, rfl, rfl⟩
  | _ => exact ⟨rfl, rfl, rfl, rfl, rfl⟩

theorem step_outbound {x} {s t : Slot Id} {a} (h : s.step x a = some t)
    (ha : ∀ i, a ≠ .attachSender i) : t.outbound = s.outbound ∨ t.outbound = none := by
  by_cases hs : a.isSession = false
  · exact .inl (step_sameSessions h hs).outbound
  cases step_cases h with
  | attachSender i => exact absurd rfl (ha i)
  | detachSender => exact .inr rfl
  | detachCheck =>
    unfold detachCheck
    split <;> exact .inl rfl
  | attachGeneration | attachState | detachState => exact .inl rfl
  | _ => exact absurd rfl hs

end Slot

namespace Stage

/-- The detach has passed its check and has not written everything yet. -/
def isLeaving : Stage → Bool
  | .passed | .cleared _ => true
  | _ => false

def isHere : Stage → Bool
  | .opened | .stored | .attached => true
  | _ => false

end Stage

def Timer.lapsed (generation : Nat) : Timer → Prop
  | .armed g => g < generation
  | .checked => False
  | .done => True

theorem Timer.lapsed_mono {g g' : Nat} {timer : Timer} (hg : g ≤ g') (h : timer.lapsed g) :
    timer.lapsed g' := by
  cases timer with
  | armed => exact Nat.lt_of_lt_of_le h hg
  | checked => exact h
  | done => trivial

namespace Slot

def attachedCount (s : Slot Id) : Nat := s.sessions.countP (fun stage => stage = .attached)

def leavingCount (s : Slot Id) : Nat := s.sessions.countP Stage.isLeaving

/-- Every session that is attached or leaving is the one the slot is connected to
or has been counted as superseded, and at most one is leaving. -/
structure Balanced (s : Slot Id) : Prop where
  count : s.state.supersededSessions + s.state.connected.toNat = s.attachedCount + s.leavingCount
  leaving : s.leavingCount ≤ s.state.connected.toNat

/-- The generation is not at its last value. -/
def Numbered (s : Slot Id) : Action Id → Prop
  | .attachGeneration => s.generation + 1 < 2 ^ 64
  | _ => True

/-- A session begins to attach only when no detach is between its check and the clearing of the
sender, and no timer between its two checks; it records its state only once every detach has
recorded its own. A detach does not pass its check in the middle of a newer attach, and an older
attach does not store its sender over a newer one. -/
def Orderly (s : Slot Id) : Action Id → Prop
  | .attachGeneration => s.generation + 1 < 2 ^ 64 ∧ .passed ∉ s.sessions ∧ .checked ∉ s.timers
  | .attachSender i => i + 1 = s.sessions.length ∨
      s.sessions.getLast? ≠ some .stored ∧ s.sessions.getLast? ≠ some .attached
  | .attachState i => (s.state.connected → s.state.supersededSessions < u32Max) ∧
      (i + 1 = s.sessions.length → ∀ stage ∈ s.sessions, stage.isLeaving = false)
  | .detachCheck i => s.state.supersededSessions = 0 → i + 1 = s.sessions.length ∨
      s.sessions.getLast? ≠ some .opened ∧ s.sessions.getLast? ≠ some .stored
  | _ => True

instance (s : Slot Id) (a : Action Id) : Decidable (s.Orderly a) := by
  unfold Orderly
  induction a using Action.casesOn <;> infer_instance

variable {i : Nat} {s t : Slot Id}

theorem SameSessions.balanced (h : SameSessions s t) (hb : Balanced s) : Balanced t := by
  obtain ⟨hcount, hleaving⟩ := hb
  constructor
  · rw [h.supersededSessions, h.connected, attachedCount, leavingCount, h.sessions]
    exact hcount
  · rw [h.connected, leavingCount, h.sessions]
    exact hleaving

theorem counts_of_set {old new} (h : s.sessions[i]? = some old)
    (ht : t.sessions = s.sessions.set i new) (a b c d : Nat)
    (hab : (if old = .attached then 1 else 0, if new = .attached then 1 else 0) = (a, b))
    (hcd : (if old.isLeaving then 1 else 0, if new.isLeaving then 1 else 0) = (c, d)) :
    t.attachedCount + a = s.attachedCount + b ∧ t.leavingCount + c = s.leavingCount + d := by
  cases hab
  cases hcd
  unfold attachedCount leavingCount
  rw [ht]
  constructor
  · simpa using countP_set_add h (fun stage => decide (stage = .attached)) new
  · exact countP_set_add h Stage.isLeaving new

theorem Balanced.set {old new} (hb : Balanced s) (hi : s.sessions[i]? = some old)
    (ht : t.sessions = s.sessions.set i new) (a b c d : Nat)
    (hab : (if old = .attached then 1 else 0, if new = .attached then 1 else 0) = (a, b))
    (hcd : (if old.isLeaving then 1 else 0, if new.isLeaving then 1 else 0) = (c, d))
    (hconn : t.state.connected = s.state.connected)
    (hsup : t.state.supersededSessions + a + c = s.state.supersededSessions + b + d)
    (hleav : s.leavingCount + d ≤ s.state.connected.toNat + c) : Balanced t := by
  have hcounts := counts_of_set hi ht a b c d hab hcd
  have hcount := hb.count
  constructor
  all_goals
    rw [hconn]
    omega

theorem step_balanced {x} {a : Action Id} (hok : s.Orderly a) (h : s.step x a = some t)
    (hb : Balanced s) : Balanced t := by
  by_cases ha : a.isSession = false
  · exact (step_sameSessions h ha).balanced hb
  have hcount := hb.count
  have hleaving := hb.leaving
  cases step_cases h with
  | attachGeneration =>
    have hatt : s.attachGeneration.attachedCount = s.attachedCount :=
      by simp [attachedCount, attachGeneration]
    have hleav : s.attachGeneration.leavingCount = s.leavingCount := by
      simp [leavingCount, attachGeneration, Stage.isLeaving]
    exact ⟨by rw [hatt, hleav]; exact hcount, by rw [hleav]; exact hleaving⟩
  | attachSender i hi => exact hb.set hi rfl 0 0 0 0 rfl rfl rfl rfl hb.leaving
  | attachState i hi =>
    have hcounts := counts_of_set (t := s.attachState i) hi rfl 0 1 0 0 rfl rfl
    have hconn : (s.attachState i).state.connected := rfl
    have hsup : (s.attachState i).state.supersededSessions =
        if s.state.connected then bump u32Max s.state.supersededSessions
        else s.state.supersededSessions := rfl
    cases hc : s.state.connected with
    | true =>
      have hroom := hok.1 hc
      rw [hc, if_pos rfl, bump] at hsup
      rw [hc, Bool.toNat_true] at hcount hleaving
      constructor
      all_goals
        rw [hconn, Bool.toNat_true]
        omega
    | false =>
      rw [hc, if_neg (by simp)] at hsup
      rw [hc, Bool.toNat_false] at hcount hleaving
      constructor
      all_goals
        rw [hconn, Bool.toNat_true]
        omega
  | detachCheck i hi =>
    unfold detachCheck
    split
    · next hpos => exact hb.set hi rfl 1 0 0 0 rfl rfl rfl (Nat.sub_add_cancel hpos) hb.leaving
    · -- nothing is owed, so this session is the only one attached and none is leaving
      refine hb.set hi rfl 1 0 0 1 rfl rfl rfl rfl ?_
      have hpos : 0 < s.attachedCount :=
        List.countP_pos_iff.mpr ⟨.attached, List.mem_of_getElem? hi, decide_eq_true rfl⟩
      omega
  | detachSender i hi =>
    exact hb.set hi rfl 0 0 1 1 rfl rfl rfl rfl (Nat.succ_le_succ hb.leaving)
  | detachState i generation hi =>
    have hone := s.state.connected.toNat_le
    have hcounts := counts_of_set (t := s.detachState i generation) hi rfl 0 0 1 0 rfl rfl
    constructor
    · change s.state.supersededSessions + 0 = _
      omega
    · omega
  | _ => exact absurd rfl ha

theorem getLast?_here {old new : Stage} (h : s.sessions[i]? = some old)
    (hnew : new.isHere → old.isHere) (hlast : (s.sessions.set i new).getLast?.any Stage.isHere) :
    s.sessions.getLast?.any Stage.isHere := by
  rw [getLast?_set h] at hlast
  split at hlast
  · rename_i hi
    rw [List.getLast?_eq_getElem?, ← hi, Nat.add_sub_cancel, h]
    exact hnew hlast
  · exact hlast

/-- While the newest session is there, no detach is about to clear the sender. From storing its
sender on, that sender is the slot's; once it is attached, the slot is connected and no detach
is about to say otherwise. -/
structure Served (s : Slot Id) : Prop where
  here : s.sessions.getLast?.any Stage.isHere → .passed ∉ s.sessions
  sender : s.sessions.getLast? = some .stored ∨ s.sessions.getLast? = some .attached →
    s.outbound = some (s.sessions.length - 1)
  live : s.sessions.getLast? = some .attached →
    s.state.connected ∧ ∀ stage ∈ s.sessions, stage.isLeaving = false

theorem SameSessions.served (h : SameSessions s t) (hs : Served s) : Served t := by
  constructor
  · rw [h.sessions]
    exact hs.here
  · rw [h.sessions, h.outbound]
    exact hs.sender
  · rw [h.sessions, h.connected]
    exact hs.live

theorem served_of_away (h : t.sessions.getLast?.any Stage.isHere = false) : Served t := by
  have haway {stage : Stage} (hl : t.sessions.getLast? = some stage) : stage.isHere = false := by
    rwa [hl] at h
  refine ⟨fun hl => absurd (hl.symm.trans h) (by simp), ?_,
    fun hl => absurd (haway hl) (by simp [Stage.isHere])⟩
  rintro (hl | hl) <;> exact absurd (haway hl) (by simp [Stage.isHere])

theorem served_of_set {old new} (hs : Served s) (hi : s.sessions[i]? = some old)
    (ht : t.sessions = s.sessions.set i new) (hnew : new.isHere → old.isHere)
    (hstay : new.isLeaving = false)
    (hsend : t.sessions.getLast? = some .stored ∨ t.sessions.getLast? = some .attached →
      t.outbound = some (s.sessions.length - 1))
    (hlive : t.sessions.getLast? = some .attached → t.state.connected ∧ ∀ stage ∈ s.sessions,
      stage.isLeaving = false) : Served t := by
  constructor
  · intro hl hin
    rw [ht] at hl hin
    rcases List.mem_or_eq_of_mem_set hin with hin | rfl
    · exact hs.here (getLast?_here hi hnew hl) hin
    · cases hstay
  · intro hl
    rw [ht, List.length_set]
    exact hsend hl
  · intro hl
    rw [ht]
    exact ⟨(hlive hl).1, forall_mem_set (hlive hl).2 hstay⟩

theorem served_of_over {old} (hs : Served s) (hi : s.sessions[i]? = some old)
    (ht : t.sessions = s.sessions.set i .over) (hout : t.outbound = s.outbound)
    (hconn : s.sessions.getLast? = some .attached → t.state.connected = s.state.connected) :
    Served t := by
  have hlast {stage : Stage} : t.sessions.getLast? = some stage → stage ≠ .over →
      s.sessions.getLast? = some stage := by
    rw [ht]
    exact fun hl hne => (getLast?_of_set hi hl hne).2
  refine served_of_set hs hi ht nofun rfl (fun hl => ?_) (fun hl => ?_)
  · rw [hout]
    exact hs.sender (hl.imp (hlast · nofun) (hlast · nofun))
  · have hl := hlast hl nofun
    rw [hconn hl]
    exact hs.live hl

theorem getLast?_of_newest {stage} (h : s.sessions[i]? = some stage)
    (hnew : i + 1 = s.sessions.length) : s.sessions.getLast? = some stage := by
  rw [List.getLast?_eq_getElem?, ← hnew, Nat.add_sub_cancel, h]

theorem two_attached (h : s.sessions[i]? = some .attached) (hnew : i + 1 ≠ s.sessions.length)
    (hlast : s.sessions.getLast? = some .attached) : 2 ≤ s.attachedCount := by
  have hcounts := counts_of_set (t := s.withStage i .over) h rfl 1 0 0 0 rfl rfl
  have hlast' : (s.withStage i .over).sessions.getLast? = some .attached := by
    rw [← hlast]
    exact (getLast?_set h .over).trans (if_neg hnew)
  have hpos : 0 < (s.withStage i .over).attachedCount := by
    rw [attachedCount, List.countP_pos_iff]
    exact ⟨.attached, List.mem_of_getLast? hlast', by simp⟩
  omega

/-- A detach that passes its check is the newest session's own, or the newest is gone. -/
theorem away_of_passed (hok : s.Orderly (.detachCheck i)) (hb : Balanced s)
    (hi : s.sessions[i]? = some .attached) (hsup : ¬ 0 < s.state.supersededSessions) :
    (s.sessions.set i .passed).getLast?.any Stage.isHere = false := by
  rw [getLast?_set hi]
  split
  · rfl
  rename_i hnew
  obtain ⟨hopen, hstor⟩ := (hok (Nat.eq_zero_of_not_pos hsup)).resolve_left hnew
  cases hlast : s.sessions.getLast? with
  | none => rfl
  | some stage =>
    cases stage with
    | opened => exact absurd hlast hopen
    | stored => exact absurd hlast hstor
    | attached =>
      have htwo := two_attached hi hnew hlast
      have hcount := hb.count
      have hone := s.state.connected.toNat_le
      omega
    | _ => rfl

theorem step_served {x} {a : Action Id} (hok : s.Orderly a) (h : s.step x a = some t)
    (hb : Balanced s) (hs : Served s) : Served t := by
  by_cases ha : a.isSession = false
  · exact (step_sameSessions h ha).served hs
  cases step_cases h with
  | attachGeneration =>
    have hlast : s.attachGeneration.sessions.getLast? = some .opened := List.getLast?_concat ..
    refine ⟨fun _ => ?_, fun hl => ?_, hlast ▸ nofun⟩
    · simpa [attachGeneration] using hok.2.1
    · rcases hl with hl | hl <;> cases hlast.symm.trans hl
  | attachSender i hi =>
    have hlast : (s.attachSender i).sessions.getLast? = _ := getLast?_set hi .stored
    by_cases hnew : i + 1 = s.sessions.length
    · rw [if_pos hnew] at hlast
      refine served_of_set hs hi rfl (fun _ => rfl) rfl (fun _ => ?_) (hlast ▸ nofun)
      change some i = _
      rw [← hnew, Nat.add_sub_cancel]
    rw [if_neg hnew] at hlast
    obtain ⟨hstor, hattach⟩ := hok.resolve_left hnew
    refine served_of_set hs hi rfl (fun _ => rfl) rfl ?_ ?_
    · rw [hlast]
      exact fun hl => absurd hl (not_or.mpr ⟨hstor, hattach⟩)
    · rw [hlast]
      exact fun hl => absurd hl hattach
  | attachState i hi =>
    have hlast : (s.attachState i).sessions.getLast? = _ := getLast?_set hi .attached
    by_cases hnew : i + 1 = s.sessions.length
    · have hsend := hs.sender (.inl (getLast?_of_newest hi hnew))
      exact served_of_set hs hi rfl (fun _ => rfl) rfl (fun _ => hsend) (fun _ => ⟨rfl, hok.2 hnew⟩)
    rw [if_neg hnew] at hlast
    refine served_of_set hs hi rfl (fun _ => rfl) rfl ?_ ?_
    · rw [hlast]
      exact hs.sender
    · rw [hlast]
      exact fun hl => ⟨rfl, (hs.live hl).2⟩
  | detachCheck i hi =>
    by_cases hsup : 0 < s.state.supersededSessions
    · have ht : s.detachCheck i = (s.withState s.state.spend).withStage i .over := if_pos hsup
      rw [ht]
      exact served_of_over hs hi rfl rfl (fun _ => rfl)
    · have ht : s.detachCheck i = s.withStage i .passed := if_neg hsup
      rw [ht]
      exact served_of_away (away_of_passed hok hb hi hsup)
  | detachSender i hi =>
    refine served_of_away (Bool.eq_false_iff.mpr fun hl => ?_)
    exact hs.here (getLast?_here hi (by simp [Stage.isHere]) hl) (List.mem_of_getElem? hi)
  | detachState i generation hi =>
    refine served_of_over hs hi rfl rfl (fun hl => ?_)
    have hin : Stage.cleared generation ∈ s.sessions := List.mem_of_getElem? hi
    exact absurd ((hs.live hl).2 _ hin) (by simp [Stage.isLeaving])
  | _ => exact absurd rfl ha

theorem step_timers {x} {a : Action Id} (h : s.step x a = some t) :
    t.timers = s.timers ∨ (∃ i g, s.timers[i]? = some (.armed g) ∧ t = s.timerGeneration i g) ∨
      (∃ i, t.timers = s.timers.set i .done) ∨ ∃ i g, a = .detachState i ∧
      t = s.detachState i g := by
  cases step_cases h with
  | timerGeneration i g hi => exact .inr (.inl ⟨i, g, hi, rfl⟩)
  | timerConnected i =>
    refine .inr (.inr (.inl ⟨i, ?_⟩))
    unfold timerConnected
    split <;> rfl
  | detachState i g => exact .inr (.inr (.inr ⟨i, g, rfl, rfl⟩))
  | receive i policy control =>
    obtain ⟨_, _, _, heq⟩ := s.receive_eq i policy control
    rw [heq]
    exact .inl rfl
  | start e item rest => fun_cases Slot.start { s with batch := rest } e item <;> exact .inl rfl
  | proceed e => fun_cases Slot.proceed x e s s.task <;> exact .inl rfl
  | detachCheck =>
    unfold detachCheck
    split <;> exact .inl rfl
  | noteClosed =>
    unfold noteClosed
    split <;> exact .inl rfl
  | askRoles =>
    unfold askRoles
    split <;> exact .inl rfl
  | _ => exact .inl rfl

theorem step_generation {x} {a : Action Id} (h : s.step x a = some t) :
    t.generation = s.generation ∨ a = .attachGeneration ∧ t = s.attachGeneration := by
  by_cases ha : a.isSession = false
  · exact .inl (step_sameSessions h ha).generation
  cases step_cases h with
  | attachGeneration => exact .inr ⟨rfl, rfl⟩
  | detachCheck =>
    unfold detachCheck
    split <;> exact .inl rfl
  | attachSender | attachState | detachSender | detachState => exact .inl rfl
  | _ => exact absurd rfl ha

theorem generation_le {x} {a : Action Id} (hnum : s.Numbered a) (h : s.step x a = some t) :
    s.generation ≤ t.generation := by
  rcases step_generation h with heq | ⟨rfl, rfl⟩
  · exact heq.ge
  · change _ ≤ (s.generation + 1) % 2 ^ 64
    rw [Nat.mod_eq_of_lt hnum]
    exact Nat.le_succ _

def Lapsed (n : Nat) (s : Slot Id) : Prop :=
  n ≤ s.timers.length ∧ ∀ timer ∈ s.timers.take n, timer.lapsed s.generation

/-- A timer that has lapsed stays so: its generation does not come again. -/
theorem step_lapsed {x n} {a : Action Id} (hnum : s.Numbered a) (h : s.step x a = some t)
    (hs : s.Lapsed n) : t.Lapsed n := by
  obtain ⟨hn, hs⟩ := hs
  have hmono : ∀ timer ∈ s.timers.take n, timer.lapsed t.generation :=
    fun timer ht => Timer.lapsed_mono (generation_le hnum h) (hs timer ht)
  rcases step_timers h with heq | ⟨i, g, hi, rfl⟩ | ⟨i, heq⟩ | ⟨i, g, -, rfl⟩
  · rw [Lapsed, heq]
    exact ⟨hn, hmono⟩
  · refine ⟨hn.trans_eq (List.length_set ..).symm, ?_⟩
    change ∀ timer ∈ (s.timers.set i _).take n, _
    rw [List.take_set]
    by_cases hin : i < n
    · have hg : g < s.generation :=
        hs (.armed g) (List.mem_of_getElem? ((List.getElem?_take_of_lt hin).trans hi))
      rw [if_pos hg.ne']
      exact forall_mem_set hmono trivial
    · rw [List.set_eq_of_length_le (by rw [List.length_take]; omega)]
      exact hmono
  · rw [Lapsed, heq, List.length_set, List.take_set]
    exact ⟨hn, forall_mem_set hmono trivial⟩
  · change n ≤ (s.timers ++ _).length ∧ ∀ timer ∈ (s.timers ++ _).take n, _
    rw [List.take_append_of_le_length hn, List.length_append]
    exact ⟨Nat.le_add_right_of_le hn, hmono⟩

/-- No timer or detach knows a generation to come. While the newest session is there, every timer
has lapsed, and a detach that is still to arm one knows an older generation only. -/
structure Dated (s : Slot Id) : Prop where
  armed : ∀ g, .armed g ∈ s.timers → g ≤ s.generation
  cleared : ∀ g, .cleared g ∈ s.sessions → g ≤ s.generation
  here : s.sessions.getLast?.any Stage.isHere → s.Lapsed s.timers.length ∧
    ∀ g, .cleared g ∈ s.sessions → g < s.generation

theorem Dated.set {old new} (hs : Dated s) (hi : s.sessions[i]? = some old)
    (ht : t.sessions = s.sessions.set i new) (hnew : new.isHere → old.isHere)
    (hkept : new.isLeaving → new = .passed) (htim : t.timers = s.timers)
    (hgen : t.generation = s.generation) : Dated t := by
  have hclear (g : Nat) (hg : .cleared g ∈ t.sessions) : .cleared g ∈ s.sessions := by
    rw [ht] at hg
    rcases List.mem_or_eq_of_mem_set hg with hg | rfl
    · exact hg
    · cases hkept rfl
  refine ⟨?_, fun g hg => hgen ▸ hs.cleared g (hclear g hg), fun hl => ?_⟩
  · rw [htim, hgen]
    exact hs.armed
  · rw [ht] at hl
    obtain ⟨hlapsed, hold⟩ := hs.here (getLast?_here hi hnew hl)
    rw [Lapsed, htim, hgen]
    exact ⟨hlapsed, fun g hg => hold g (hclear g hg)⟩

theorem dated_attachGeneration (hok : s.Orderly .attachGeneration) (hs : Dated s) :
    Dated s.attachGeneration := by
  obtain ⟨hroom, -, hcheck⟩ := hok
  have hgen : s.attachGeneration.generation = s.generation + 1 := Nat.mod_eq_of_lt hroom
  have hold (g : Nat) (hg : .cleared g ∈ s.attachGeneration.sessions) : g < s.generation + 1 := by
    rcases List.mem_append.mp hg with hg | hg
    · exact Nat.lt_succ_of_le (hs.cleared g hg)
    · cases List.mem_singleton.mp hg
  refine ⟨fun g hg => ?_, fun g hg => ?_, fun _ => ⟨⟨le_rfl, fun timer ht => ?_⟩, ?_⟩⟩
  · rw [hgen]
    exact (hs.armed g hg).trans (Nat.le_succ _)
  · rw [hgen]
    exact (hold g hg).le
  · rw [hgen]
    have ht := List.mem_of_mem_take ht
    cases timer with
    | armed g => exact Nat.lt_succ_of_le (hs.armed g ht)
    | checked => exact hcheck ht
    | done => trivial
  · rw [hgen]
    exact hold

theorem dated_detachSender (hserv : Served s) (hi : s.sessions[i]? = some .passed) (hs : Dated s) :
    Dated (s.detachSender i) := by
  refine ⟨hs.armed, fun g hg => ?_, fun hl => ?_⟩
  · rcases List.mem_or_eq_of_mem_set hg with hg | hg
    · exact hs.cleared g hg
    · exact (Stage.cleared.inj hg).le
  · exact absurd (List.mem_of_getElem? hi)
      (hserv.here (getLast?_here hi (by simp [Stage.isHere]) hl))

theorem dated_detachState {g} (hi : s.sessions[i]? = some (.cleared g)) (hs : Dated s) :
    Dated (s.detachState i g) := by
  have hin : Stage.cleared g ∈ s.sessions := List.mem_of_getElem? hi
  have hkept (k : Nat) (hk : .cleared k ∈ s.sessions.set i .over) : .cleared k ∈ s.sessions :=
    (List.mem_or_eq_of_mem_set hk).resolve_right nofun
  refine ⟨fun k hk => ?_, fun k hk => hs.cleared k (hkept k hk), fun hl => ?_⟩
  · rcases List.mem_append.mp hk with hk | hk
    · exact hs.armed k hk
    · exact Timer.armed.inj (List.mem_singleton.mp hk) ▸ hs.cleared g hin
  · obtain ⟨⟨-, hlapsed⟩, hold⟩ := hs.here (getLast?_here hi (by simp [Stage.isHere]) hl)
    rw [List.take_length] at hlapsed
    refine ⟨⟨le_rfl, ?_⟩, fun k hk => hold k (hkept k hk)⟩
    rw [List.take_length]
    exact forall_mem_concat hlapsed (hold g hin)

theorem timers_of_quiet {x} {a : Action Id} (h : s.step x a = some t) (ha : a.isSession = false) :
    t.timers.length = s.timers.length ∧ ∀ g, .armed g ∈ t.timers → .armed g ∈ s.timers := by
  rcases step_timers h with heq | ⟨i, g, -, rfl⟩ | ⟨i, heq⟩ | ⟨i, g, rfl, -⟩
  · rw [heq]
    exact ⟨rfl, fun _ => id⟩
  · refine ⟨List.length_set .., fun k hk => ?_⟩
    rcases List.mem_or_eq_of_mem_set hk with hk | hk
    · exact hk
    · split at hk <;> cases hk
  · rw [heq]
    exact ⟨List.length_set .., fun k hk => (List.mem_or_eq_of_mem_set hk).resolve_right nofun⟩
  · cases ha

theorem step_dated {x} {a : Action Id} (hok : s.Orderly a) (h : s.step x a = some t)
    (hserv : Served s) (hs : Dated s) : Dated t := by
  by_cases ha : a.isSession = false
  · obtain ⟨hlen, harmed⟩ := timers_of_quiet h ha
    have hsame := step_sameSessions h ha
    have hnum : s.Numbered a := by cases a <;> trivial
    constructor
    · rw [hsame.generation]
      exact fun g hg => hs.armed g (harmed g hg)
    · rw [hsame.sessions, hsame.generation]
      exact hs.cleared
    · rw [hsame.sessions, hsame.generation, hlen]
      exact fun hl => (hs.here hl).imp_left (step_lapsed hnum h)
  cases step_cases h with
  | attachGeneration => exact dated_attachGeneration hok hs
  | attachSender i hi => exact hs.set hi rfl (fun _ => rfl) (by decide) rfl rfl
  | attachState i hi => exact hs.set hi rfl (fun _ => rfl) (by decide) rfl rfl
  | detachCheck i hi =>
    unfold detachCheck
    split <;> exact hs.set hi rfl (by decide) (by decide) rfl rfl
  | detachSender i hi => exact dated_detachSender hserv hi hs
  | detachState i g hi => exact dated_detachState hi hs
  | _ => exact absurd rfl ha

def Fires (x : Texts) (s : Slot Id) (timer : Nat) : Prop :=
  ∃ t, s.step x (.timerConnected timer) = some t ∧ t.queue ≠ s.queue

/-- The newest session, attached and not leaving, is the one the slot serves, and none of the
timers that older detaches have armed offers `CloseAll` at any later time. -/
def NewestServed (x : Texts) (s : Slot Id) : Prop :=
  s.sessions.getLast? = some .attached →
    s.state.connected ∧ s.outbound = some (s.sessions.length - 1) ∧
    ∀ timer < s.timers.length, ∀ as t, run (step x) s as = some t →
      Meets (step x) Numbered s as → ¬ t.Fires x timer

theorem not_fires {x n timer} (hs : s.Lapsed n) (hin : timer < n) : ¬ s.Fires x timer := by
  rintro ⟨t, h, -⟩
  cases step_cases h with
  | timerConnected _ hi =>
    exact hs.2 .checked (List.mem_of_getElem? ((List.getElem?_take_of_lt hin).trans hi))

/-- The session that attached last keeps its peer's slot. -/
theorem newest_session_served (x : Texts) {as : List (Action Id)} {s : Slot Id}
    (hrun : run (step x) {} as = some s) (hok : Meets (step x) Orderly {} as) :
    s.NewestServed x := by
  have hstep : ∀ (s : Slot Id) (a : Action Id) (t : Slot Id), s.Orderly a → s.step x a = some t →
      Balanced s ∧ Served s ∧ Dated s → Balanced t ∧ Served t ∧ Dated t := by
    rintro s a t hok h ⟨hb, hs, hd⟩
    exact ⟨step_balanced hok h hb, step_served hok h hb hs, step_dated hok h hs hd⟩
  have hinit : Balanced ({} : Slot Id) ∧ Served ({} : Slot Id) ∧ Dated ({} : Slot Id) :=
    ⟨⟨rfl, le_rfl⟩, ⟨by simp, by simp, by simp⟩, ⟨by simp, by simp, by simp⟩⟩
  obtain ⟨-, hserv, hdated⟩ := run_invariant (step x) hstep hrun hok hinit
  intro hlast
  refine ⟨(hserv.live hlast).1, hserv.sender (.inr hlast), fun timer hin bs t hlater hnum => ?_⟩
  -- every timer of this state has lapsed, and none of them comes back
  have hlapsed : s.Lapsed s.timers.length := (hdated.here (by rw [hlast]; rfl)).1
  exact not_fires (run_invariant (step x) (fun _ _ _ => step_lapsed) hlater hnum hlapsed) hin

def displacedReconnect : List (Action Nat) :=
  [.attachGeneration, .attachSender 0, .attachState 0, .detachCheck 0, .detachSender 0,
    .detachState 0, .attachGeneration, .attachSender 1, .attachState 1, .attachGeneration,
    .attachSender 2, .attachState 2, .detachCheck 1]

theorem newest_session_served_displaced :
    ∃ s, run (step .plain) {} displacedReconnect = some s ∧ s.sessions = [.over, .over, .attached] ∧
      s.timers = [.armed 1] ∧ s.NewestServed .plain := by
  refine ⟨_, rfl, rfl, rfl, ?_⟩
  have hrun : run (step .plain) {} displacedReconnect = some _ := rfl
  exact newest_session_served .plain hrun (by decide)

/-- Session 1 attaches while the detach of session 0 is past its check. The detach
then takes the sender and the connection away, and its timer closes every mirror
of the live session. -/
theorem newest_session_torn_down :
    ∃ s : Slot Nat, run (step .plain) {} [.attachGeneration, .attachSender 0, .attachState 0,
      .detachCheck 0, .attachGeneration, .attachSender 1, .attachState 1, .detachSender 0,
      .detachState 0, .timerGeneration 0, .timerConnected 0] = some s ∧
      s.sessions = [.over, .attached] ∧ s.state.connected = false ∧ s.outbound = none ∧
      s.queue.items.map Item.work = [.announceRoles, .closeAll .graceExpired] ∧
      ¬ s.NewestServed .plain :=
  ⟨_, rfl, rfl, rfl, rfl, rfl, fun h => absurd (h rfl).1 (by decide)⟩

end Slot

end OmniBridge.Sink
