import OmniBridge.SinkSessions

/-! Role announcements. The worker takes the channel, reads the availability and
records the announcement in separate steps, while sessions attach and the
notification server comes and goes. -/

namespace OmniBridge.Sink

open List Option Slot LocalRoles

variable {Id : Type} [LinearOrder Id]

/-- The manager's availability, and the calls of `set_available` that have
changed it and not yet reached the slot. -/
structure Manager (Id : Type) [LinearOrder Id] where
  slot : Slot Id := {}
  available : Bool := true
  passes : List Bool := []

inductive Move (Id : Type) where
  | slot (a : Action Id)
  | setAvailable (available : Bool)
  | pass (i : Nat)

/-- The worker reads the manager's own availability, and the slot hears of the
server from `set_available` alone. -/
def Action.agrees (available reporting : Bool) : Action Id → Bool
  | .work e => e.available = available && e.reporting = reporting
  | .serverGone | .serverBack => false
  | _ => true

def Task.isAnnouncing : Task Id → Bool
  | .announcing _ _ _ | .announced _ _ => true
  | _ => false

def Task.announcingTo : Task Id → Option Nat
  | .announcing session _ _ => some session
  | _ => none

def Outgoing.announcement : Outgoing Id → Option NotificationRoles
  | .roles announcement => some announcement
  | _ => none

namespace Slot

variable {x : Texts} {e : Reading} {s : Slot Id} {task : Task Id}

theorem proceed_localRoles (h : task.isAnnouncing = false) :
    (s.proceed x e task).state.localRoles = s.state.localRoles := by
  fun_cases proceed x e s task
  case case2 => cases h
  all_goals rfl

omit [LinearOrder Id] in
theorem Rest.task_isAnnouncing (rest : Rest Id) : rest.task.isAnnouncing = false := by
  cases rest <;> rfl

theorem proceed_isAnnouncing (h : task.isAnnouncing = false) (hidle : task ≠ .idle) :
    (s.proceed x e task).task.isAnnouncing = false := by
  fun_cases proceed x e s task
  case case1 => exact absurd rfl hidle
  case case2 => cases h
  all_goals first
    | rfl
    | exact Rest.task_isAnnouncing _
    | (simp only [withTask]; split <;> first | rfl | (split <;> rfl))

theorem step_localRoles {t a} (h : s.step x a = some t) (hs : a.isSession = false)
    (hw : ∀ e, a ≠ .work e) : t.state.localRoles = s.state.localRoles := by
  cases step_cases h with
  | attachGeneration | attachSender | attachState | detachCheck | detachSender | detachState =>
    cases hs
  | drain e | start e | proceed e => exact absurd rfl (hw e)
  | receive i policy control =>
    obtain ⟨_, _, _, heq⟩ := s.receive_eq i policy control
    rw [heq]
  | timerConnected =>
    unfold timerConnected
    split <;> rfl
  | noteClosed =>
    unfold noteClosed
    split <;> rfl
  | askRoles =>
    unfold askRoles
    split <;> rfl
  | _ => rfl

theorem start_isAnnouncing {item} (hidle : s.task = .idle) (h : item.work ≠ .announceRoles) :
    (s.start e item).task.isAnnouncing = false := by
  fun_cases start s e item
  case case1 => exact absurd ‹item.work = .announceRoles› h
  case case2 => exact absurd ‹item.work = .announceRoles› h
  all_goals first
    | rfl
    | exact hidle ▸ rfl

theorem proceed_announcing (x) (e) (s : Slot Id) (session) (available reporting) :
    (s.state.localRoles.announced = some (desired available reporting) ∧
      (s.proceed x e (.announcing session available reporting)).task = .idle) ∨ ∃ announcement,
      announcement.roles = wire (desired available reporting) ∧
      (s.proceed x e (.announcing session available reporting)).task = .announced session
      announcement := by
  by_cases hl : s.state.localRoles.announced = some (desired available reporting)
  · exact .inl ⟨hl, by simp [proceed, announce_of_same hl, withTask]⟩
  · refine .inr ⟨⟨wire (desired available reporting), bump u32Max s.state.localRoles.epoch⟩,
      rfl, ?_⟩
    simp [proceed, announce_of_changed hl, withTask]

def announcedTo (s : Slot Id) (session : Nat) : List NotificationRoles :=
  (s.sent.filter (·.1 = session)).filterMap (·.2.announcement)

def toldRoles (s : Slot Id) (session : Nat) : Option (List Int) :=
  (s.announcedTo session).getLast?.map NotificationRoles.roles

theorem announcedTo_proceed (x) (e) (s : Slot Id)
    (h : ∀ session announcement, task ≠ .announced session announcement) (session) :
    (s.proceed x e task).announcedTo session = s.announcedTo session := by
  have hout : (task.outgoing.toList.filter (·.1 = session)).filterMap (·.2.announcement) = [] := by
    cases task with
    | announced session announcement => exact absurd rfl (h session announcement)
    | dismissing target =>
      by_cases hto : target = session <;> simp [Task.outgoing, Outgoing.announcement, hto]
    | _ => rfl
  rw [announcedTo, proceed_sent, filter_append, filterMap_append, hout, append_nil]
  rfl

def newest (s : Slot Id) : Nat := s.sessions.length - 1

end Slot

namespace Manager

def step (x : Texts) (reporting : Bool) (s : Manager Id) : Move Id → Option (Manager Id)
  | .slot a =>
    if a.agrees s.available reporting then (s.slot.step x a).map (fun t => { s with slot := t })
      else none
  | .setAvailable available =>
    if s.available = available then some s
    else some { s with available := available, passes := s.passes ++ [available] }
  | .pass i =>
    s.passes[i]?.bind (fun available =>
      (s.slot.step x (if available then .serverBack else .serverGone)).map
        (fun t => { s with slot := t, passes := s.passes.eraseIdx i }))

def Due (s : Manager Id) : Prop :=
  (∃ y ∈ s.slot.batch ++ s.slot.queue.items, y.work = .announceRoles) ∨ s.passes ≠ []

/-- What the newest session has been told, or will be. `told` says that what is
recorded as announced has reached it, or is about to; `due` that what is recorded
is what this device can do, or that it will be recorded again. -/
structure Informed (reporting : Bool) (s : Manager Id) : Prop where
  sender : s.slot.sessions.getLast? = some .stored ∨ s.slot.sessions.getLast? = some .attached →
    s.slot.outbound = some s.slot.newest
  reads : ∀ session available r, s.slot.task = .announcing session available r → r = reporting
  taken : s.slot.sessions.getLast? = some .attached → ∀ session available r,
    s.slot.task = .announcing session available r → session = s.slot.newest ∧
    (available = s.available ∨ s.Due)
  due : s.slot.sessions.getLast? = some .attached →
    s.slot.state.localRoles.announced = some (desired s.available reporting) ∨ s.Due ∨
      ∃ session available r, s.slot.task = .announcing session available r
  told : s.slot.sessions.getLast? = some .attached → ∀ roles, s.slot.state.localRoles.announced =
    some roles → (∃ announcement, s.slot.task = .announced s.slot.newest announcement ∧
    announcement.roles = wire roles) ∨
    (∀ session announcement, s.slot.task ≠ .announced session announcement) ∧
    s.slot.toldRoles s.slot.newest = some (wire roles)

/-- Attaches and detaches do not cross, the queue is below its ceiling, and the
worker does not stand between taking the channel of an older session and recording
the announcement when the newest session records its state. -/
def Clear (s : Manager Id) (m : Move Id) : Prop :=
  s.slot.queue.items.length < MAX_QUEUED_WORK ∧
    match m with
    | .slot (.attachSender i) =>
      i + 1 = s.slot.sessions.length ∨
        s.slot.sessions.getLast? ≠ some .stored ∧ s.slot.sessions.getLast? ≠ some .attached
    | .slot (.attachState i) =>
      i + 1 = s.slot.sessions.length → ∀ session ∈ s.slot.task.announcingTo, session = i
    | .slot (.detachSender _) =>
      s.slot.sessions.getLast? ≠ some .stored ∧ s.slot.sessions.getLast? ≠ some .attached
    | .slot (.detachState _) => s.slot.sessions.getLast? ≠ some .attached
    | _ => True

variable {i : Nat} {reporting : Bool} {x : Texts} {t : Slot Id} {s : Manager Id}

theorem due_of_offer {slot} {q : WorkQueue Id Nat} {mark} (hlt : q.items.length < MAX_QUEUED_WORK)
    (h : slot.queue = (q.offer ⟨.announceRoles, mark⟩).1) (passes : List Bool) :
    Due { s with slot := slot, passes := passes } := by
  obtain ⟨y, hy, hw⟩ := WorkQueue.offer_announceRoles_of_lt hlt mark
  refine .inl ⟨y, mem_append_right _ ?_, hw⟩
  rw [h]
  exact hy

namespace Informed

variable (hs : Informed reporting s)
include hs

theorem of_same {t} (hsessions : t.slot.sessions = s.slot.sessions)
    (hout : t.slot.outbound = s.slot.outbound) (htask : t.slot.task = s.slot.task)
    (hlocal : t.slot.state.localRoles = s.slot.state.localRoles) (hsent : t.slot.sent = s.slot.sent)
    (havail : t.available = s.available ∨ t.Due) (hdue : s.Due → t.Due) : Informed reporting t := by
  have hnew : t.slot.newest = s.slot.newest := by rw [newest, newest, hsessions]
  refine ⟨?_, ?_, ?_, ?_, ?_⟩
  · rw [hsessions, hout, hnew]
    exact hs.sender
  · rw [htask]
    exact hs.reads
  · rw [hsessions, htask, hnew]
    intro hlast session available r ht
    obtain ⟨hc, hav⟩ := hs.taken hlast session available r ht
    refine ⟨hc, ?_⟩
    rcases havail with heq | hd
    · rw [heq]
      exact hav.imp_right hdue
    · exact .inr hd
  · rw [hsessions, hlocal, htask]
    intro hlast
    rcases havail with heq | hd
    · rw [heq]
      exact (hs.due hlast).imp_right (Or.imp_left hdue)
    · exact .inr (.inl hd)
  · rw [hsessions, hlocal, htask, hnew, toldRoles, announcedTo, hsent]
    exact hs.told

theorem bystander {a} (hlt : s.slot.queue.items.length < MAX_QUEUED_WORK)
    (h : s.slot.step x a = some t) (hsess : a.isSession = false) (hw : ∀ e, a ≠ .work e) :
    Informed reporting { s with slot := t } := by
  have hsame := step_sameSessions h hsess
  obtain ⟨htask, hbat, hsent, -⟩ := step_worker h hw
  refine hs.of_same hsame.sessions hsame.outbound htask (step_localRoles h hsess hw) hsent
    (.inl rfl) ?_
  rintro (⟨y, hy, hwork⟩ | hp)
  · refine .inl ⟨y, ?_, hwork⟩
    rcases mem_append.mp hy with hy | hy
    · exact mem_append_left _ (by rw [hbat]; exact hy)
    · exact mem_append_right _ (step_keeps_pending h hlt hw hy (by simp [hwork]))
  · exact .inr hp

theorem attachState (hlt : s.slot.queue.items.length < MAX_QUEUED_WORK)
    (hi : s.slot.sessions[i]? = some .stored)
    (hclear : i + 1 = s.slot.sessions.length → ∀ session ∈ s.slot.task.announcingTo, session = i) :
    Informed reporting { s with slot := s.slot.attachState i } := by
  have hlast : (s.slot.attachState i).sessions.getLast? = _ := getLast?_set hi .attached
  have hnew : (s.slot.attachState i).newest = s.slot.newest := by
    change (s.slot.sessions.set i .attached).length - 1 = _
    rw [length_set]
    rfl
  have hdue : Due { s with slot := s.slot.attachState i } := due_of_offer hlt rfl s.passes
  refine ⟨?_, hs.reads, ?_, fun _ => .inr (.inl hdue), ?_⟩
  · intro hl
    rw [hnew]
    by_cases hn : i + 1 = s.slot.sessions.length
    · exact hs.sender (.inl (getLast?_of_newest hi hn))
    · rw [hlast, if_neg hn] at hl
      exact hs.sender hl
  · intro hl session available r htask
    refine ⟨?_, .inr hdue⟩
    change s.slot.task = _ at htask
    rw [hnew]
    by_cases hn : i + 1 = s.slot.sessions.length
    · rw [hclear hn session (by rw [htask]; rfl), newest, ← hn, Nat.add_sub_cancel]
    · rw [hlast, if_neg hn] at hl
      exact (hs.taken hl session available r htask).1
  · intro _ _ hroles
    cases hroles

theorem attachSender (hi : s.slot.sessions[i]? = some .opened)
    (hclear : i + 1 = s.slot.sessions.length ∨ s.slot.sessions.getLast? ≠ some .stored ∧
      s.slot.sessions.getLast? ≠ some .attached) :
    Informed reporting { s with slot := s.slot.attachSender i } := by
  have hnot : (s.slot.attachSender i).sessions.getLast? ≠ some .attached := by
    intro hl
    obtain ⟨hn, hl⟩ := getLast?_of_set hi hl nofun
    exact (hclear.resolve_left hn).2 hl
  refine ⟨?_, hs.reads, fun hl => absurd hl hnot, fun hl => absurd hl hnot,
    fun hl => absurd hl hnot⟩
  intro hl
  by_cases hn : i + 1 = s.slot.sessions.length
  · change some i = some ((s.slot.sessions.set i .stored).length - 1)
    rw [length_set, ← hn, Nat.add_sub_cancel]
  · have hl' := (getLast?_set hi .stored).symm.trans (hl.resolve_right hnot)
    rw [if_neg hn] at hl'
    exact absurd hl' (hclear.resolve_left hn).1

theorem drain (hbat : s.slot.batch = []) :
    Informed reporting { s with
      slot := { s.slot with batch := s.slot.queue.items, queue := s.slot.queue.drain.2 } } := by
  refine hs.of_same rfl rfl rfl rfl rfl (.inl rfl) ?_
  rintro (⟨y, hy, hwork⟩ | hp)
  · refine .inl ⟨y, ?_, hwork⟩
    simpa [hbat, WorkQueue.drain] using hy
  · exact .inr hp

theorem of_worker (hsame : SameSessions s.slot t)
    (hreads : ∀ session available r, t.task = .announcing session available r → r = reporting)
    (htaken : s.slot.sessions.getLast? = some .attached → ∀ session available r,
      t.task = .announcing session available r → session = s.slot.newest ∧
      (available = s.available ∨ Due { s with slot := t }))
    (hdue : s.slot.sessions.getLast? = some .attached →
      t.state.localRoles.announced = some (desired s.available reporting) ∨
      Due { s with slot := t } ∨ ∃ session available r, t.task = .announcing session available r)
    (htold : s.slot.sessions.getLast? = some .attached → ∀ roles,
      t.state.localRoles.announced = some roles →
      (∃ announcement, t.task = .announced s.slot.newest announcement ∧
      announcement.roles = wire roles) ∨
      (∀ session announcement, t.task ≠ .announced session announcement) ∧
      t.toldRoles s.slot.newest = some (wire roles)) : Informed reporting { s with slot := t } := by
  have hnewest : t.newest = s.slot.newest := by rw [newest, newest, hsame.sessions]
  refine ⟨?_, hreads, ?_, ?_, ?_⟩
  · rw [hsame.sessions, hsame.outbound, hnewest]
    exact hs.sender
  · rw [hsame.sessions, hnewest]
    exact htaken
  · rw [hsame.sessions]
    exact hdue
  · change t.sessions.getLast? = _ → ∀ roles, _ →
      (∃ announcement, t.task = .announced t.newest announcement ∧ _) ∨ _ ∧ t.toldRoles t.newest = _
    rw [hsame.sessions, hnewest]
    exact htold

theorem of_not_announcing (hsame : SameSessions s.slot t)
    (hlocal : t.state.localRoles = s.slot.state.localRoles)
    (hold : s.slot.task.isAnnouncing = false) (hnew : t.task.isAnnouncing = false)
    (htold : t.toldRoles s.slot.newest = s.slot.toldRoles s.slot.newest)
    (hdue : s.Due → Due { s with slot := t }) : Informed reporting { s with slot := t } := by
  have hno : ∀ session available r, t.task ≠ .announcing session available r := by
    intro _ _ r ht
    rw [ht] at hnew
    cases hnew
  refine hs.of_worker hsame (fun session available r ht => absurd ht (hno session available r))
    (fun _ session available r ht => absurd ht (hno session available r)) ?_ ?_
  · intro hlast
    rw [hlocal]
    rcases hs.due hlast with heq | hd | ⟨_, _, r, ht⟩
    · exact .inl heq
    · exact .inr (.inl (hdue hd))
    · rw [ht] at hold
      cases hold
  · rw [hlocal, htold]
    intro hlast roles hroles
    refine .inr ⟨?_, ?_⟩
    · intro _ _ ht
      rw [ht] at hnew
      cases hnew
    · rcases hs.told hlast roles hroles with ⟨_, ht, -⟩ | ⟨-, htold'⟩
      · rw [ht] at hold
        cases hold
      · exact htold'

theorem start {e item rest} (hav : e.available = s.available) (hrep : e.reporting = reporting)
    (htask : s.slot.task = .idle) (hbat : s.slot.batch = item :: rest)
    (ht : { s.slot with batch := rest }.start e item = t) :
    Informed reporting { s with slot := t } := by
  have hlocal : ({ s.slot with batch := rest }.start e item).state.localRoles =
    s.slot.state.localRoles := by
    fun_cases Slot.start { s.slot with batch := rest } e item <;> rfl
  have hwork : item.work ≠ .announceRoles →
      _ := Slot.start_isAnnouncing (s := { s.slot with batch := rest }) (e := e) htask
  obtain ⟨hqueue, hrest, hsent⟩ := Slot.start_frame { s.slot with batch := rest } e item
  have hsame' := Slot.start_sameSessions { s.slot with batch := rest } e item
  rw [ht] at hlocal hqueue hrest hsent hsame' hwork
  have hsame : Slot.SameSessions s.slot t :=
    ⟨hsame'.generation, hsame'.outbound, hsame'.sessions, hsame'.connected,
      hsame'.supersededSessions⟩
  have htold : t.toldRoles s.slot.newest = s.slot.toldRoles s.slot.newest := by
    rw [Slot.toldRoles, Slot.announcedTo, hsent]
    rfl
  by_cases hw : item.work = .announceRoles
  · have htask' : ∀ session, s.slot.outbound = some session →
        t.task = .announcing session e.available e.reporting := by
      intro _ hout
      simp [← ht, Slot.start, hw, hout, Slot.withTask]
    have hkind : ∀ session available r, t.task = .announcing session available r →
        s.slot.outbound = some session ∧ available = e.available ∧ r = e.reporting := by
      intro _ _ r hann
      cases hout : s.slot.outbound with
      | none =>
        have hidle : t.task = .idle := by simp [← ht, Slot.start, hw, hout, htask]
        cases hidle.symm.trans hann
      | some target =>
        obtain ⟨rfl, rfl, rfl⟩ := Task.announcing.inj ((htask' target hout).symm.trans hann)
        exact ⟨rfl, rfl, rfl⟩
    refine hs.of_worker hsame ?_ ?_ ?_ ?_
    · intro session available r ht
      exact (hkind session available r ht).2.2.trans hrep
    · intro hlast session available r ht
      obtain ⟨hout, rfl, -⟩ := hkind session available r ht
      exact ⟨some.inj (hout.symm.trans (hs.sender (.inr hlast))), .inl hav⟩
    · exact fun hlast => .inr (.inr ⟨_, _, _, htask' _ (hs.sender (.inr hlast))⟩)
    · intro hlast roles hroles
      rw [hlocal] at hroles
      refine .inr ⟨?_, ?_⟩
      · intro _ _ ht
        cases (htask' _ (hs.sender (.inr hlast))).symm.trans ht
      · rw [htold]
        rcases hs.told hlast roles hroles with ⟨_, ht, -⟩ | ⟨-, htold'⟩
        · cases htask.symm.trans ht
        · exact htold'
  · refine hs.of_not_announcing hsame hlocal (by rw [htask]; rfl) (hwork hw) htold ?_
    rintro (⟨y, hy, hy'⟩ | hp)
    · refine .inl ⟨y, ?_, hy'⟩
      rw [hqueue, hrest]
      rw [hbat, cons_append, mem_cons] at hy
      rcases hy with rfl | hy
      · exact absurd hy' hw
      · exact hy
    · exact .inr hp

theorem proceed {e} (htask : s.slot.task ≠ .idle) :
    Informed reporting { s with slot := s.slot.proceed x e s.slot.task } := by
  obtain ⟨hqueue, hbat⟩ := Slot.proceed_frame x e s.slot s.slot.task
  have hsame := Slot.proceed_sameSessions x e s.slot s.slot.task
  have hdue : s.Due → Due { s with slot := s.slot.proceed x e s.slot.task } := by
    rintro (⟨y, hy, hwork⟩ | hp)
    · exact .inl ⟨y, by rw [hqueue, hbat]; exact hy, hwork⟩
    · exact .inr hp
  have hquiet : (∀ session announcement, s.slot.task ≠ .announced session announcement) →
      (s.slot.proceed x e s.slot.task).toldRoles s.slot.newest = s.slot.toldRoles
      s.slot.newest := by
    intro hno
    rw [Slot.toldRoles, Slot.announcedTo_proceed x e s.slot hno]
    rfl
  cases ht : s.slot.task with
  | announcing session available r =>
    have hr := hs.reads session available r ht
    rw [ht] at hsame hdue hquiet
    have hrec : (s.slot.proceed x e (.announcing session available r)).state.localRoles.announced =
        some (desired available r) := announce_announced _ _ _
    have hcase := Slot.proceed_announcing x e s.slot session available r
    have hno : ∀ session' available' r',
        (s.slot.proceed x e (.announcing session available r)).task ≠
        .announcing session' available' r' := by
      intro _ _ _ ht'
      rcases hcase with ⟨-, hidle⟩ | ⟨_, -, hann⟩
      · cases hidle.symm.trans ht'
      · cases hann.symm.trans ht'
    refine hs.of_worker hsame (fun _ _ _ ht' => absurd ht' (hno _ _ _)) (fun _ _ _ _ ht' =>
      absurd ht' (hno _ _ _)) ?_ ?_
    · intro hlast
      rcases (hs.taken hlast session available r ht).2 with rfl | hd
      · exact .inl (hr ▸ hrec)
      · exact .inr (.inl (hdue hd))
    · intro hlast _ hroles
      obtain rfl := mem_unique hrec hroles
      obtain rfl := (hs.taken hlast session available r ht).1
      rcases hcase with ⟨hsame', hidle⟩ | ⟨announcement, hroles', hann⟩
      · refine .inr ⟨fun _ _ ht' => (by cases hidle.symm.trans ht'), ?_⟩
        rcases hs.told hlast _ hsame' with ⟨_, ht', -⟩ | ⟨-, htold⟩
        · cases ht.symm.trans ht'
        · exact htold
      · exact .inl ⟨announcement, hann, hroles'⟩
  | announced session announcement =>
    rw [ht] at hsame hdue
    refine hs.of_worker hsame nofun nofun ?_ ?_
    · intro hlast
      rcases hs.due hlast with heq | hd | ⟨_, _, _, ht'⟩
      · exact .inl heq
      · exact .inr (.inl (hdue hd))
      · cases ht.symm.trans ht'
    · intro hlast roles hroles
      refine .inr ⟨fun _ _ ht' => (by cases ht'), ?_⟩
      rcases hs.told hlast roles hroles with ⟨_, ht', hroles'⟩ | ⟨hno, -⟩
      · obtain ⟨rfl, rfl⟩ := Task.announced.inj (ht.symm.trans ht')
        simp [Slot.toldRoles, Slot.announcedTo, Slot.proceed, Outgoing.announcement, hroles']
      · exact absurd ht (hno session announcement)
  | _ =>
    rw [ht] at htask hsame hdue hquiet
    have hann : s.slot.task.isAnnouncing = false := by rw [ht]; rfl
    exact hs.of_not_announcing hsame (Slot.proceed_localRoles rfl) hann
      (Slot.proceed_isAnnouncing rfl htask) (hquiet (by simp)) hdue

theorem attachGeneration : Informed reporting { s with slot := s.slot.attachGeneration } := by
  have hlast : s.slot.attachGeneration.sessions.getLast? = some .opened := getLast?_concat ..
  refine ⟨?_, hs.reads, ?_, ?_, ?_⟩
  · rintro (hl | hl) <;> cases hlast.symm.trans hl
  all_goals
    intro hl
    cases hlast.symm.trans hl

theorem withStage {a} (hi : s.slot.sessions[i]? = some a) (b : Stage) (hstor : b ≠ .stored)
    (hatt : b ≠ .attached) : Informed reporting { s with slot := s.slot.withStage i b } := by
  have hnew : (s.slot.withStage i b).newest = s.slot.newest := congrArg (· - 1) length_set
  have hlast (hl : (s.slot.withStage i b).sessions.getLast? = some .attached) :=
    (getLast?_of_set hi hl hatt.symm).2
  refine ⟨fun hl => ?_, hs.reads, fun hl => ?_, fun hl => hs.due (hlast hl), fun hl => ?_⟩
  · rw [hnew]
    exact hs.sender (hl.imp (fun hl => (getLast?_of_set hi hl hstor.symm).2) hlast)
  · rw [hnew]
    exact hs.taken (hlast hl)
  · rw [hnew]
    exact hs.told (hlast hl)

theorem detachSender (hi : s.slot.sessions[i]? = some .passed)
    (hclear : s.slot.sessions.getLast? ≠ some .stored ∧ s.slot.sessions.getLast? ≠ some .attached) :
    Informed reporting { s with slot := s.slot.detachSender i } := by
  have hnot : (s.slot.detachSender i).sessions.getLast? ≠ some .attached :=
    fun hl => hclear.2 (getLast?_of_set hi hl nofun).2
  refine ⟨fun hl => ?_, hs.reads, fun hl => absurd hl hnot, fun hl => absurd hl hnot,
    fun hl => absurd hl hnot⟩
  exact absurd (getLast?_of_set hi (hl.resolve_right hnot) nofun).2 hclear.1

theorem slot {a} (hok : s.Clear (.slot a)) (hag : a.agrees s.available reporting)
    (h : s.slot.step x a = some t) : Informed reporting { s with slot := t } := by
  obtain ⟨hlt, hok⟩ := hok
  by_cases hsess : a.isSession
  · cases step_cases h with
    | attachGeneration => exact hs.attachGeneration
    | attachSender i hi => exact hs.attachSender hi hok
    | attachState i hi => exact hs.attachState hlt hi hok
    | detachCheck i hi =>
      unfold detachCheck
      split
      · exact { hs.withStage hi .over nofun nofun with }
      · exact hs.withStage hi .passed nofun nofun
    | detachSender i hi => exact hs.detachSender hi hok
    | detachState i _ hi =>
      have hnot : (s.slot.sessions.set i .over).getLast? ≠ some .attached := fun hl =>
        hok (getLast?_of_set hi hl nofun).2
      exact { hs.withStage hi .over nofun nofun with
        due := fun hl => absurd hl hnot, told := fun hl => absurd hl hnot }
    | _ => cases hsess
  · by_cases hw : ∃ e, a = .work e
    · obtain ⟨e, rfl⟩ := hw
      obtain ⟨hav, hrep⟩ : e.available = s.available ∧ e.reporting = reporting :=
        by simpa [Action.agrees] using hag
      cases step_cases h with
      | drain e _ hbat => exact hs.drain hbat
      | start e _ _ htask hbat => exact hs.start hav hrep htask hbat rfl
      | proceed e htask => exact hs.proceed htask
    · exact hs.bystander hlt h (by simpa using hsess) (fun e he => hw ⟨e, he⟩)

end Informed

theorem step_informed {t} {m : Move Id} (hok : s.Clear m) (h : s.step x reporting m = some t)
    (hs : Informed reporting s) : Informed reporting t := by
  cases m with
  | slot =>
    simp only [step, ite_none_right_eq_some, map_eq_some_iff] at h
    obtain ⟨hag, _, hslot, rfl⟩ := h
    exact hs.slot hok hag hslot
  | setAvailable available =>
    simp only [step] at h
    split at h
    · cases h
      exact hs
    · cases h
      have hdue : Due { s with available := available, passes := s.passes ++ [available] } :=
        .inr (by simp)
      exact hs.of_same rfl rfl rfl rfl rfl (.inr hdue) (fun _ => hdue)
  | pass i =>
    simp only [step, bind_eq_some_iff, map_eq_some_iff] at h
    obtain ⟨available, -, _, hslot, rfl⟩ := h
    cases available with
    | _ =>
      cases hslot
      exact hs.of_same rfl rfl rfl rfl rfl (.inl rfl)
        (fun _ => due_of_offer hok.1 rfl (s.passes.eraseIdx i))

def Quiescent (s : Manager Id) : Prop :=
  s.slot.queue.items = [] ∧ s.slot.batch = [] ∧ s.slot.task = .idle ∧ s.passes = [] ∧
    s.slot.sessions.getLast? = some .attached

def NewestTold (reporting : Bool) (s : Manager Id) : Prop :=
  ∃ announcement, (s.slot.announcedTo s.slot.newest).getLast? = some announcement ∧
    announcement.roles = wire (desired s.available reporting)

/-- Where no older session's announcement is half made when the newest attaches,
the newest is told what this device can do. -/
theorem newest_session_told (x : Texts) (reporting available : Bool) {ms : List (Move Id)}
    {s : Manager Id} (hrun : run (step x reporting) { available := available } ms = some s)
    (hok : Meets (step x reporting) Clear { available := available } ms) (hquiet : s.Quiescent) :
    s.NewestTold reporting := by
  have hstep : ∀ (s : Manager Id) (m : Move Id) (t : Manager Id), s.Clear m →
      s.step x reporting m = some t → Informed reporting s → Informed reporting t :=
      fun s m t hok h hs => step_informed hok h hs
  have hstart : Informed reporting ({ available := available } : Manager Id) :=
    ⟨by simp, by simp, by simp, by simp, by simp⟩
  have hinv := run_invariant (step x reporting) hstep hrun hok hstart
  obtain ⟨hitems, hbat, htask, hpass, hlast⟩ := hquiet
  have hdue : ¬ s.Due := by
    rintro (⟨y, hy, -⟩ | hp)
    · rw [hbat, hitems] at hy
      cases hy
    · exact hp hpass
  rcases hinv.due hlast with hrec | hd | ⟨_, _, _, ht⟩
  · rcases hinv.told hlast _ hrec with ⟨_, ht, -⟩ | ⟨-, htold⟩
    · cases htask.symm.trans ht
    · exact map_eq_some_iff.mp htold
  · exact absurd hd hdue
  · cases htask.symm.trans ht

instance (s : Manager Id) (m : Move Id) : Decidable (s.Clear m) := by
  unfold Clear
  induction m using Move.casesOn
  case slot a => induction a using Action.casesOn <;> infer_instance
  all_goals infer_instance

def serverLeaves : List (Move Nat) :=
  [.slot .attachGeneration, .slot (.attachSender 0), .slot (.attachState 0), .slot (.work {}),
    .slot (.work {}), .slot (.work {}), .slot (.work {}), .setAvailable false, .pass 0,
    .slot (.work { available := false }), .slot (.work { available := false }),
    .slot (.work { available := false }), .slot (.work { available := false })]

theorem newest_session_told_leaving :
    ∃ s, run (step .plain true) { available := true } serverLeaves = some s ∧ s.available = false ∧
      (s.slot.announcedTo 0).length = 2 ∧ s.NewestTold true := by
  refine exists_some_imp (P := fun s => s.Quiescent ∧ s.available = false ∧
    (s.slot.announcedTo 0).length = 2) ⟨_, rfl, ⟨rfl, rfl, rfl, rfl, rfl⟩, rfl, rfl⟩ ?_
  exact fun s hrun ⟨hquiet, hav, hlen⟩ =>
    ⟨hav, hlen, newest_session_told .plain true true hrun (by decide) hquiet⟩

/-- Session 1 attaches while the announcement to session 0 is half made, and finds the same set
recorded: it is told nothing. -/
theorem newest_session_never_told :
    ∃ s : Manager Nat, run (step .plain true) { available := true } [.slot .attachGeneration,
      .slot (.attachSender 0), .slot (.attachState 0), .slot (.work {}), .slot (.work {}),
      .slot .attachGeneration, .slot (.attachSender 1), .slot (.attachState 1), .slot (.work {}),
      .slot (.work {}), .slot (.work {}), .slot (.work {}), .slot (.work {})] = some s ∧
      s.Quiescent ∧ s.slot.newest = 1 ∧ s.slot.announcedTo 1 = [] ∧
      (s.slot.announcedTo 0).length = 1 ∧ ¬ s.NewestTold true := by
  refine ⟨_, rfl, ⟨rfl, rfl, rfl, rfl, rfl⟩, rfl, rfl, rfl, ?_⟩
  rintro ⟨_, hlast, -⟩
  cases hlast

end Manager

end OmniBridge.Sink
