import OmniBridge.SinkSlot

/-! The screen of the desktop beside one peer's slot. A notification the worker
displays stays on the screen until the worker closes it, whatever the table
remembers of it. -/

namespace OmniBridge.Sink

open List Option MirrorTable Slot

variable {Id : Type} [LinearOrder Id]

namespace MirrorTable

def shownAs (t : MirrorTable Id) (id : Id) : Option ServerId := (t.get id).bind (·.serverId)

variable {id : Id} {t : MirrorTable Id}

theorem shownAs_eq_some {n} :
    t.shownAs id = some n ↔ ∃ entry, t.get id = some entry ∧ entry.serverId = some n :=
  bind_eq_some_iff

theorem shownAs_of_get {entry} (h : t.get id = some entry) : t.shownAs id = entry.serverId := by
  rw [shownAs, h]
  rfl

@[simp]
theorem shownAs_remove_self (t : MirrorTable Id) (id) : (t.remove id).1.shownAs id = none := by
  rw [shownAs, get_remove_self]
  rfl

theorem shownAs_remove_of_ne {other} (h : other ≠ id) (t : MirrorTable Id) :
    (t.remove id).1.shownAs other = t.shownAs other := by
  rw [shownAs, get_remove_of_ne h]
  rfl

theorem mem_drain_serverIds {n} :
    n ∈ t.drain.2.filterMap (·.2.serverId) ↔ ∃ id, t.shownAs id = some n := by
  simp only [drain, mem_filterMap, Prod.exists, shownAs_eq_some]
  refine exists_congr (fun id => exists_congr (fun entry => and_congr_left (fun _ => ?_)))
  exact SortedMap.get_eq_some_iff.symm

theorem nodup_drain_serverIds
    (h : ∀ id id' n, t.shownAs id = some n → t.shownAs id' = some n → id = id') :
    (t.drain.2.filterMap (·.2.serverId)).Nodup := by
  rw [drain, List.Nodup, pairwise_filterMap]
  refine t.entries.sorted.imp_of_mem ?_
  rintro p q hp hq hlt n hn m hm rfl
  have hpn : t.shownAs p.1 = some n := (shownAs_of_get (SortedMap.get_eq_some_iff.mpr hp)).trans hn
  have hqn : t.shownAs q.1 = some n := (shownAs_of_get (SortedMap.get_eq_some_iff.mpr hq)).trans hm
  exact hlt.ne (h p.1 q.1 n hpn hqn)

theorem shownAs_modify {f : MirrorEntry → MirrorEntry}
    (h : ∀ entry, t.get id = some entry → (f entry).serverId = entry.serverId) (other : Id) :
    (t.modify id f).shownAs other = t.shownAs other := by
  by_cases hid : other = id
  · subst hid
    rw [shownAs, get_modify_self, shownAs]
    cases hget : t.get other with
    | none => rfl
    | some entry => exact h entry hget
  · rw [shownAs, get_modify_of_ne hid]
    rfl

theorem shownAs_insert {t' serverId contentHash} {appName urgency reduced originDeviceId} {evicted}
    (h : t.insert id serverId contentHash appName urgency reduced originDeviceId = (t', evicted)) :
    t'.shownAs id = serverId ∧
      (∀ other, other ≠ id → t'.shownAs other = if evicted.map Prod.fst = some other then none
      else t.shownAs other) ∧ ∀ p ∈ evicted, p.1 ≠ id ∧ t.shownAs p.1 = p.2.serverId := by
  obtain ⟨⟨_, hself⟩, hoth, hev⟩ := get_insert h
  refine ⟨shownAs_of_get hself, fun other hne => ?_, fun p hp =>
    ⟨(hev p hp).1, shownAs_of_get (hev p hp).2⟩⟩
  rw [shownAs, hoth other hne]
  split <;> rfl

def HasRoom (t : MirrorTable Id) (id : Id) : Prop :=
  t.entries.contains id ∨ t.entries.size < MAX_MIRRORS_PER_PEER

end MirrorTable

/-- The notification server answers with the id it was asked to replace while that
is on the screen, and with a fresh one otherwise. -/
def Answers (screen : Finset ServerId) (replaces : Option ServerId) (n : ServerId) : Prop :=
  match replaces with
  | some r => if r ∈ screen then n = r else n ∉ screen
  | none => n ∉ screen

instance (screen : Finset ServerId) (replaces : Option ServerId) (n : ServerId) :
    Decidable (Answers screen replaces n) := by
  unfold Answers
  induction replaces using Option.casesOn <;> infer_instance

/-- The screen after one call of `display`. A call that timed out may have landed. -/
def afterDisplay (screen : Finset ServerId) (replaces : Option ServerId)
    (answer : Except SinkError ServerId) (landed : Option ServerId) : Option (Finset ServerId) :=
  match answer, landed with
  | .ok n, _ | .error .timedOut, some n =>
    if Answers screen replaces n then some (insert n screen) else none
  | .error _, _ => some screen

structure Desk (Id : Type) [LinearOrder Id] where
  slot : Slot Id := {}
  screen : Finset ServerId := ∅

namespace Desk

def screenAfter (d : Desk Id) (e : Reading) (landed : Option ServerId) : Option (Finset ServerId) :=
  match d.slot.task with
  | .displaying _ _ replaces => afterDisplay d.screen replaces e.shown landed
  | .redisplaying _ _ replaces _ => afterDisplay d.screen (some replaces) e.shown landed
  | .closing (n :: _) _ _ => some (d.screen.erase n)
  | _ => some d.screen

def losesMirrors : Action Id → Bool
  | .noteClosed _ _ | .serverBack => true
  | _ => false

/-- A step of the slot, in which the platform closes nothing by itself. -/
def step (x : Texts) (d : Desk Id) (m : Action Id × Option ServerId) : Option (Desk Id) :=
  match m.1 with
  | .work e =>
    (d.screenAfter e m.2).bind (fun screen =>
      (d.slot.step x (.work e)).map (fun slot => ⟨slot, screen⟩))
  | a =>
    if losesMirrors a then none else (d.slot.step x a).map (fun slot => { d with slot := slot })

end Desk

def Task.inFlight : Task Id → List ServerId
  | .displayed _ _ (.ok n) => [n]
  | .closing serverIds _ _ => serverIds
  | _ => []

def Planned (t : MirrorTable Id) (affected : List (Id × MirrorEntry)) : Prop :=
  (affected.map Prod.fst).Nodup ∧ ∀ p ∈ affected, t.get p.1 = some p.2

def TaskAgrees (t : MirrorTable Id) (screen : Finset ServerId) : Task Id → Prop
  | .displaying incoming _ replaces => t.shownAs incoming.id = replaces
  | .displayed incoming _ (.ok n) =>
    n ∈ screen ∧ (∀ r, t.shownAs incoming.id = some r → r = n) ∧ ∀ id, t.shownAs id = some n →
      id = incoming.id
  | .displayed incoming _ (.error _) => t.shownAs incoming.id = none ∧ t.HasRoom incoming.id
  | .reducing affected => Planned t affected
  | .redisplaying id _ r rest => t.shownAs id = some r ∧ Planned t rest ∧ id ∉ rest.map Prod.fst
  | .redisplayed id (.ok n) rest => t.shownAs id = some n ∧ Planned t rest ∧ id ∉ rest.map Prod.fst
  | .redisplayed id (.error _) rest => Planned t rest ∧ id ∉ rest.map Prod.fst
  | .closing serverIds ids rest =>
    serverIds.Nodup ∧ (∀ n ∈ serverIds, ∀ id, t.shownAs id ≠ some n) ∧
      ∀ affected, rest = .reduce affected → Planned t affected ∧ ∀ id ∈ ids,
      id ∉ affected.map Prod.fst
  | _ => True

/-- Everything on the screen is held by one entry, or by the worker. -/
structure Accounted (t : MirrorTable Id) (screen : Finset ServerId) (task : Task Id) : Prop where
  shown : ∀ id n, t.shownAs id = some n → n ∈ screen
  unique : ∀ id id' n, t.shownAs id = some n → t.shownAs id' = some n → id = id'
  held : ∀ n ∈ screen, (∃ id, t.shownAs id = some n) ∨ n ∈ task.inFlight
  agrees : TaskAgrees t screen task

section Accounted

variable {t t' : MirrorTable Id} {screen : Finset ServerId} {task task' : Task Id}

theorem Accounted.move (h : Accounted t screen task) (ht : ∀ id, t'.shownAs id = t.shownAs id)
    (hflight : task.inFlight = []) (hagr : TaskAgrees t' screen task') :
    Accounted t' screen task' where
  shown id n hn := h.shown id n (ht id ▸ hn)
  unique id id' n hn hn' := h.unique id id' n (ht id ▸ hn) (ht id' ▸ hn')
  held n hn := by
    rcases h.held n hn with ⟨id, hid⟩ | hin
    · exact .inl ⟨id, (ht id).trans hid⟩
    · rw [hflight] at hin
      cases hin
  agrees := hagr

variable {n : ServerId} {incoming : Incoming Id} {presentation : Presentation}
  {rest : List (Id × MirrorEntry)}

theorem Planned.tail {p} (h : Planned t (p :: rest)) : Planned t rest :=
  ⟨(nodup_cons.mp h.1).2, fun q hq => h.2 q (mem_cons_of_mem _ hq)⟩

theorem Planned.head_notMem {p} (h : Planned t (p :: rest)) : p.1 ∉ rest.map Prod.fst :=
  (nodup_cons.mp h.1).1

theorem Planned.congr {affected} (h : Planned t affected)
    (ht : ∀ id ∈ affected.map Prod.fst, t'.get id = t.get id) : Planned t' affected :=
  ⟨h.1, fun p hp => (ht p.1 (mem_map_of_mem hp)).trans (h.2 p hp)⟩

theorem planned_iter (t : MirrorTable Id) : Planned t t.iter := by
  refine ⟨?_, fun p hp => mem_iter.mp hp⟩
  have hperm : (t.iter.map Prod.fst).Perm t.entries.keys := (perm_insertionSort _ _).map _
  exact hperm.nodup_iff.mpr t.entries.nodup_keys

theorem Accounted.drop (h : Accounted t screen task) (hflight : task.inFlight = [])
    (id : Id) {ids} {rest}
    (hplan : ∀ affected, rest = .reduce affected → Planned t affected ∧ id ∉ affected.map Prod.fst ∧
      ∀ other ∈ ids, other ∉ affected.map Prod.fst) :
    Accounted (t.remove id).1 screen (.closing (t.shownAs id).toList ids rest) where
  shown other n hn := by
    by_cases hid : other = id
    · simp [hid] at hn
    · exact h.shown other n (by rwa [shownAs_remove_of_ne hid] at hn)
  unique other other' n hn hn' := by
    by_cases hid : other = id
    · simp [hid] at hn
    by_cases hid' : other' = id
    · simp [hid'] at hn'
    · rw [shownAs_remove_of_ne hid] at hn
      rw [shownAs_remove_of_ne hid'] at hn'
      exact h.unique other other' n hn hn'
  held n hn := by
    rcases h.held n hn with ⟨other, hoth⟩ | hin
    · by_cases hid : other = id
      · exact .inr (by simpa [Task.inFlight, ← hid] using hoth)
      · exact .inl ⟨other, by rwa [shownAs_remove_of_ne hid]⟩
    · rw [hflight] at hin
      cases hin
  agrees := by
    refine ⟨?_, ?_, ?_⟩
    · cases t.shownAs id <;> simp
    · intro n hn other hoth
      have hown : t.shownAs id = some n := by simpa using hn
      by_cases hid : other = id
      · simp [hid] at hoth
      · rw [shownAs_remove_of_ne hid] at hoth
        exact hid (h.unique other id n hoth hown)
    · intro affected hrest
      obtain ⟨hplann, hid, hids⟩ := hplan affected hrest
      refine ⟨hplann.congr (fun other hoth => get_remove_of_ne ?_ t), hids⟩
      rintro rfl
      exact hid hoth

theorem Accounted.record
    {contentHash appName urgency reduced originDeviceId}
    (h : Accounted t screen (.displayed incoming presentation (.ok n))) {r}
    (hr : t.insert incoming.id (some n) contentHash appName urgency reduced originDeviceId = r) :
    Accounted r.1 screen (match r.2 with
      | none => .idle
      | some (_, entry) => .closing entry.serverId.toList [] .done) := by
  obtain ⟨t', evicted⟩ := r
  obtain ⟨hself, hoth, hev⟩ := shownAs_insert hr
  obtain ⟨hn, hrepl, hown⟩ := h.agrees
  have hback : ∀ id m, t'.shownAs id = some m → id = incoming.id ∧ m = n ∨ id ≠ incoming.id ∧
      t.shownAs id = some m ∧ evicted.map Prod.fst ≠ some id := by
    intro id m hm
    by_cases hid : id = incoming.id
    · subst hid
      exact .inl ⟨rfl, (some.inj (hself.symm.trans hm)).symm⟩
    · rw [hoth id hid, ite_none_left_eq_some] at hm
      exact .inr ⟨hid, hm.2, hm.1⟩
  have hshown : ∀ id m, t'.shownAs id = some m → m ∈ screen := by
    intro id m hm
    rcases hback id m hm with ⟨-, rfl⟩ | ⟨-, hm, -⟩
    · exact hn
    · exact h.shown id m hm
  have hunique : ∀ id id' m, t'.shownAs id = some m → t'.shownAs id' = some m → id = id' := by
    intro id id' m hm hm'
    rcases hback id m hm with ⟨rfl, rfl⟩ | ⟨hid, hm, -⟩ <;> rcases hback id' _ hm' with ⟨rfl, heq⟩ |
      ⟨hid', hm', -⟩
    · rfl
    · exact absurd (hown id' hm') hid'
    · exact absurd (hown id (heq ▸ hm)) hid
    · exact h.unique id id' m hm hm'
  have hheld : ∀ m ∈ screen, (∃ id, t'.shownAs id = some m) ∨ ∃ p ∈ evicted,
      p.2.serverId = some m := by
    intro m hm
    by_cases hmn : m = n
    · exact .inl ⟨incoming.id, hmn ▸ hself⟩
    obtain ⟨id, hid⟩ : ∃ id, t.shownAs id = some m := by
      rcases h.held m hm with hex | hin
      · exact hex
      · exact absurd (mem_singleton.mp hin) hmn
    have hne : id ≠ incoming.id := fun heq => hmn (hrepl m (heq ▸ hid))
    by_cases he : evicted.map Prod.fst = some id
    · obtain ⟨p, hp, rfl⟩ := map_eq_some_iff.mp he
      exact .inr ⟨p, hp, (hev p hp).2.symm.trans hid⟩
    · exact .inl ⟨id, by rw [hoth id hne, if_neg he, hid]⟩
  cases evicted with
  | none => exact ⟨hshown, hunique, fun m hm => (hheld m hm).imp_right (by simp), trivial⟩
  | some p =>
    refine ⟨hshown, hunique, fun m hm =>
      (hheld m hm).imp_right (by simp [Task.inFlight]), ?_, ?_, ?_⟩
    · cases p.2.serverId <;> simp
    · intro m hm id hid
      have hpm : t.shownAs p.1 = some m := (hev p rfl).2.trans (by simpa using hm)
      rcases hback id m hid with ⟨-, rfl⟩ | ⟨-, hid, hnot⟩
      · exact (hev p rfl).1 (hown p.1 hpm)
      · exact hnot (congrArg some (h.unique p.1 id m hpm hid))
    · exact nofun

theorem Accounted.miss {error contentHash appName urgency} {reduced originDeviceId}
    (h : Accounted t screen (.displayed incoming presentation (.error error))) :
    Accounted (t.insert incoming.id none contentHash appName urgency reduced originDeviceId).1
      screen .idle := by
  obtain ⟨hnone, hroom⟩ := h.agrees
  have hev : (t.insert incoming.id none contentHash appName urgency reduced originDeviceId).2 =
      none := by
    rcases insert_cases t incoming.id with ⟨-, hput⟩ | ⟨⟨hnew, hfull⟩, -⟩
    · rw [hput]
    · exact absurd hroom (by simp [HasRoom, SortedMap.contains_iff,
        SortedMap.get_eq_none_iff.mp hnew, hfull])
  generalize hr : t.insert incoming.id none contentHash appName urgency reduced originDeviceId =
    r at hev ⊢
  obtain ⟨_, evicted⟩ := r
  obtain ⟨hself, hoth, -⟩ := shownAs_insert hr
  obtain rfl : evicted = none := hev
  refine h.move (fun id => ?_) rfl trivial
  by_cases hid : id = incoming.id
  · rw [hid, hself, hnone]
  · exact (hoth id hid).trans (if_neg (by simp))

theorem Accounted.close {serverIds ids rest}
    (h : Accounted t screen (.closing (n :: serverIds) ids rest)) :
    Accounted t (screen.erase n) (.closing serverIds ids rest) := by
  obtain ⟨hnodup, hout, hplan⟩ := h.agrees
  refine ⟨?_, h.unique, ?_, (nodup_cons.mp hnodup).2, fun m hm =>
    hout m (mem_cons_of_mem _ hm), hplan⟩
  · intro id m hm
    refine Finset.mem_erase.mpr ⟨?_, h.shown id m hm⟩
    rintro rfl
    exact hout m mem_cons_self id hm
  · intro m hm
    obtain ⟨hne, hm⟩ := Finset.mem_erase.mp hm
    exact (h.held m hm).imp_right (fun hin => (mem_cons.mp hin).resolve_left hne)

theorem Accounted.display {replaces}
    (h : Accounted t screen (.displaying incoming presentation replaces))
    (hn : Answers screen replaces n) :
    Accounted t (insert n screen) (.displayed incoming presentation (.ok n)) := by
  have hrepl : t.shownAs incoming.id = replaces := h.agrees
  have hfresh : n ∉ screen ∧ replaces = none ∨ replaces = some n ∧ n ∈ screen ∨
      n ∉ screen ∧ ∃ r, replaces = some r ∧ r ∉ screen := by
    cases replaces with
    | none => exact .inl ⟨hn, rfl⟩
    | some r =>
      by_cases hr : r ∈ screen
      · obtain rfl : n = r := by simpa [Answers, hr] using hn
        exact .inr (.inl ⟨rfl, hr⟩)
      · exact .inr (.inr ⟨by simpa [Answers, hr] using hn, r, rfl, hr⟩)
  refine ⟨fun id m hm => Finset.mem_insert_of_mem (h.shown id m hm), h.unique, ?_,
    Finset.mem_insert_self n screen, ?_, ?_⟩
  · intro m hm
    rcases Finset.mem_insert.mp hm with rfl | hm
    · exact .inr mem_cons_self
    · exact .inl ((h.held m hm).resolve_right (by simp [Task.inFlight]))
  · intro r hr
    rcases hfresh with ⟨-, hnone⟩ | ⟨hsome, -⟩ | ⟨-, _, hr', hnot⟩
    · cases (hrepl.trans hnone).symm.trans hr
    · exact mem_unique hr (hrepl.trans hsome)
    · exact absurd (h.shown _ _ (hrepl.trans hr')) hnot
  · intro id hid
    rcases hfresh with ⟨hnot, -⟩ | ⟨hsome, -⟩ | ⟨hnot, -⟩
    · exact absurd (h.shown id n hid) hnot
    · exact h.unique id incoming.id n hid (hrepl.trans hsome)
    · exact absurd (h.shown id n hid) hnot

theorem Accounted.redisplay {id mirror r answer} {landed screen'}
    (h : Accounted t screen (.redisplaying id mirror r rest))
    (hscr : afterDisplay screen (some r) answer landed = some screen') :
    Accounted t screen' (.redisplayed id answer rest) := by
  obtain ⟨hr, hplan, hnot⟩ := h.agrees
  have hin : r ∈ screen := h.shown id r hr
  have hmove : ∀ task', task'.inFlight = [] → TaskAgrees t screen task' →
      Accounted t screen task' :=
    fun task' _ hagr => h.move (fun _ => rfl) rfl hagr
  have hsame : ∀ n, (if Answers screen (some r) n then some (insert n screen) else none) =
      some screen' → n = r ∧ screen' = screen := by
    intro n hn
    rw [ite_none_right_eq_some] at hn
    obtain ⟨hans, heq⟩ := hn
    obtain rfl : n = r := by simpa [Answers, hin] using hans
    exact ⟨rfl, (some.inj heq).symm.trans (Finset.insert_eq_of_mem hin)⟩
  cases answer with
  | ok n =>
    obtain ⟨rfl, rfl⟩ := hsame n hscr
    exact hmove _ rfl ⟨hr, hplan, hnot⟩
  | error e =>
    have hscr' : screen' = screen := by
      cases e with
      | timedOut =>
        cases landed with
        | none => exact (some.inj hscr).symm
        | some n => exact (hsame n hscr).2
      | _ => exact (some.inj hscr).symm
    rw [hscr']
    exact hmove _ rfl ⟨hplan, hnot⟩

end Accounted

namespace Desk

def Sound (d : Desk Id) : Prop := Accounted d.slot.state.mirrors d.screen d.slot.task

def failing (d : Desk Id) (a : Action Id) : Option (Incoming Id × Option ServerId) :=
  match a, d.slot.task with
  | .work e, .displaying incoming _ replaces =>
    match e.shown with
    | .ok _ => none
    | .error _ => some (incoming, replaces)
  | _, _ => none

/-- A `display` that fails has nothing to replace, has not landed, and finds room
in the table. -/
def Recorded (d : Desk Id) (m : Action Id × Option ServerId) : Prop :=
  ∀ p ∈ d.failing m.1, p.2 = none ∧ m.2 = none ∧ d.slot.state.mirrors.HasRoom p.1.id

variable {x : Texts} {e : Reading} {screen : Finset ServerId}

theorem start_sound {s : Slot Id} {item} (htask : s.task = .idle)
    (h : Accounted s.state.mirrors screen .idle) :
    Accounted (s.start e item).state.mirrors screen (s.start e item).task := by
  fun_cases start s e item
  -- `close_all` takes every entry out and holds all their server ids
  case case12 =>
    have hnone : ∀ id n, s.state.mirrors.drain.1.shownAs id ≠ some n := by
      intro _ n hn
      cases hn
    refine ⟨fun id n hn => absurd hn (hnone id n), fun id _ n hn => absurd hn (hnone id n), ?_,
      nodup_drain_serverIds h.unique, fun n _ id => hnone id n, by simp⟩
    intro n hn
    rcases h.held n hn with hex | hin
    · exact .inr (mem_drain_serverIds.mpr hex)
    · cases hin
  all_goals first
    | exact h.move (fun _ => rfl) rfl trivial
    | exact htask ▸ h

/-- The worker's calls of `display` and `close` apart, its steps leave the screen alone. -/
def touchesScreen : Task Id → Bool
  | .displaying _ _ _ | .redisplaying _ _ _ _ | .closing (_ :: _) _ _ => true
  | _ => false

theorem proceed_sound {s : Slot Id} {task} (htask : task ≠ .idle)
    (hquiet : touchesScreen task = false) (h : Accounted s.state.mirrors screen task) :
    Accounted (s.proceed x e task).state.mirrors screen (s.proceed x e task).task := by
  -- a step that only chooses what to do next
  have hnext : ∀ task', task.inFlight = [] → TaskAgrees s.state.mirrors screen task' →
      Accounted s.state.mirrors screen task' := fun task' hflight hagr =>
      h.move (fun _ => rfl) hflight hagr
  have hclos : ∀ ids : List Id, TaskAgrees s.state.mirrors screen (.closing [] ids .done) :=
    fun ids => ⟨nodup_nil, by simp, nofun⟩
  cases task with
  | idle => exact absurd rfl htask
  | displaying | redisplaying => cases hquiet
  | announcing | removeGranted | lockStored | lockNoted =>
    refine hnext _ rfl ?_
    simp only [proceed, withTask]
    split <;> trivial
  | announced | dismissing | reconciling => exact hnext _ rfl trivial
  | upsertGranted =>
    refine hnext _ rfl ?_
    simp only [proceed, withTask]
    split
    · trivial
    · split
      · exact hclos _
      · trivial
  | upsertSourced =>
    refine hnext _ rfl ?_
    simp only [proceed, withTask]
    split
    · exact hclos _
    · trivial
  | upsertPresented =>
    refine hnext _ rfl ?_
    simp only [proceed, withTask]
    split
    · trivial
    · rfl
  | displayed _ _ answer =>
    cases answer with
    | ok => exact h.record rfl
    | error => exact h.miss
  | removeSourced id => exact h.drop rfl id nofun
  | sweeping stale =>
    cases stale with
    | nil => exact hnext _ rfl trivial
    | cons id => exact h.drop rfl id nofun
  | lockResolved presentation =>
    cases presentation with
    | suppress => exact hnext _ rfl (hclos _)
    | _ => exact hnext _ rfl (planned_iter _)
  | reducing affected =>
    have hplan : Planned s.state.mirrors affected := h.agrees
    cases affected with
    | nil => exact hnext _ rfl trivial
    | cons p =>
      obtain ⟨id, entry⟩ := p
      have hentry : s.state.mirrors.get id = some entry := hplan.2 (id, entry) mem_cons_self
      simp only [proceed]
      split
      · exact hnext _ rfl hplan.tail
      split
      -- never displayed: marked, so that a later update knows
      · refine h.move (shownAs_modify (fun _ _ => rfl)) rfl ?_
        refine hplan.tail.congr (fun other hoth => get_modify_of_ne ?_ _ _)
        rintro rfl
        exact hplan.head_notMem hoth
      · rename_i hserv
        exact hnext _ rfl ⟨(shownAs_of_get hentry).trans hserv, hplan.tail, hplan.head_notMem⟩
  | redisplayed _ answer =>
    cases answer with
    | ok =>
      obtain ⟨hn, hplan, hnot⟩ := h.agrees
      refine h.move (shownAs_modify (fun entry hget => ?_)) rfl ?_
      · exact hn.symm.trans (shownAs_of_get hget)
      · refine hplan.congr (fun other hoth => get_modify_of_ne ?_ _ _)
        rintro rfl
        exact hnot hoth
    | error =>
      obtain ⟨hplan, hnot⟩ := h.agrees
      refine hnext _ rfl ⟨nodup_nil, by simp, ?_⟩
      rintro _ ⟨⟩
      exact ⟨hplan, by simpa using hnot⟩
  | closing serverIds ids rest =>
    cases serverIds with
    | cons => cases hquiet
    | nil =>
      obtain ⟨-, -, hplan⟩ := h.agrees
      cases ids with
      | nil =>
        refine hnext _ rfl ?_
        cases rest with
        | done | sweep => trivial
        | reduce affected => exact (hplan affected rfl).1
      | cons id =>
        refine h.drop rfl id (fun affected hrest => ?_)
        obtain ⟨hplann, hids⟩ := hplan affected hrest
        exact ⟨hplann, hids id mem_cons_self, fun other hoth =>
          hids other (mem_cons_of_mem _ hoth)⟩

theorem work_sound {d : Desk Id} {slot landed} (hok : d.Recorded (.work e, landed))
    (hscr : d.screenAfter e landed = some screen) (h : d.slot.step x (.work e) = some slot)
    (hs : d.Sound) : Sound ⟨slot, screen⟩ := by
  unfold Sound at hs
  cases step_cases h with
  | drain e htask =>
    rw [htask] at hs
    simp only [screenAfter, htask, some.injEq] at hscr
    rw [htask, ← hscr]
    exact hs
  | start e _ rest htask =>
    rw [htask] at hs
    simp only [screenAfter, htask, some.injEq] at hscr
    rw [← hscr]
    exact start_sound (s := { d.slot with batch := rest }) htask hs
  | proceed e htask =>
    unfold Recorded failing at hok
    unfold screenAfter at hscr
    cases ht : d.slot.task with
    | displaying incoming presentation =>
      simp only [ht] at hs hok hscr
      cases hshown : e.shown with
      | ok =>
        rw [hshown] at hscr
        simp only [afterDisplay, ite_none_right_eq_some, some.injEq] at hscr
        obtain ⟨hans, rfl⟩ := hscr
        change Accounted d.slot.state.mirrors _ (.displayed incoming presentation e.shown)
        rw [hshown]
        exact hs.display hans
      | error =>
        rw [hshown] at hscr hok
        obtain ⟨rfl, rfl, hroom⟩ := hok _ rfl
        obtain rfl : d.screen = screen := by simpa [afterDisplay] using hscr
        change Accounted d.slot.state.mirrors _ (.displayed incoming presentation e.shown)
        rw [hshown]
        exact hs.move (fun _ => rfl) rfl ⟨hs.agrees, hroom⟩
    | redisplaying =>
      simp only [ht] at hs hscr
      exact hs.redisplay hscr
    | closing serverIds =>
      cases serverIds with
      | nil =>
        simp only [ht, some.injEq] at hs hscr
        rw [← hscr]
        exact proceed_sound (by simp) rfl hs
      | cons =>
        simp only [ht, some.injEq] at hs hscr
        rw [← hscr]
        exact hs.close
    | _ =>
      simp only [ht, some.injEq] at hs hscr
      rw [← hscr]
      exact proceed_sound (ht ▸ htask) rfl hs

theorem step_sound {d d' : Desk Id} {m} (hok : d.Recorded m) (h : d.step x m = some d')
    (hs : d.Sound) : d'.Sound := by
  obtain ⟨a, _⟩ := m
  by_cases hw : ∃ e, a = .work e
  · obtain ⟨e, rfl⟩ := hw
    simp only [step, bind_eq_some_iff, map_eq_some_iff] at h
    obtain ⟨_, hscr, _, hslot, rfl⟩ := h
    exact work_sound hok hscr hslot hs
  have hw' : ∀ e, a ≠ .work e := fun e he => hw ⟨e, he⟩
  obtain ⟨hstays, slot, hslot, rfl⟩ : losesMirrors a = false ∧ ∃ slot, d.slot.step x a = some slot ∧
      { d with slot := slot } = d' := by
    unfold step at h
    split at h
    · rename_i e he
      exact absurd he (hw' e)
    · simpa using h
  have htask := (step_worker hslot hw').1
  have hmirr : slot.state.mirrors = d.slot.state.mirrors := by
    rcases step_mirrors hslot hw' with heq | ⟨_, _, _, _, rfl, -⟩ | ⟨rfl, -⟩
    · exact heq
    all_goals cases hstays
  change Accounted slot.state.mirrors d.screen slot.task
  rw [hmirr, htask]
  exact hs

/-- Every notification on the screen is the server id of exactly one entry. -/
def NoOrphan (d : Desk Id) : Prop := ∀ n ∈ d.screen, ∃! id, d.slot.state.mirrors.shownAs id = some n

/-- Where a `display` only fails for an identity with nothing on the screen, and
then has not landed and evicts nothing, no notification is left behind when the
worker is between two items. -/
theorem no_orphan_between_items (x : Texts) {ms : List (Action Id × Option ServerId)} {d : Desk Id}
    (hrun : run (step x) {} ms = some d) (hok : Meets (step x) Recorded {} ms)
    (hidle : d.slot.task = .idle) : d.NoOrphan := by
  have hstep : ∀ (d : Desk Id) (m : Action Id × Option ServerId) (d' : Desk Id), d.Recorded m →
      d.step x m = some d' → d.Sound → d'.Sound := fun d m d' hok h hs => step_sound hok h hs
  have hstart : ({} : Desk Id).Sound := by
    have hnone : ∀ id n, ({} : MirrorTable Id).shownAs id ≠ some n := nofun
    exact ⟨fun id n hn => absurd hn (hnone id n), fun id _ n hn => absurd hn (hnone id n),
      by simp, trivial⟩
  have hinv : Accounted d.slot.state.mirrors d.screen d.slot.task :=
    run_invariant (step x) hstep hrun hok hstart
  intro n hn
  rcases hinv.held n hn with ⟨id, hid⟩ | hin
  · exact ⟨id, hid, fun other hoth => hinv.unique other id n hoth hid⟩
  · rw [hidle] at hin
    cases hin

instance (t : MirrorTable Id) (id : Id) : Decidable (t.HasRoom id) :=
  inferInstanceAs (Decidable (_ ∨ _))

instance (d : Desk Id) (m : Action Id × Option ServerId) : Decidable (d.Recorded m) :=
  inferInstanceAs (Decidable (∀ p ∈ d.failing m.1, _))

def firstDisplayed : List (Action Nat × Option ServerId) :=
  [(.attachGeneration, none), (.attachSender 0, none), (.attachState 0, none),
    (.receive 0 {} (.roles ⟨[1], 1⟩), none), (.receive 0 {} (.upsert ⟨5, { title := "first" }⟩),
    none)] ++ replicate 8 (.work {}, none) ++ [(.work { shown := .ok 1 }, none), (.work {}, none)]

def displayedAgain (shown : Except SinkError ServerId) : List (Action Nat × Option ServerId) :=
  [(.receive 0 {} (.upsert ⟨5, { title := "second" }⟩), none)] ++ replicate 5 (.work {}, none) ++
    [(.work { shown := shown }, none), (.work {}, none)]

theorem no_orphan_after_replacement :
    ∃ d, run (step .plain) {} (firstDisplayed ++ displayedAgain (.ok 1)) = some d ∧ d.screen = {1} ∧
      d.NoOrphan := by
  refine exists_some_imp (P := fun d => d.screen = {1} ∧ d.slot.task = .idle) ⟨_, rfl, rfl, rfl⟩ ?_
  exact fun d hrun ⟨hscr, hidle⟩ =>
    ⟨hscr, no_orphan_between_items .plain hrun (by decide) hidle⟩

/-- The update of a notification that is on the screen fails: its entry is
remembered without the server id, and no entry can take it off the screen. -/
theorem orphan_after_failed_replacement :
    ∃ d, run (step .plain) {} (firstDisplayed ++ displayedAgain (.error .failed)) = some d ∧
      d.slot.task = .idle ∧ d.screen = {1} ∧ d.slot.state.mirrors.entries.keys = [5] ∧
      d.slot.state.mirrors.shownAs 5 = none ∧ ¬ d.NoOrphan := by
  refine ⟨_, rfl, rfl, rfl, rfl, rfl, fun h => ?_⟩
  obtain ⟨_, hid, -⟩ := h 1 (by decide)
  obtain ⟨_, hget, hserv⟩ := shownAs_eq_some.mp hid
  have hmem := mem_singleton.mp (SortedMap.get_eq_some_iff.mp hget)
  have hnone : none = some 1 := (congrArg (·.2.serverId) hmem).symm.trans hserv
  cases hnone

end Desk

end OmniBridge.Sink
