import OmniBridge.SinkSlot
import OmniBridge.Slots

/-! The lock screen. The manager's cached flag is written by the lock signal, by
every upsert and by every queued lock change of every peer, and its old value
decides whether a lock signal is passed on at all. -/

namespace OmniBridge.Sink

open List Option MirrorTable Presentation

variable {Id : Type} [LinearOrder Id]

def Exposed : Presentation → MirrorEntry → Prop
  | .full, _ => False
  | .appOnly, entry => entry.reduced = false
  | .suppress, _ => True

def Unreduced (affected : List (Id × MirrorEntry)) (id : Id) : Prop :=
  ∃ entry, (id, entry) ∈ affected ∧ entry.reduced = false

def Covers : Task Id → Id → Prop
  | .lockStored true, _ | .lockNoted, _ | .lockResolved _, _ => True
  | .reducing affected, id => Unreduced affected id
  | .redisplaying other _ _ rest, id | .redisplayed other _ rest, id =>
    id = other ∨ Unreduced rest id
  | .closing _ ids (.reduce affected), id => id ∈ ids ∨ Unreduced affected id
  | .closing _ ids _, id => id ∈ ids
  | _, _ => False

def SawLock (presentation : Presentation) : Task Id → Prop
  | .upsertPresented _ seen | .displaying _ seen _ | .displayed _ seen _ =>
    seen = .appOnly ∧ presentation = .appOnly
  | _ => True

def TaskPolicy (policy : NotificationPolicy) : Task Id → Prop
  | .upsertGranted _ read | .upsertSourced _ read => read = policy
  | .lockResolved presentation =>
    presentation = resolve policy true ∧ resolve policy true ≠ .full
  | .reducing _ | .redisplaying _ _ _ _ | .redisplayed _ _ _ | .closing _ _ (.reduce _) =>
    resolve policy true = .appOnly
  | _ => True

/-- Whatever the table shows too much of, the lock change in progress covers. -/
structure Covered (presentation : Presentation) (t : MirrorTable Id) (task : Task Id) : Prop where
  saw : SawLock presentation task
  covers : ∀ id entry, t.get id = some entry → Exposed presentation entry → Covers task id

section Covered

variable {presentation : Presentation} {t t' : MirrorTable Id} {task task' : Task Id}

def NoMoreExposed (presentation : Presentation) (t t' : MirrorTable Id) : Prop :=
  ∀ id entry, t'.get id = some entry → Exposed presentation entry →
    ∃ before, t.get id = some before ∧ Exposed presentation before

theorem NoMoreExposed.refl : NoMoreExposed presentation t t :=
  fun _ entry hget hex => ⟨entry, hget, hex⟩

theorem noMoreExposed_remove (id : Id) : NoMoreExposed presentation t (t.remove id).1 :=
  fun _ entry hget hex => ⟨entry, (get_remove_eq_some hget).1, hex⟩

theorem noMoreExposed_modify (id : Id) {f : MirrorEntry → MirrorEntry}
    (hf : ∀ entry, Exposed presentation (f entry) → Exposed presentation entry) :
    NoMoreExposed presentation t (t.modify id f) := by
  intro other entry hget hex
  by_cases hid : other = id
  · subst hid
    rw [get_modify_self, map_eq_some_iff] at hget
    obtain ⟨before, hbef, rfl⟩ := hget
    exact ⟨before, hbef, hf before hex⟩
  · rw [get_modify_of_ne hid] at hget
    exact ⟨entry, hget, hex⟩

theorem noMoreExposed_invalidate : NoMoreExposed presentation t t.invalidateServerIds := by
  intro _ _ hget hex
  rw [get_invalidateServerIds, map_eq_some_iff] at hget
  obtain ⟨before, hbef, rfl⟩ := hget
  refine ⟨before, hbef, ?_⟩
  cases presentation <;> exact hex

theorem noMoreExposed_insert {id serverId contentHash} {appName urgency originDeviceId}
    (h : presentation = .appOnly) :
    NoMoreExposed presentation t (t.insert id serverId contentHash appName urgency true
      originDeviceId).1 := by
  intro other entry hget hex
  generalize hr : t.insert id serverId contentHash appName urgency true originDeviceId = r at hget
  obtain ⟨⟨_, hself⟩, hoth, -⟩ := get_insert hr
  by_cases hid : other = id
  · subst hid h
    obtain rfl := mem_unique hself hget
    cases hex
  · rw [hoth other hid, ite_none_left_eq_some] at hget
    exact ⟨entry, hget.2, hex⟩

theorem Covered.mono (h : Covered presentation t task) (ht : NoMoreExposed presentation t t')
    (hsaw : SawLock presentation task')
    (hcovers : ∀ id entry, t'.get id = some entry → Exposed presentation entry → Covers task id →
      Covers task' id) : Covered presentation t' task' := by
  refine ⟨hsaw, fun id entry hget hex => ?_⟩
  obtain ⟨before, hbef, hex'⟩ := ht id entry hget hex
  exact hcovers id entry hget hex (h.covers id before hbef hex')

theorem Covered.of_uncovering (h : Covered presentation t task) (hnone : ∀ id, ¬ Covers task id)
    (ht : NoMoreExposed presentation t t') (hsaw : SawLock presentation task') :
    Covered presentation t' task' :=
  h.mono ht hsaw (fun id _ _ _ hc => absurd hc (hnone id))

theorem Covered.drop (h : Covered presentation t task) (id : Id) {serverIds ids} {rest}
    (hcovers : ∀ other, other ≠ id → Covers task other →
      Covers (.closing serverIds ids rest) other) :
    Covered presentation (t.remove id).1 (.closing serverIds ids rest) :=
  h.mono (noMoreExposed_remove id) trivial (fun other _ hget _ hc =>
    hcovers other (get_remove_eq_some hget).2 hc)

omit [LinearOrder Id] in
theorem Unreduced.tail {id other} {entry : MirrorEntry} {rest : List (Id × MirrorEntry)}
    (h : Unreduced ((id, entry) :: rest) other) (hne : other ≠ id ∨ entry.reduced) :
    Unreduced rest other := by
  obtain ⟨found, hmem, hfound⟩ := h
  rcases mem_cons.mp hmem with heq | hmem
  · obtain ⟨rfl, rfl⟩ := Prod.mk.inj heq
    rcases hne with hne | hred
    · exact absurd rfl hne
    · rw [hfound] at hred
      cases hred
  · exact ⟨found, hmem, hfound⟩

theorem Covered.reduce (h : Covered .appOnly t task) (id : Id) {f : MirrorEntry → MirrorEntry}
    (hf : ∀ entry, (f entry).reduced) {rest}
    (hcovers : ∀ other, other ≠ id → Covers task other → Unreduced rest other) :
    Covered .appOnly (t.modify id f) (.reducing rest) := by
  have hnot : ∀ entry, ¬ Exposed .appOnly (f entry) := by
    intro entry hex
    cases (hf entry).symm.trans hex
  refine h.mono (noMoreExposed_modify id (fun entry hex => absurd hex (hnot entry))) trivial ?_
  intro other _ hget hex hc
  refine hcovers other ?_ hc
  rintro rfl
  rw [get_modify_self, map_eq_some_iff] at hget
  obtain ⟨before, -, rfl⟩ := hget
  exact hnot before hex

theorem Covered.insert {incoming seen answer}
    (h : Covered presentation t (.displayed incoming seen answer)) {serverId}
    {contentHash appName urgency originDeviceId} (hsaw : SawLock presentation task') :
    Covered presentation (t.insert incoming.id serverId contentHash appName urgency seen.isReduced
      originDeviceId).1 task' := by
  obtain ⟨rfl, hpres⟩ := h.saw
  exact h.of_uncovering (fun _ hc => hc) (noMoreExposed_insert hpres) hsaw

end Covered

namespace Slot

variable {x : Texts} {e : Reading} {s t : Slot Id} {a : Action Id} {policy : NotificationPolicy}
  {presentation : Presentation}

theorem start_covered (e : Reading) (item : Item Id Nat) (htask : s.task = .idle)
    (h : Covered presentation s.state.mirrors .idle ∨ item.work = .lockChanged true) :
    Covered presentation (s.start e item).state.mirrors (s.start e item).task := by
  by_cases hlock : item.work = .lockChanged true
  · simp only [start, hlock]
    exact ⟨trivial, fun _ _ _ _ => trivial⟩
  have hidle := h.resolve_right hlock
  have hdrain : NoMoreExposed presentation s.state.mirrors s.state.mirrors.drain.1 := by
    intro _ _ hget
    cases hget
  fun_cases Slot.start s e item
  all_goals first
    | exact hidle.of_uncovering (fun _ hc => hc) .refl trivial
    | exact hidle.of_uncovering (fun _ hc => hc) hdrain trivial
    | exact htask ▸ hidle

variable {task : Task Id}

theorem proceed_covered (hlocked : e.locked) (hpol : e.policy = policy)
    (hfull : resolve policy true ≠ .full) (htask : task ≠ .idle) (hread : TaskPolicy policy task)
    (h : Covered (resolve policy true) s.state.mirrors task) :
    Covered (resolve policy true) (s.proceed x e task).state.mirrors (s.proceed x e task).task := by
  have hnext : ∀ task', (∀ id, ¬ Covers task id) → SawLock (resolve policy true) task' →
      Covered (resolve policy true) s.state.mirrors task' :=
    fun task' hnone hsaw => h.of_uncovering hnone .refl hsaw
  cases task with
  | idle => exact absurd rfl htask
  | announcing | removeGranted =>
    refine hnext _ (fun _ hc => hc) ?_
    simp only [proceed, withTask]
    split <;> trivial
  | announced | dismissing | reconciling => exact hnext _ (fun _ hc => hc) trivial
  | upsertGranted =>
    refine hnext _ (fun _ hc => hc) ?_
    simp only [proceed, withTask]
    split
    · trivial
    · split <;> trivial
  | upsertSourced _ read =>
    obtain rfl : read = policy := hread
    refine hnext _ (fun _ hc => hc) ?_
    simp only [proceed, withTask, hlocked]
    split
    · trivial
    rename_i hsup
    generalize resolve read true = presentation at hfull hsup ⊢
    cases presentation with
    | full => exact absurd rfl hfull
    | appOnly => exact ⟨rfl, rfl⟩
    | suppress => exact absurd rfl hsup
  | upsertPresented =>
    refine hnext _ (fun _ hc => hc) ?_
    simp only [proceed, withTask]
    split
    · trivial
    · exact h.saw
  | displaying => exact hnext _ (fun _ hc => hc) h.saw
  | displayed _ _ answer =>
    cases answer with
    | ok =>
      refine h.insert ?_
      simp only [proceed, withTask]
      split <;> trivial
    | error => exact h.insert trivial
  | removeSourced id => exact h.drop id (fun _ _ hc => absurd hc (fun hc => hc))
  | sweeping stale =>
    cases stale with
    | nil => exact hnext _ (fun _ hc => hc) trivial
    | cons id => exact h.drop id (fun _ _ hc => absurd hc (fun hc => hc))
  | lockStored locked =>
    cases locked with
    | true => exact ⟨trivial, fun _ _ _ _ => trivial⟩
    | false => exact hnext _ (fun _ hc => hc) trivial
  | lockNoted =>
    simp only [proceed, withTask, hpol, if_neg hfull]
    exact ⟨trivial, fun _ _ _ _ => trivial⟩
  | lockResolved presentation =>
    obtain ⟨rfl, -⟩ := hread
    generalize resolve policy true = presentation at hfull ⊢
    cases presentation with
    | full => exact absurd rfl hfull
    | appOnly => exact ⟨trivial, fun id entry hget hex => ⟨entry, mem_iter.mpr hget, hex⟩⟩
    | suppress =>
      refine ⟨trivial, fun id entry hget _ => ?_⟩
      exact mem_map_of_mem (mem_iter.mpr hget)
  | reducing affected =>
    have hpres : resolve policy true = .appOnly := hread
    rw [hpres] at h ⊢
    cases affected with
    | nil => exact h.of_uncovering (by rintro id ⟨_, hmem, -⟩; cases hmem) .refl trivial
    | cons p =>
      obtain ⟨id, _⟩ := p
      simp only [proceed]
      split
      · rename_i hred
        exact h.mono .refl trivial (fun _ _ _ _ hc => hc.tail (.inr hred))
      split
      · exact h.reduce id (fun _ => rfl) (fun _ hne hc => hc.tail (.inl hne))
      refine h.mono .refl trivial (fun other _ _ _ hc => ?_)
      by_cases hne : other = id
      · exact .inl hne
      · exact .inr (hc.tail (.inl hne))
  | redisplaying => exact h.mono .refl trivial (fun _ _ _ _ hc => hc)
  | redisplayed id answer =>
    have hpres : resolve policy true = .appOnly := hread
    rw [hpres] at h ⊢
    cases answer with
    | ok => exact h.reduce id (fun _ => rfl) (fun _ hne hc => hc.resolve_left hne)
    | error => exact h.mono .refl trivial (fun _ _ _ _ hc => hc.imp_left mem_singleton.mpr)
  | closing serverIds ids rest =>
    cases serverIds with
    | cons => exact h.mono .refl trivial (by cases rest <;> exact fun _ _ _ _ hc => hc)
    | nil =>
      cases ids with
      | nil =>
        cases rest with
        | done | sweep => exact h.of_uncovering (fun _ hc => not_mem_nil hc) .refl trivial
        | reduce => exact h.mono .refl trivial (fun _ _ _ _ hc => hc.resolve_left not_mem_nil)
      | cons id =>
        refine h.drop id (fun other hne hc => ?_)
        cases rest with
        | done | sweep => exact (mem_cons.mp hc).resolve_left hne
        | reduce => exact hc.imp_left (fun hin => (mem_cons.mp hin).resolve_left hne)

theorem proceed_taskPolicy (hpol : e.policy = policy) (htask : task ≠ .idle)
    (hread : TaskPolicy policy task) : TaskPolicy policy (s.proceed x e task).task := by
  cases task with
  | idle => exact absurd rfl htask
  | upsertGranted =>
    simp only [proceed, withTask]
    split
    · trivial
    · split
      · trivial
      · exact hread
  | lockNoted =>
    simp only [proceed, withTask, hpol]
    split
    · trivial
    · rename_i hfull
      exact ⟨rfl, hfull⟩
  | lockResolved presentation =>
    obtain ⟨rfl, hfull⟩ := hread
    generalize hres : resolve policy true = presentation at hfull ⊢
    cases presentation with
    | full => exact absurd rfl hfull
    | appOnly => exact hres
    | suppress => trivial
  | reducing affected =>
    cases affected with
    | nil => trivial
    | cons =>
      simp only [proceed]
      split
      · exact hread
      · split <;> exact hread
  | redisplaying => exact hread
  | redisplayed _ answer => cases answer <;> exact hread
  | displayed _ _ answer =>
    cases answer with
    | ok =>
      simp only [proceed, withTask]
      split <;> trivial
    | error => trivial
  | sweeping stale => cases stale <;> trivial
  | closing serverIds ids rest =>
    cases serverIds with
    | cons => cases rest <;> exact hread
    | nil => cases ids <;> cases rest <;> exact hread
  | announcing | upsertSourced | upsertPresented | removeGranted | lockStored =>
    simp only [proceed, withTask]
    split <;> trivial
  | _ => trivial

theorem step_covered (h : s.step x a = some t) (hw : ∀ e, a ≠ .work e)
    (hs : Covered presentation s.state.mirrors s.task) :
    Covered presentation t.state.mirrors t.task := by
  rw [(step_worker h hw).1]
  refine hs.mono ?_ hs.saw (fun _ _ _ _ hc => hc)
  rcases step_mirrors h hw with heq | ⟨_, _, id, _, -, -, -, heq⟩ | ⟨-, heq⟩
  · exact heq ▸ .refl
  · exact heq ▸ noMoreExposed_remove id
  · exact heq ▸ noMoreExposed_invalidate

def LockPending (s : Slot Id) : Prop := ∃ y ∈ s.batch ++ s.queue.items, y.work = .lockChanged true

def Guarded (presentation : Presentation) (s : Slot Id) : Prop :=
  s.LockPending ∨ Covered presentation s.state.mirrors s.task

def reads (policy : NotificationPolicy) (locked : Bool) : Action Id → Bool
  | .work e => e.policy = policy && e.locked = locked
  | _ => true

theorem step_guarded (h : s.step x a = some t) (hlt : s.queue.items.length < MAX_QUEUED_WORK)
    (hreads : reads policy true a) (hfull : resolve policy true ≠ .full)
    (hread : TaskPolicy policy s.task) (hs : s.Guarded (resolve policy true)) :
    t.Guarded (resolve policy true) := by
  by_cases hw : ∃ e, a = .work e
  · obtain ⟨e, rfl⟩ := hw
    obtain ⟨hpol, hlocked⟩ : e.policy = policy ∧ e.locked := by simpa [reads] using hreads
    cases step_cases h with
    | drain e _ hbat =>
      refine hs.imp_left ?_
      rintro ⟨y, hy, hwork⟩
      exact ⟨y, by simpa [hbat, WorkQueue.drain] using hy, hwork⟩
    | start e item rest htask hbat =>
      have hcov : Covered (resolve policy true) s.state.mirrors .idle ∨
          item.work = .lockChanged true →
          Covered (resolve policy true) ({ s with batch := rest }.start e item).state.mirrors
            ({ s with batch := rest }.start e item).task :=
              start_covered (s := { s with batch := rest }) e item htask
      rcases hs with ⟨y, hy, hwork⟩ | hc
      · rw [hbat, cons_append, mem_cons] at hy
        rcases hy with rfl | hy
        · exact .inr (hcov (.inr hwork))
        · obtain ⟨hqueue, hrest, -⟩ := start_frame { s with batch := rest } e item
          exact .inl ⟨y, by rw [hqueue, hrest]; exact hy, hwork⟩
      · rw [htask] at hc
        exact .inr (hcov (.inl hc))
    | proceed e htask =>
      rcases hs with ⟨y, hy, hwork⟩ | hc
      · obtain ⟨hqueue, hbat⟩ := proceed_frame x e s s.task
        exact .inl ⟨y, by rw [hqueue, hbat]; exact hy, hwork⟩
      · exact .inr (proceed_covered hlocked hpol hfull htask hread hc)
  · have hw' : ∀ e, a ≠ .work e := fun e he => hw ⟨e, he⟩
    refine hs.imp ?_ (step_covered h hw')
    rintro ⟨y, hy, hwork⟩
    refine ⟨y, ?_, hwork⟩
    rcases mem_append.mp hy with hy | hy
    · exact mem_append_left _ (by rw [(step_worker h hw').2.1]; exact hy)
    · exact mem_append_right _ (step_keeps_pending h hlt hw' hy (by simp [hwork]))

theorem step_taskPolicy {locked} (h : s.step x a = some t) (hreads : reads policy locked a)
    (hread : TaskPolicy policy s.task) : TaskPolicy policy t.task := by
  by_cases hw : ∃ e, a = .work e
  · obtain ⟨e, rfl⟩ := hw
    obtain ⟨hpol, -⟩ : e.policy = policy ∧ e.locked = locked := by simpa [reads] using hreads
    cases step_cases h with
    | drain => exact hread
    | start e item rest =>
      fun_cases Slot.start { s with batch := rest } e item
      all_goals trivial
    | proceed e htask => exact proceed_taskPolicy hpol htask hread
  · rw [(step_worker h (fun e he => hw ⟨e, he⟩)).1]
    exact hread

end Slot

variable {P : Type} [DecidableEq P]

/-- The manager with any number of peers. `cached` is its own idea of the lock and
`screenLocked` the truth; `storing` holds what an upsert has read of the lock and
not yet stored, and `passes` the calls of `set_locked` with the peers they have
still to visit. `signalled` says that `set_locked(true)` has been called since the
screen locked. -/
structure LockManager (P Id : Type) [LinearOrder Id] where
  slots : P → Slot Id := fun _ => {}
  known : List P := []
  cached : Bool := false
  screenLocked : Bool := false
  signalled : Bool := false
  storing : P → Option Bool := fun _ => none
  passes : List (Bool × List P) := []

inductive LockMove (P Id : Type) where
  | join (p : P)
  | slot (p : P) (a : Action Id)
  | store (p : P)
  | screen (locked : Bool)
  | setLocked (locked : Bool)
  | pass (i : Nat)

namespace LockManager

section

variable (s : LockManager P Id)

def withSlot (p : P) (t : Slot Id) : LockManager P Id :=
  { s with slots := Function.update s.slots p t }

theorem withSlot_self (p) (t) : (s.withSlot p t).slots p = t := by
  simp [withSlot]

theorem withSlot_of_ne {p q} (h : q ≠ p) (t) : (s.withSlot p t).slots q = s.slots q := by
  simp [withSlot, h]

def probe (p : P) : Action Id → Option Bool
  | .work e =>
    match (s.slots p).task with
    | .upsertSourced _ _ => some e.locked
    | _ => s.storing p
  | _ => s.storing p

def cachedAfter (p : P) : Action Id → Bool
  | .work _ =>
    match (s.slots p).task, (s.slots p).batch with
    | .idle, ⟨.lockChanged locked, _⟩ :: _ => locked
    | _, _ => s.cached
  | _ => s.cached

/-- The lock reaches a slot through `set_locked` alone, and a worker stores what it
has read before it goes on. -/
def allows (p : P) : Action Id → Bool
  | .lockSignal _ => false
  | .work _ => s.storing p = none
  | _ => true

def step (x : Texts) (policy : P → NotificationPolicy) (s : LockManager P Id) :
    LockMove P Id → Option (LockManager P Id)
  | .join p => if p ∈ s.known then none else some { s with known := s.known ++ [p] }
  | .slot p a =>
    if p ∈ s.known ∧ Slot.reads (policy p) s.screenLocked a ∧ s.allows p a then
      ((s.slots p).step x a).map (fun t =>
        { s.withSlot p t with
          cached := s.cachedAfter p a
          storing := Function.update s.storing p (s.probe p a) })
    else none
  | .store p =>
    (s.storing p).map (fun locked =>
      { s with cached := locked, storing := Function.update s.storing p none })
  | .screen locked =>
    if s.screenLocked = locked then none
      else some { s with screenLocked := locked, signalled := false }
  | .setLocked locked =>
    some { s with
      cached := locked
      signalled := s.signalled || (locked && s.screenLocked)
      passes := if s.cached = locked then s.passes else s.passes ++ [(locked, s.known)] }
  | .pass i =>
    match s.passes[i]? with
    | none | some (_, []) => none
    | some (locked, p :: rest) =>
      ((s.slots p).step x (.lockSignal locked)).map (fun t =>
        { s.withSlot p t with passes := s.passes.set i (locked, rest) })

def Visits (p : P) : Prop :=
  ∃ (i : Nat) (rest : List P), s.passes[i]? = some (true, rest) ∧ p ∈ rest

structure Watched (policy : P → NotificationPolicy) (s : LockManager P Id) : Prop where
  fresh : ∀ p ∉ s.known, s.slots p = {}
  visited : ∀ pass ∈ s.passes, ∀ p ∈ pass.2, p ∈ s.known
  read : ∀ p, TaskPolicy (policy p) (s.slots p).task
  watch : s.screenLocked → s.signalled → ∀ p ∈ s.known,
    resolve (policy p) true ≠ .full →
      s.Visits p ∨ (s.slots p).Guarded (resolve (policy p) true)

/-- Every queue is below its ceiling, and the first `set_locked(true)` after the
screen locked finds the cached flag unset. -/
def Unforeseen (m : LockMove P Id) : Prop :=
  (∀ p ∈ s.known, (s.slots p).queue.items.length < MAX_QUEUED_WORK) ∧
    match m with
    | .setLocked true => s.screenLocked → s.cached = false ∨ s.signalled
    | _ => True

end

section Steps

variable {x : Texts} {policy : P → NotificationPolicy} {s : LockManager P Id} {p : P}

variable {t : Slot Id}

theorem Watched.withSlot (hs : Watched policy s) (hp : p ∈ s.known)
    (hread : TaskPolicy (policy p) t.task)
    (hguard : s.screenLocked → resolve (policy p) true ≠ .full →
      (s.slots p).Guarded (resolve (policy p) true) → t.Guarded (resolve (policy p) true)) :
    Watched policy (s.withSlot p t) where
  fresh q hq := by
    have hne : q ≠ p := fun heq => hq (heq ▸ hp)
    exact (withSlot_of_ne s hne t).trans (hs.fresh q hq)
  visited := hs.visited
  read q := by
    by_cases hq : q = p
    · subst hq
      rw [withSlot_self]
      exact hread
    · rw [withSlot_of_ne s hq]
      exact hs.read q
  watch hlock hsig q hknown hfull := by
    refine (hs.watch hlock hsig q hknown hfull).imp_right (fun hg => ?_)
    by_cases hq : q = p
    · subst hq
      rw [withSlot_self]
      exact hguard hlock hfull hg
    · rw [withSlot_of_ne s hq]
      exact hg

omit [DecidableEq P] in
theorem Watched.of_cached (hs : Watched policy s) (cached : Bool) (storing : P → Option Bool) :
    Watched policy { s with cached := cached, storing := storing } :=
  ⟨hs.fresh, hs.visited, hs.read, hs.watch⟩

theorem watched_join (hs : Watched policy s) :
    Watched policy { s with known := s.known ++ [p] } where
  fresh q hq := hs.fresh q (fun hin => hq (mem_append_left _ hin))
  visited pass hpass q hq := mem_append_left _ (hs.visited pass hpass q hq)
  read := hs.read
  watch hlock hsig q hq hfull := by
    by_cases hin : q ∈ s.known
    · exact hs.watch hlock hsig q hin hfull
    · refine .inr (.inr ?_)
      rw [hs.fresh q hin]
      exact ⟨trivial, nofun⟩

variable {locked : Bool}

omit [DecidableEq P] in
theorem watched_setLocked (hok : s.Unforeseen (.setLocked locked)) (hs : Watched policy s) :
    Watched policy { s with
      cached := locked
      signalled := s.signalled || (locked && s.screenLocked)
      passes := if s.cached = locked then s.passes else s.passes ++ [(locked, s.known)] } where
  fresh := hs.fresh
  visited pass hpass := by
    split at hpass
    · exact hs.visited pass hpass
    · exact forall_mem_concat hs.visited (fun q hq => hq) pass hpass
  read := hs.read
  watch hlock hsig q hknown hfull := by
    by_cases hold : s.signalled
    · refine (hs.watch hlock hold q hknown hfull).imp_left ?_
      rintro ⟨i, rest, hi, hq⟩
      refine ⟨i, rest, ?_, hq⟩
      split
      · exact hi
      · rw [List.getElem?_append_left (List.getElem?_eq_some_iff.mp hi).1]
        exact hi
    -- the call that finds the flag unset is to visit every peer
    · obtain rfl : locked := by
        cases locked with
        | true => rfl
        | false => simp [hold] at hsig
      have hcached : s.cached = false := (hok.2 hlock).resolve_right hold
      refine .inl ⟨s.passes.length, s.known, ?_, hknown⟩
      simp [hcached]

theorem watched_pass {i rest}
    (hlt : ∀ p ∈ s.known, (s.slots p).queue.items.length < MAX_QUEUED_WORK)
    (hi : s.passes[i]? = some (locked, p :: rest))
    (h : (s.slots p).step x (.lockSignal locked) = some t) (hs : Watched policy s) :
    Watched policy { s.withSlot p t with passes := s.passes.set i (locked, rest) } := by
  have hp : p ∈ s.known := hs.visited _ (mem_of_getElem? hi) p mem_cons_self
  have hreads : Slot.reads (policy p) true (.lockSignal locked : Action Id) := rfl
  have hslot : Watched policy (s.withSlot p t) :=
    hs.withSlot hp (Slot.step_taskPolicy h hreads (hs.read p))
      (fun _ hfull hg => Slot.step_guarded h (hlt p hp) hreads hfull (hs.read p) hg)
  refine ⟨hslot.fresh, ?_, hslot.read, ?_⟩
  · refine forall_mem_set hs.visited ?_
    exact fun q hq => hs.visited _ (mem_of_getElem? hi) q (mem_cons_of_mem _ hq)
  · intro hlock hsig q hknown hfull
    rcases hslot.watch hlock hsig q hknown hfull with ⟨j, visits, hj, hq⟩ | hg
    · have hilt := (List.getElem?_eq_some_iff.mp hi).1
      by_cases hji : j = i
      · subst hji
        obtain ⟨rfl, rfl⟩ := Prod.mk.inj (some.inj (hj.symm.trans hi))
        rcases mem_cons.mp hq with rfl | hq
        -- the peer that was just visited has the lock change in its queue
        · refine .inr (.inl ⟨⟨.lockChanged true, 0⟩, mem_append_right _ ?_, rfl⟩)
          cases h
          rw [withSlot_self]
          exact WorkQueue.mem_offer_self_of_lt (hlt q hp) (by simp) (by simp)
        · exact .inl ⟨j, rest, getElem?_set_self hilt, hq⟩
      · exact .inl ⟨j, visits, (getElem?_set_ne (Ne.symm hji)).trans hj, hq⟩
    · exact .inr hg

theorem step_watched {s t} {m : LockMove P Id} (hok : s.Unforeseen m)
    (h : s.step x policy m = some t) (hs : Watched policy s) : Watched policy t := by
  cases m with
  | join =>
    simp only [step, ite_none_left_eq_some, some.injEq] at h
    obtain ⟨-, rfl⟩ := h
    exact watched_join hs
  | slot p =>
    simp only [step, ite_none_right_eq_some, map_eq_some_iff] at h
    obtain ⟨⟨hp, hreads, -⟩, _, hslot, rfl⟩ := h
    refine (hs.withSlot hp (Slot.step_taskPolicy hslot hreads (hs.read p)) ?_).of_cached _ _
    intro hlock hfull hg
    rw [hlock] at hreads
    exact Slot.step_guarded hslot (hok.1 p hp) hreads hfull (hs.read p) hg
  | store =>
    simp only [step, map_eq_some_iff] at h
    obtain ⟨_, -, rfl⟩ := h
    exact hs.of_cached _ _
  | screen =>
    simp only [step, ite_none_left_eq_some, some.injEq] at h
    obtain ⟨-, rfl⟩ := h
    exact ⟨hs.fresh, hs.visited, hs.read, nofun⟩
  | setLocked =>
    cases h
    exact watched_setLocked hok hs
  | pass =>
    simp only [step] at h
    split at h
    · cases h
    · cases h
    · rename_i locked p rest hi
      obtain ⟨_, hslot, rfl⟩ := map_eq_some_iff.mp h
      exact watched_pass hok.1 hi hslot hs

end Steps

/-- The screen is locked, every call of `set_locked(true)` has returned, one of them
since the screen locked, and every worker has done its work. -/
def LockHandled (s : LockManager P Id) : Prop :=
  s.screenLocked ∧ s.signalled ∧ (∀ (i : Nat) rest, s.passes[i]? = some (true, rest) →
    rest = []) ∧ ∀ p ∈ s.known, (s.slots p).Drained

/-- What a peer's policy allows on a locked screen is all that is there. -/
def Concealed (policy : P → NotificationPolicy) (s : LockManager P Id) : Prop :=
  ∀ p ∈ s.known,
    (resolve (policy p) true = .appOnly →
      ∀ id entry, (s.slots p).state.mirrors.get id = some entry → entry.reduced) ∧
    (resolve (policy p) true = .suppress → (s.slots p).state.mirrors.entries = .empty)

/-- Where the first lock signal after the screen locked finds the flag unset, a
locked screen shows of every peer what its policy allows. -/
theorem locked_screen_concealed (x : Texts) (policy : P → NotificationPolicy)
    {ms : List (LockMove P Id)} {s : LockManager P Id} (hrun : run (step x policy) {} ms = some s)
    (hok : Meets (step x policy) Unforeseen {} ms) (hhand : s.LockHandled) :
    s.Concealed policy := by
  have hstep : ∀ (s : LockManager P Id) (m : LockMove P Id) (t : LockManager P Id), s.Unforeseen m →
      s.step x policy m = some t → Watched policy s → Watched policy t := fun s m t hok h hs =>
      step_watched hok h hs
  have hstart : Watched policy ({} : LockManager P Id) :=
    ⟨fun _ _ => rfl, by simp, fun _ => trivial, nofun⟩
  have hinv := run_invariant (step x policy) hstep hrun hok hstart
  obtain ⟨hlock, hsig, hret, hdrained⟩ := hhand
  intro p hp
  obtain ⟨hitems, hbat, htask⟩ := hdrained p hp
  have hnone : resolve (policy p) true ≠ .full → ∀ id entry, (s.slots p).state.mirrors.get id =
      some entry → ¬ Exposed (resolve (policy p) true) entry := by
    intro hfull id entry hget hex
    rcases hinv.watch hlock hsig p hp hfull with ⟨i, rest, hi, hin⟩ | ⟨y, hy, -⟩ | hc
    · rw [hret i rest hi] at hin
      cases hin
    · rw [hitems, hbat] at hy
      cases hy
    · have hcovers := hc.covers id entry hget hex
      rw [htask] at hcovers
      exact hcovers
  constructor
  · intro hpres id entry hget
    rw [hpres] at hnone
    exact Bool.not_eq_false _ ▸ hnone (by simp) id entry hget
  · intro hpres
    rw [hpres] at hnone
    refine SortedMap.ext_get (fun id => ?_)
    cases hget : (s.slots p).state.mirrors.entries.get id with
    | none => rfl
    | some entry => exact absurd trivial (hnone (by simp) id entry hget)

instance (s : LockManager P Id) (m : LockMove P Id) : Decidable (s.Unforeseen m) := by
  unfold Unforeseen
  induction m using LockMove.casesOn
  case setLocked locked => induction locked using Bool.casesOn <;> infer_instance
  all_goals infer_instance

def displays (id : Nat) (locked : Bool) : List (LockMove Nat Nat) :=
  [.slot 0 (.receive 0 {} (.upsert ⟨id, {}⟩))] ++
    replicate 4 (.slot 0 (.work { locked := locked })) ++ [.store 0] ++
    replicate 3 (.slot 0 (.work { locked := locked }))

/-- One peer, a source, with notification 5 on an unlocked screen; then the screen locks. -/
def locksOverMirror : List (LockMove Nat Nat) :=
  [LockMove.join 0, .slot 0 .attachGeneration, .slot 0 (.attachSender 0), .slot 0 (.attachState 0),
    .slot 0 (.receive 0 {} (.roles ⟨[1], 1⟩))] ++ replicate 4 (.slot 0 (.work {})) ++
    displays 5 false ++ [.screen true]

theorem locked_screen_concealed_by_signal :
    ∃ s, run (step .plain (fun _ => {})) {} (locksOverMirror ++ [.setLocked true, .pass 0] ++
      replicate 9 (.slot 0 (.work { locked := true }))) = some s ∧
      (s.slots 0).state.mirrors.entries.keys = [5] ∧ s.Concealed (fun _ => {}) := by
  refine exists_some_imp (P := fun s => (s.slots 0).state.mirrors.entries.keys = [5] ∧
    s.screenLocked ∧ s.signalled ∧ s.passes = [(true, [])] ∧ s.known = [0] ∧ (s.slots 0).Drained)
    ⟨_, rfl, rfl, rfl, rfl, rfl, rfl, rfl, rfl, rfl⟩
      (fun s hrun ⟨hkeys, hlock, hsig, hpasses, hknown, hdrained⟩ => ?_)
  refine ⟨hkeys, locked_screen_concealed .plain _ hrun (by decide) ⟨hlock, hsig, ?_, ?_⟩⟩
  · intro i _ hi
    rw [hpasses] at hi
    exact (Prod.mk.inj (mem_singleton.mp (mem_of_getElem? hi))).2
  · rw [hknown]
    simpa using hdrained

/-- An upsert reads the locked screen and stores it before the lock signal arrives: no lock change
is queued, and the mirror displayed on the unlocked screen stays as it is. -/
theorem locked_screen_exposed_by_upsert :
    ∃ s, run (step .plain (fun _ => {})) {} (locksOverMirror ++ displays 6 true ++
      [.setLocked true]) = some s ∧ s.LockHandled ∧
      (s.slots 0).state.mirrors.entries.keys = [5, 6] ∧
      ((s.slots 0).state.mirrors.get 5).map MirrorEntry.reduced = some false ∧
      ¬ s.Concealed (fun _ => {}) := by
  refine exists_some_imp (P := fun s => (s.slots 0).state.mirrors.entries.keys = [5, 6] ∧
    s.screenLocked ∧ s.signalled ∧ s.passes = [] ∧ s.known = [0] ∧
    ((s.slots 0).state.mirrors.get 5).map MirrorEntry.reduced = some false ∧ (s.slots 0).Drained)
    ⟨_, rfl, rfl, rfl, rfl, rfl, rfl, rfl, rfl, rfl, rfl⟩
    (fun s _ ⟨hkeys, hlock, hsig, hpasses, hknown, hfull, hdrained⟩ => ?_)
  refine ⟨⟨hlock, hsig, ?_, ?_⟩, hkeys, hfull, ?_⟩
  · intro i _ hi
    rw [hpasses] at hi
    cases hi
  · rw [hknown]
    simpa using hdrained
  · intro h
    obtain ⟨entry, hget, hreduc⟩ := map_eq_some_iff.mp hfull
    have hpres : resolve {} true = .appOnly := rfl
    cases hreduc.symm.trans ((h 0 (by simp [hknown])).1 hpres 5 entry hget)

end LockManager

end OmniBridge.Sink
