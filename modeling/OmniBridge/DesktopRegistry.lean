import OmniBridge.DesktopSessions

/-! The map from peers to their sessions, as the calls of many overlapping sessions leave
it. Each call is cut at the locks it takes; a session that is displaced is shut down by
a task of its own. The map is a fold of the calls in the order they take its lock. -/

namespace OmniBridge.Desktop

open List Option Function

namespace Registry

inductive Event (Fp : Type) where
  | registered (peer : Fp) (id : Nat)
  | unregistered (peer : Fp) (id : Nat)
  | dropped (peer : Fp)
deriving DecidableEq

inductive Call (Fp : Type) where
  | clearing (peer : Fp) (id : Nat)
  | inserting (peer : Fp) (id : Nat)
  | removing (peer : Fp) (id : Nat)
  | dropping (peer : Fp)
  | noting (peer : Fp)
  | shuttingDown (id : Nat)
  | returned

def Call.closes {Fp : Type} : Call Fp → Option Nat
  | .shuttingDown id => some id
  | _ => none

/-- What the call does when it takes the lock of the map. -/
def Call.events {Fp : Type} : Call Fp → List (Event Fp)
  | .inserting peer id => [.registered peer id]
  | .removing peer id => [.unregistered peer id]
  | .dropping peer => [.dropped peer]
  | _ => []

inductive Action (Fp : Type) where
  | registerSession (peer : Fp) (id : Nat)
  | unregisterSession (peer : Fp) (id : Nat)
  | dropSession (peer : Fp)
  | proceed (i : Nat) (now : Nat)

end Registry

/-- `asked` lists the sessions that were sent a shutdown. -/
structure Registry (Fp : Type) where
  sessions : Fp → Option Nat := fun _ => none
  requested : Fp → Option Nat := fun _ => none
  lastSeen : Fp → Option Nat := fun _ => none
  calls : List (Registry.Call Fp) := []
  asked : List Nat := []

namespace Registry

variable {Fp : Type} [DecidableEq Fp]

section Model

variable (s : Registry Fp)

def enter (i : Nat) (call : Call Fp) : Registry Fp := { s with calls := s.calls.set i call }

/-- The insertion of `register_session`; a session it displaces is shut down in a task. -/
def insert (i : Nat) (peer : Fp) (id : Nat) : Registry Fp :=
  let displaced := s.sessions peer
  let s := { s with sessions := update s.sessions peer (some id) }.enter i .returned
  { s with calls := s.calls ++ (displaced.map Call.shuttingDown).toList }

def remove (i : Nat) (peer : Fp) (id : Nat) : Registry Fp :=
  if s.sessions peer = some id then
    { s with sessions := update s.sessions peer none }.enter i (.noting peer)
  else s.enter i .returned

def drop (i : Nat) (peer : Fp) : Registry Fp :=
  { s with sessions := update s.sessions peer none }.enter i
    (if (s.sessions peer).isSome then .noting peer else .returned)

def proceed (i now : Nat) : Call Fp → Option (Registry Fp)
  | .clearing peer id =>
    some ({ s with requested := update s.requested peer none }.enter i (.inserting peer id))
  | .inserting peer id => some (s.insert i peer id)
  | .removing peer id => some (s.remove i peer id)
  | .dropping peer => some (s.drop i peer)
  | .noting peer =>
    some ({ s with lastSeen := update s.lastSeen peer (some now) }.enter i .returned)
  | .shuttingDown id => some ({ s with asked := s.asked ++ [id] }.enter i .returned)
  | .returned => none

def step : Action Fp → Option (Registry Fp)
  | .registerSession peer id => some { s with calls := s.calls ++ [.clearing peer id] }
  | .unregisterSession peer id => some { s with calls := s.calls ++ [.removing peer id] }
  | .dropSession peer => some { s with calls := s.calls ++ [.dropping peer] }
  | .proceed i now => (s.calls[i]?).bind (s.proceed i now)

def events : Action Fp → List (Event Fp)
  | .proceed i _ => (s.calls[i]?).elim [] Call.events
  | _ => []

def closing : List Nat := s.calls.filterMap Call.closes

end Model

section Log

variable {log before after : List (Event Fp)} {event : Event Fp} {fp fp' : Fp} {id id' : Nat}

def Event.apply (sessions : Fp → Option Nat) : Event Fp → Fp → Option Nat
  | .registered peer id => update sessions peer (some id)
  | .unregistered peer id => if sessions peer = some id then update sessions peer none else sessions
  | .dropped peer => update sessions peer none

open Event

def current (log : List (Event Fp)) : Fp → Option Nat := log.foldl apply (fun _ => none)

def Event.ends (fp : Fp) (id : Nat) : Event Fp → Bool
  | .registered peer _ => peer = fp
  | .unregistered peer id' => peer = fp ∧ id' = id
  | .dropped peer => peer = fp

/-- The session was registered last for its peer, and has since been neither unregistered
by its id nor dropped. -/
def Latest (log : List (Event Fp)) (fp : Fp) (id : Nat) : Prop :=
  ∃ before after, log = before ++ .registered fp id :: after ∧ ∀ event ∈ after,
    event.ends fp id = false

def Superseded (log : List (Event Fp)) (fp : Fp) (id : Nat) : Prop :=
  ∃ before id' after, log = before ++ .registered fp id' :: after ∧ .registered fp id ∈ before

def Event.registers : Event Fp → Option Nat
  | .registered _ id => some id
  | _ => none

def Event.displaces (log : List (Event Fp)) : Event Fp → List Nat
  | .registered peer _ => (current log peer).toList
  | _ => []

def displaced (log : List (Event Fp)) : List Nat :=
  (range log.length).flatMap (fun k => (log[k]?).elim [] (displaces (log.take k)))

theorem current_append (event) : current (log ++ [event]) = event.apply (current log) := by
  rw [current, foldl_append]
  rfl

theorem displaced_append (event) :
    displaced (log ++ [event]) = displaced log ++ event.displaces log := by
  unfold displaced
  rw [length_append, length_singleton, range_succ, flatMap_append]
  congr 1
  · refine flatMap_congr ?_
    intro k hk
    have hlt : k < log.length := mem_range.mp hk
    rw [getElem?_append_left hlt, take_append_of_le_length (Nat.le_of_lt hlt)]
  · rw [flatMap_singleton, getElem?_concat_length, take_left' rfl]
    rfl

theorem apply_eq_some {sessions : Fp → Option Nat} :
    event.apply sessions fp = some id ↔ event = .registered fp id ∨ sessions fp = some id ∧
      event.ends fp id = false := by
  cases event with
  | registered peer =>
    by_cases hpeer : fp = peer
    · subst hpeer
      simp [apply, ends, eq_comm]
    · have hoth : peer ≠ fp := Ne.symm hpeer
      simp [apply, ends, update_of_ne hpeer, hoth]
  | unregistered peer i =>
    by_cases hpeer : fp = peer
    · subst hpeer
      by_cases hid : sessions fp = some i
      · simp [apply, ends, hid]
      simp only [apply, hid, if_false, ends, reduceCtorEq, false_or, true_and]
      constructor
      · intro h
        refine ⟨h, ?_⟩
        rw [h] at hid
        simpa [eq_comm] using hid
      · exact fun h => h.1
    · have hoth : peer ≠ fp := Ne.symm hpeer
      by_cases hid : sessions peer = some i
      · simp [apply, ends, hid, update_of_ne hpeer, hoth]
      · simp [apply, ends, hid, hoth]
  | dropped peer =>
    by_cases hpeer : fp = peer
    · subst hpeer
      simp [apply, ends]
    · have hoth : peer ≠ fp := Ne.symm hpeer
      simp [apply, ends, update_of_ne hpeer, hoth]

theorem latest_append :
    Latest (log ++ [event]) fp id ↔ event = .registered fp id ∨ Latest log fp id ∧
      event.ends fp id = false := by
  constructor
  · rintro ⟨before, after, hlog, hafter⟩
    rcases eq_nil_or_concat after with rfl | ⟨after, _, rfl⟩
    · exact .inl (cons.inj (append_inj_right' hlog rfl)).1
    rw [concat_eq_append, ← cons_append, ← append_assoc] at hlog
    obtain ⟨hinit, hlast⟩ := append_inj' hlog rfl
    obtain rfl := (cons.inj hlast).1
    rw [concat_eq_append] at hafter
    refine .inr ⟨⟨before, after, hinit, ?_⟩, hafter event (mem_append_right _ mem_cons_self)⟩
    exact fun other hoth => hafter other (mem_append_left _ hoth)
  · rintro (rfl | ⟨⟨before, after, rfl, hafter⟩, hevent⟩)
    · exact ⟨log, [], rfl, nofun⟩
    · exact ⟨before, after ++ [event], by simp, forall_mem_concat hafter hevent⟩

theorem current_eq_some : current log fp = some id ↔ Latest log fp id := by
  induction log using reverseRecOn generalizing fp id with
  | nil =>
    refine iff_of_false nofun ?_
    rintro ⟨_, _, hlog, -⟩
    simp at hlog
  | append_singleton _ _ ih => rw [current_append, apply_eq_some, latest_append, ih]

theorem current_ne_of_append (h : current before fp ≠ some id)
    (hafter : ∀ event ∈ after, event.registers ≠ some id) :
    current (before ++ after) fp ≠ some id := by
  induction after using reverseRecOn with
  | nil => rwa [append_nil]
  | append_singleton _ event ih =>
    have hrest := ih (fun other hoth => hafter other (mem_append_left _ hoth))
    have hevent := hafter event (mem_append_right _ mem_cons_self)
    rw [← append_assoc, current_append, ne_eq, apply_eq_some]
    rintro (rfl | ⟨hcurr, -⟩)
    · exact hevent rfl
    · exact hrest hcurr

theorem current_ne_of_superseded (hdist : (log.filterMap registers).Nodup)
    (h : Superseded log fp id) : current log fp ≠ some id := by
  obtain ⟨before, id', after, rfl, hold⟩ := h
  rw [filterMap_append, filterMap_cons_some (by rfl : (registered fp id').registers = some id'),
    nodup_append] at hdist
  have hmem : id ∈ before.filterMap registers := mem_filterMap.mpr ⟨_, hold, rfl⟩
  have hapart := hdist.2.2 id hmem
  have hnew : current (before ++ [.registered fp id']) fp ≠ some id := by
    rw [current_append, apply, update_self, ne_eq, some.injEq]
    exact fun heq => hapart id' mem_cons_self heq.symm
  have hlater : ∀ event ∈ after, event.registers ≠ some id := by
    intro event hevent hreg
    exact hapart id (mem_cons_of_mem _ (mem_filterMap.mpr ⟨event, hevent, hreg⟩)) rfl
  have hall := current_ne_of_append hnew hlater
  rwa [append_assoc] at hall

/-- Where no id is registered twice, none is displaced twice, and none that is in the map
has been. -/
structure Settled (log : List (Event Fp)) : Prop where
  known : ∀ fp id, current log fp = some id → id ∈ log.filterMap registers
  apart : ∀ fp fp' id, current log fp = some id → current log fp' = some id → fp = fp'
  old : ∀ id ∈ displaced log, id ∈ log.filterMap registers
  once : (displaced log).Nodup
  gone : ∀ fp id, current log fp = some id → id ∉ displaced log

theorem Settled.shrinks (h : Settled log) (hreg : event.registers = none) :
    Settled (log ++ [event]) := by
  have hids : (log ++ [event]).filterMap registers = log.filterMap registers := by
    rw [filterMap_append, filterMap_cons_none hreg, filterMap_nil, append_nil]
  have hdisp : displaced (log ++ [event]) = displaced log := by
    rw [displaced_append]
    cases event with
    | registered => cases hreg
    | _ => exact append_nil _
  have hcurr : ∀ fp id, current (log ++ [event]) fp = some id → current log fp = some id := by
    intro _ _ hid
    rw [current_append, apply_eq_some] at hid
    rcases hid with rfl | ⟨hid, -⟩
    · cases hreg
    · exact hid
  refine ⟨?_, ?_, ?_, hdisp ▸ h.once, ?_⟩
  · exact fun fp id hid => hids ▸ h.known fp id (hcurr fp id hid)
  · exact fun fp fp' id hid hid' => h.apart fp fp' id (hcurr fp id hid) (hcurr fp' id hid')
  · rw [hids, hdisp]
    exact h.old
  · rw [hdisp]
    exact fun fp id hid => h.gone fp id (hcurr fp id hid)

theorem Settled.registers (h : Settled log) (hfresh : id ∉ log.filterMap Event.registers) :
    Settled (log ++ [.registered fp id]) := by
  have hids : (log ++ [Event.registered fp id]).filterMap Event.registers = log.filterMap
      Event.registers ++ [id] :=
    filterMap_append
  have hcurr : ∀ fp' id', current (log ++ [.registered fp id]) fp' = some id' →
      fp' = fp ∧ id' = id ∨ fp' ≠ fp ∧ current log fp' = some id' := by
    intro fp' _ hid
    rw [current_append, Event.apply] at hid
    by_cases hpeer : fp' = fp
    · subst hpeer
      rw [update_self, some.injEq] at hid
      exact .inl ⟨rfl, hid.symm⟩
    · rw [update_of_ne hpeer] at hid
      exact .inr ⟨hpeer, hid⟩
  have hdisp : ∀ id', id' ∈ displaced (log ++ [.registered fp id]) ↔
      id' ∈ displaced log ∨ current log fp = some id' := by
    intro _
    rw [displaced_append, mem_append, Event.displaces, mem_toList]
  have hknown : ∀ fp' id', current log fp' = some id' → id' ≠ id := by
    rintro fp' id' hid rfl
    exact hfresh (h.known fp' id' hid)
  constructor
  · intro fp' id' hid
    rw [hids, mem_append, mem_singleton]
    rcases hcurr fp' id' hid with ⟨-, rfl⟩ | ⟨-, hid⟩
    · exact .inr rfl
    · exact .inl (h.known fp' id' hid)
  · intro fp₁ fp₂ id' h₁ h₂
    rcases hcurr fp₁ id' h₁ with ⟨rfl, rfl⟩ | ⟨-, _⟩
    · rcases hcurr fp₂ id' h₂ with ⟨rfl, -⟩ | ⟨-, h₂⟩
      · rfl
      · exact absurd rfl (hknown fp₂ id' h₂)
    · rcases hcurr fp₂ id' h₂ with ⟨-, heq⟩ | ⟨-, h₂⟩
      · exact absurd heq (hknown fp₁ id' ‹_›)
      · exact h.apart fp₁ fp₂ id' ‹_› h₂
  · intro id' hid
    rw [hids, mem_append]
    rcases (hdisp id').mp hid with hid | hid
    · exact .inl (h.old id' hid)
    · exact .inl (h.known fp id' hid)
  · rw [displaced_append, nodup_append]
    refine ⟨h.once, ?_, ?_⟩
    · cases hwas : current log fp with
      | _ => simp [Event.displaces, hwas]
    · intro _ hid id'' hid' heq
      rw [Event.displaces, mem_toList] at hid'
      exact h.gone fp id'' hid' (heq ▸ hid)
  · intro fp' id' hid hmem
    rcases hcurr fp' id' hid with ⟨rfl, rfl⟩ | ⟨hpeer, hid⟩
    · rcases (hdisp id').mp hmem with hmem | hmem
      · exact hfresh (h.old id' hmem)
      · exact absurd rfl (hknown fp' id' hmem)
    · rcases (hdisp id').mp hmem with hmem | hmem
      · exact h.gone fp' id' hid hmem
      · exact hpeer (h.apart fp' fp id' hid hmem)

theorem settled (hdist : (log.filterMap registers).Nodup) : Settled log := by
  induction log using reverseRecOn with
  | nil => exact ⟨nofun, nofun, nofun, nodup_nil, nofun⟩
  | append_singleton _ event ih =>
    rw [filterMap_append] at hdist
    have hbef := ih (nodup_append.mp hdist).1
    cases event with
    | registered _ id =>
      refine hbef.registers ?_
      exact fun hmem => (nodup_append.mp hdist).2.2 id hmem id mem_cons_self rfl
    | _ => exact hbef.shrinks rfl

end Log

section Runs

variable {s t : Registry Fp} {a : Action Fp} {as : List (Action Fp)} {log : List (Event Fp)}

/-- The map is that of the log, and each session that was displaced is shut down by one
task, which has asked it or is going to. -/
structure Kept (log : List (Event Fp)) (s : Registry Fp) : Prop where
  sessions : s.sessions = current log
  asked : (s.asked ++ s.closing).Perm (displaced log)

variable {peer : Fp} {i id : Nat}

theorem Kept.takes (h : s.Kept log) (event) (hsess : t.sessions = event.apply s.sessions)
    (hask : t.asked = s.asked) (hclos : t.closing.Perm (s.closing ++ event.displaces log)) :
    t.Kept (log ++ [event]) := by
  refine ⟨?_, ?_⟩
  · rw [hsess, current_append, h.sessions]
  · rw [hask, displaced_append]
    refine (hclos.append_left _).trans ?_
    rw [← append_assoc]
    exact h.asked.append_right _

theorem insert_kept (hi : s.calls[i]? = some (.inserting peer id)) (h : s.Kept log) :
    (s.insert i peer id).Kept (log ++ [.registered peer id]) := by
  refine h.takes (.registered peer id) rfl rfl ?_
  show ((s.calls.set i .returned ++
    ((s.sessions peer).map Call.shuttingDown).toList).filterMap Call.closes).Perm _
  rw [filterMap_append, h.sessions, Event.displaces]
  refine (filterMap_set_perm Call.closes hi Call.returned).append (List.Perm.of_eq ?_)
  cases current log peer with
  | _ => rfl

theorem remove_kept (hi : s.calls[i]? = some (.removing peer id)) (h : s.Kept log) :
    (s.remove i peer id).Kept (log ++ [.unregistered peer id]) := by
  unfold remove
  split
  · rename_i hid
    refine h.takes (.unregistered peer id) (if_pos hid).symm rfl ?_
    exact (append_nil _).symm ▸ filterMap_set_perm Call.closes hi (Call.noting peer)
  · rename_i hid
    refine h.takes (.unregistered peer id) (if_neg hid).symm rfl ?_
    exact (append_nil _).symm ▸ filterMap_set_perm Call.closes hi Call.returned

theorem drop_kept (hi : s.calls[i]? = some (.dropping peer)) (h : s.Kept log) :
    (s.drop i peer).Kept (log ++ [.dropped peer]) := by
  refine h.takes (.dropped peer) rfl rfl ?_
  refine (append_nil _).symm ▸ ?_
  unfold drop
  split
  · exact filterMap_set_perm Call.closes hi (Call.noting peer)
  · exact filterMap_set_perm Call.closes hi Call.returned

theorem shutdown_kept (hi : s.calls[i]? = some (.shuttingDown id)) (h : s.Kept log) :
    ({ s with asked := s.asked ++ [id] }.enter i .returned).Kept log := by
  refine ⟨h.sessions, ?_⟩
  show (s.asked ++ [id] ++ (s.calls.set i .returned).filterMap Call.closes).Perm (displaced log)
  rw [append_assoc]
  exact ((filterMap_set_perm Call.closes hi Call.returned).append_left s.asked).trans h.asked

theorem step_kept (hstep : s.step a = some t) (h : s.Kept log) : t.Kept (log ++ s.events a) := by
  cases a with
  | registerSession | unregisterSession | dropSession =>
    cases hstep
    change Kept (log ++ []) _
    rw [append_nil]
    refine ⟨h.sessions, .trans (.append_left _ (.of_eq ?_)) h.asked⟩
    exact filterMap_append.trans (append_nil _)
  | proceed =>
    obtain ⟨call, hi, hstep⟩ := bind_eq_some_iff.mp hstep
    simp only [events, hi, elim_some]
    cases call with
    | clearing | noting =>
      cases hstep
      change Kept (log ++ []) _
      rw [append_nil]
      refine ⟨h.sessions, .trans (.append_left _ ?_) h.asked⟩
      exact filterMap_set_perm Call.closes hi _
    | inserting => exact some.inj hstep ▸ insert_kept hi h
    | removing => exact some.inj hstep ▸ remove_kept hi h
    | dropping => exact some.inj hstep ▸ drop_kept hi h
    | shuttingDown =>
      change Kept (log ++ []) _
      rw [append_nil]
      exact some.inj hstep ▸ shutdown_kept hi h
    | returned => cases hstep

theorem run_kept (hrun : run step {} as = some s) : s.Kept (emitted step events {} as) := by
  have hstart : Kept [] ({} : Registry Fp) := ⟨rfl, List.Perm.refl _⟩
  exact emitted_invariant step (fun _ _ _ _ => step_kept) hrun hstart

/-- Whatever the order in which overlapping calls take their locks: the map holds the
session of each peer that was registered last, if it has been neither unregistered by
its id nor dropped since. Unregistering a session that was superseded changes nothing,
and each session that was displaced is asked to shut down once, and no other is. -/
theorem registry_holds_latest (hrun : run step {} as = some s)
    (hdist : ((emitted step events {} as).filterMap Event.registers).Nodup) :
    let log := emitted step events {} as
    (∀ fp id, s.sessions fp = some id ↔ Latest log fp id) ∧
      (∀ fp id, Superseded log fp id → ∀ i now t, s.calls[i]? = some (.removing fp id) →
        s.step (.proceed i now) = some t → t.sessions = s.sessions) ∧
      ∀ id, (s.asked ++ s.closing).count id = if id ∈ displaced log then 1 else 0 := by
  have hkept := run_kept hrun
  refine ⟨?_, ?_, ?_⟩
  · intro _ _
    rw [hkept.sessions]
    exact current_eq_some
  · intro fp id hsup i _ t hi hstep
    have hoth : s.sessions fp ≠ some id := by
      rw [hkept.sessions]
      exact current_ne_of_superseded hdist hsup
    simp only [step, hi, bind_some, proceed, remove, if_neg hoth] at hstep
    cases hstep
    rfl
  · intro _
    rw [hkept.asked.count_eq, (settled hdist).once.count]

def overlapping : List (Action Nat) :=
  [.registerSession 7 1, .proceed 0 0, .proceed 0 0, .registerSession 7 2, .proceed 1 0,
    .proceed 1 0, .unregisterSession 7 1, .proceed 3 5, .proceed 2 0]

theorem registry_holds_latest_overlapping :
    ∃ s, run step {} overlapping = some s ∧
      ((emitted step events {} overlapping).filterMap Event.registers).Nodup ∧ s.asked = [1] ∧
      s.sessions 7 = some 2 ∧ (s.sessions 7 = some 2 ↔
      Latest (emitted step events {} overlapping) 7 2) :=
  ⟨_, rfl, by decide, rfl, rfl, (@registry_holds_latest _ _ _ overlapping rfl (by decide)).1 7 2⟩

end Runs

end Registry

namespace Daemon

open Registry (Event Latest current current_eq_some)

variable {Fp ε : Type} [LinearOrder Fp] {x : Config Fp ε} {s t : Daemon Fp} {a : Action Fp ε}
  {as : List (Action Fp ε)}

def sessionEvents (s : Daemon Fp) : Action Fp ε → List (Event Fp)
  | .register i => (s.connections[i]?).elim [] (fun c => [.registered c.fingerprint i])
  | .unregister i => (s.connections[i]?).elim [] (fun c => [.unregistered c.fingerprint i])
  | .proceed i _ =>
    match (s.requests[i]?).map Request.stage with
    | some (.enforcing fp _ .drop _) => [.dropped fp]
    | _ => []
  | _ => []

theorem handles_sessions {r r' : Request Fp} {write} (h : r.Handles x s write t r') :
    (t.sessions = s.sessions ∧ ∀ fp rest response, r.stage ≠ .enforcing fp rest .drop response) ∨
      ∃ fp rest response, r.stage = .enforcing fp rest .drop response ∧
      t.sessions = update s.sessions fp none := by
  have hearly : r.isEarly → ∀ fp rest response, r.stage ≠ .enforcing fp rest .drop response := by
    intro hearly _ _ _ hst
    simp [Request.isEarly, hst] at hearly
  cases h with
  | dropped fp rest response hst => exact .inr ⟨fp, rest, response, hst, rfl⟩
  | answered _ _ h | hid _ _ h | hidAll _ _ _ h => exact .inl ⟨rfl, hearly h⟩
  | _ =>
    refine .inl ⟨rfl, ?_⟩
    intro _ _ _ _
    simp_all

theorem step_sessionEvents (h : s.step x a = some t) :
    t.sessions = (s.sessionEvents a).foldl Event.apply s.sessions := by
  cases step_cases h with
  | accept | abandon | establish | clear | finish | request => rfl
  | lookup i c =>
    obtain ⟨_, hu⟩ := lookup_eq x i c s
    rw [hu]
    rfl
  | storePeer i c time write =>
    obtain ⟨_, _, _, hu⟩ := storePeer_eq x i c s time write
    rw [hu]
    rfl
  | reread i c =>
    obtain ⟨_, hu⟩ := reread_eq x i c s
    rw [hu]
    rfl
  | register i c negotiated hc =>
    obtain ⟨_, hu⟩ := register_eq i s c.fingerprint negotiated
    rw [hu, sessionEvents, hc]
    rfl
  | unregister i c _ hc =>
    rw [sessionEvents, hc]
    unfold unregister
    show _ = Event.apply s.sessions (.unregistered c.fingerprint i)
    rw [Event.apply]
    split <;> rfl
  | proceed i r _ u _ hr hh =>
    rw [sessionEvents, hr, map_some]
    rcases handles_sessions hh with ⟨hsame, hst⟩ | ⟨_, _, _, hst, hsess⟩
    · rw [hsame]
      split
      · exact absurd (some.inj ‹_›) (hst _ _ _)
      · rfl
    · rw [hsess, hst]
      rfl

/-- The registry holds the session that the latest events leave for a fingerprint. -/
theorem sessions_eq_some_iff {store} (hrun : run (step x) (starting store) as = some t) (fp) (id) :
    t.sessions fp = some id ↔
      Latest (emitted (step x) sessionEvents (starting store) as) fp id := by
  have hkeep : ∀ past (s : Daemon Fp) a t, s.step x a = some t → s.sessions = current past →
      t.sessions = current (past ++ s.sessionEvents a) := by
    intro _ s a t h hs
    rw [step_sessionEvents h, hs, current, current, foldl_append]
  have hall := @emitted_invariant _ _ (step x) _ (starting store) t as sessionEvents
    (fun past s => s.sessions = current past) hkeep hrun [] rfl
  rw [hall]
  exact current_eq_some

def pairsAgain : List (Action Nat Unit) :=
  pairing ++ [Action.reread 0, .clear 0, .register 0,
    .accept 7 ⟨"phone", "Phone", 1⟩ ["battery.v1"] 1, .lookup 1, .establish 1, .clear 1,
    .register 1, .finish 0, .unregister 0, .request (.unpair "phone"), .proceed 0 (.ok ()),
    .proceed 0 (.ok ()), .proceed 0 (.ok ()), .proceed 0 (.ok ()), .proceed 0 (.ok ()),
    .proceed 0 (.ok ()), .accept 7 ⟨"phone", "Phone", 1⟩ ["battery.v1"] 1, .lookup 2,
    .storePeer 2 0 (.ok ()), .reread 2, .clear 2, .register 2]

theorem sessions_eq_some_iff_again :
    ∃ t, run (step sampleConfig) (starting ⟨.empty, []⟩) pairsAgain = some t ∧
      emitted (step sampleConfig) sessionEvents (starting ⟨.empty, []⟩) pairsAgain =
        [.registered 7 0, .registered 7 1, .unregistered 7 0, .dropped 7, .registered 7 2] ∧
      t.sessions 7 = some 2 ∧
      Latest (emitted (step sampleConfig) sessionEvents (starting ⟨.empty, []⟩) pairsAgain) 7 2 :=
  ⟨_, rfl, by decide +kernel, rfl, (sessions_eq_some_iff rfl 7 2).mp rfl⟩

end Daemon

end OmniBridge.Desktop
