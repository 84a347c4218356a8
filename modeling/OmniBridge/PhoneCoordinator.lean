import OmniBridge.PhoneEndpoints
import OmniBridge.Run

/-! The phone's reconnect loop and the conflated channel that wakes it. Network and target
events come between any two of its steps; of a round only the outcome is kept. -/

namespace OmniBridge.Connection

open List Option

/-- The delay for a jitter of `spread` milliseconds. -/
def Backoff.delayMs (ladder : Ladder) (failures : Int32) (spread : Int) : Int :=
  let (base, ceiling, cap) := match ladder with
    | .TRANSIENT => (2000, 300000, 6)
    | .SECURITY => (30000, 900000, 5)
  let steps := (max 0 (min (failures - 1).toInt cap)).toNat
  let plain := min ceiling (base * 2 ^ steps)
  max (base / 2) (min ceiling (plain + spread))

theorem Backoff.delayMs_pos (ladder failures spread) : 0 < delayMs ladder failures spread := by
  cases ladder <;> exact lt_max_of_lt_left (by decide)

inductive LoopState where
  | top | round | settled | returned
  | waiting (delayMs : Int)
deriving DecidableEq

/-- `sends` counts the callers that have reset the ladder and not sent their wake-up; `waits`
are the waits that are over, each with its delay and whether it was cut short. -/
structure ConnectionCoordinator where
  stopped : Bool := false
  failures : Int32 := 0
  ladder : Ladder := .TRANSIENT
  wake : Bool := false
  sends : Nat := 0
  state : LoopState := .top
  waits : List (Int × Bool) := []

/-- `event` is the first half of `onNetworkAvailable` and of `onTargetChanged`. -/
inductive LoopAction where
  | event | trySend | stop | begin | timeout
  | endRound (outcome : Outcome)
  | schedule (spread : Int)

namespace ConnectionCoordinator

variable (s : ConnectionCoordinator)

def endWait (delayMs : Int) (woken : Bool) : ConnectionCoordinator :=
  { s with state := .top, waits := s.waits ++ [(delayMs, woken)] }

def step : LoopAction → Option ConnectionCoordinator
  | .event =>
    some (if s.stopped then s
      else { s with failures := 0, ladder := .TRANSIENT, sends := s.sends + 1 })
  | .trySend =>
    if s.sends = 0 then none
    else
      let t := { s with sends := s.sends - 1 }
      match s.state with
      | .waiting delayMs => some (t.endWait delayMs true)
      | _ => some { t with wake := true }
  | .stop => some { s with stopped := true, state := .returned }
  | .begin =>
    if s.state = .top then some { s with state := if s.stopped then .returned else .round }
      else none
  | .endRound outcome =>
    if s.state = .round then
      match outcome with
      | .terminal => some { s with stopped := true, state := .returned }
      | .sessionEnded => some { s with failures := 0, ladder := .TRANSIENT, state := .settled }
      | .failed ladder =>
        some { s with failures := s.failures + 1, ladder := ladder, state := .settled }
    else none
  | .schedule spread =>
    if s.state = .settled then
      if s.stopped then some { s with state := .returned }
      else
        let delayMs := Backoff.delayMs s.ladder (if s.failures = 0 then 1 else s.failures) spread
        -- a wake-up that is in the channel is received at once
        if s.wake then some ({ s with wake := false }.endWait delayMs true)
        else some { s with state := .waiting delayMs }
    else none
  | .timeout =>
    match s.state with
    | .waiting delayMs => some (s.endWait delayMs false)
    | _ => none

/-- Some wake-up was delivered outside a wait, and no wait has begun since. -/
def LeftOver (s : ConnectionCoordinator) : List LoopAction → Prop
  | [] => False
  | a :: as =>
    (a = .trySend ∧ (∀ delayMs, s.state ≠ .waiting delayMs) ∧ ∀ spread, .schedule spread ∉ as) ∨
      ∀ t ∈ s.step a, t.LeftOver as

variable {s} {t : ConnectionCoordinator} {a : LoopAction} {as : List LoopAction}

theorem step_wake (h : s.step a = some t) (hwant : t.stopped = false) :
    s.stopped = false ∧ (t.wake ↔ a = .trySend ∧ (∀ delayMs, s.state ≠ .waiting delayMs) ∨ s.wake ∧
      ∀ spread, a ≠ .schedule spread) := by
  cases a with
  | event =>
    cases h
    split at hwant <;> simp_all
  | trySend =>
    obtain ⟨-, h⟩ := ite_none_left_eq_some.mp h
    split at h <;> cases h <;> simp_all [endWait]
  | stop =>
    cases h
    cases hwant
  | begin =>
    obtain ⟨-, h⟩ := ite_none_right_eq_some.mp h
    cases h
    simp_all
  | endRound outcome =>
    obtain ⟨-, h⟩ := ite_none_right_eq_some.mp h
    cases outcome <;> cases h <;> simp_all
  | schedule spread =>
    obtain ⟨-, h⟩ := ite_none_right_eq_some.mp h
    split at h
    · cases h
      simp_all
    · dsimp only at h
      split at h <;> cases h <;> simp_all [endWait]
  | timeout =>
    simp only [step] at h
    split at h <;> cases h
    simp_all [endWait]

theorem run_wake (h : run step s as = some t) (hwant : t.stopped = false) :
    s.stopped = false ∧ (t.wake ↔ s.LeftOver as ∨ s.wake ∧ ∀ spread, .schedule spread ∉ as) := by
  induction as generalizing s with
  | nil =>
    cases h
    simp [hwant, LeftOver]
  | cons a as ih =>
    obtain ⟨u, hu, hrun⟩ := run_cons_eq_some step h
    obtain ⟨huwant, hwake⟩ := ih hrun
    obtain ⟨hswant, hstep⟩ := step_wake hu huwant
    refine ⟨hswant, ?_⟩
    simp only [hwake, hstep, LeftOver, hu, mem_cons, not_or]
    grind

/-- A wait is over at once, before its delay, exactly when a wake-up was delivered outside a
wait and is left in the channel. -/
theorem wait_cut_short_iff (h : run step {} as = some s) (hsett : s.state = .settled)
    (hwant : s.stopped = false) (spread : Int) :
    ∃ t, s.step (.schedule spread) = some t ∧
      ((∃ delayMs > 0, t.waits = s.waits ++ [(delayMs, true)]) ↔ LeftOver {} as) := by
  have hwake := (run_wake h hwant).2
  simp only [Bool.false_eq_true, false_and, or_false] at hwake
  simp only [step, hsett, if_true, hwant, Bool.false_eq_true, if_false, ← hwake]
  cases s.wake with
  | true => exact ⟨_, rfl, iff_of_true ⟨_, Backoff.delayMs_pos _ _ _, rfl⟩ rfl⟩
  | false => exact ⟨_, rfl, by simp⟩

def wokenTwice : List LoopAction :=
  [.begin, .endRound (.failed .TRANSIENT), .schedule 0, .event, .trySend, .begin, .event, .trySend,
    .endRound (.failed .SECURITY)]

theorem wait_cut_short_iff_second :
    ∃ s t, run step {} wokenTwice = some s ∧ s.waits = [(2000, true)] ∧
      s.step (.schedule 5) = some t ∧ t.waits = [(2000, true), (30005, true)] ∧
      LeftOver {} wokenTwice := by
  obtain ⟨t, ht, hcut⟩ := @wait_cut_short_iff _ wokenTwice rfl rfl rfl 5
  cases ht
  exact ⟨_, _, rfl, rfl, rfl, rfl, hcut.mp ⟨30005, by decide, rfl⟩⟩

/-- The network appears during a round that then fails. -/
theorem stale_wake_up_cuts_wait :
    (run step {} [.begin, .event, .trySend, .endRound (.failed .TRANSIENT), .schedule 0]).map
      waits = some [(2000, true)] := rfl

end ConnectionCoordinator

end OmniBridge.Connection
