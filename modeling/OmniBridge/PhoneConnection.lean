import OmniBridge.Run
import Mathlib.Algebra.Order.Ring.Nat

/-! A session at the phone. `run` reads the peer's frames and hands its answers to a bounded
channel; a second coroutine, the writer, takes them from there to the socket. -/

namespace OmniBridge.Connection

/-- `Channel.BUFFERED`. -/
def BUFFERED : Nat := 64
def MAX_PING_PAYLOAD : Nat := 64

inductive Body where
  | ping (size : Nat)
  | capabilityMessage (id : String)
  | pong
  | capabilityAnnounce
  | error (fatal : Bool)
  | other

structure Envelope where
  protocolVersion : Nat
  correlated : Bool
  body : Body

/-- How `Framing.read` ends; a frame comes with the reason for which `guard` refuses it. -/
inductive Incoming where
  | frame (envelope : Envelope) (refused : Option String)
  | eof
  | timeout
  | failure (exception : String)

inductive Stage where
  | reading
  | closing (again : Bool) (ending : String)
  | returned (ending : String)

structure PeerConnection where
  negotiatedCapabilities : List String
  registry : List String
  protocolVersion : Nat

structure State where
  stage : Stage
  /-- Frames that the callbacks `run` is in have yet to send. -/
  owed : Nat
  outbound : Nat
  writing : Bool
  closed : Bool
  disconnected : List String
  live : Bool

/-- `sends` is how many frames the callbacks of a frame hand over, one after the other. -/
inductive Action where
  | write (ok : Bool)
  | offer
  | send
  | read (incoming : Incoming) (sends : Nat)
  | close
  | release

/-- The peer keeps the socket open: what is read is a frame. -/
def Action.isOpen : Action → Bool
  | .read .eof _ | .read .timeout _ | .read (.failure _) _ => false
  | _ => true

namespace PeerConnection

/-- The read loop comes after `onPeerConnected`, which may send too. -/
def start (sends : Nat) : State := ⟨.reading, sends, 0, true, false, [], true⟩

variable (c : PeerConnection)

/-- Where `run` goes on after a frame, and how many frames it sends first. -/
def dispatch (e : Envelope) (sends : Nat) : Stage × Nat :=
  match e.body with
  | .ping size =>
    if MAX_PING_PAYLOAD < size then (.closing false "oversized ping", 0) else (.reading, 1)
  | .capabilityMessage id =>
    (.reading, if id ∈ c.negotiatedCapabilities ∧ id ∈ c.registry then sends else 0)
  | .pong | .capabilityAnnounce => (.reading, 0)
  | .error fatal =>
    (if fatal then .closing false "peer reported a fatal error" else .reading,
      if e.correlated then sends else 0)
  | .other => (.closing false "unexpected message", 0)

def receive (incoming : Incoming) (sends : Nat) : Stage × Nat :=
  match incoming with
  | .eof => (.closing false "peer closed the connection", 0)
  | .timeout => (.closing false "peer stopped responding", 0)
  | .failure exception => (.closing false exception, 0)
  | .frame e refused =>
    if e.protocolVersion ≠ c.protocolVersion then (.closing false "protocol version changed", 0)
    else match refused with
      -- `close` runs here and once more in `finally`
      | some reason => (.closing true ("replay protection: " ++ reason), 0)
      | none => c.dispatch e sends

def disconnects : List String := c.negotiatedCapabilities.filter (fun id => id ∈ c.registry)

def step (s : State) : Action → Option State
  -- a write that throws ends the writer, and nothing else learns of it
  | .write ok =>
    if s.writing ∧ 0 < s.outbound then some { s with outbound := s.outbound - 1, writing := ok }
      else none
  | .offer =>
    if ¬ s.closed ∧ s.outbound < BUFFERED then some { s with outbound := s.outbound + 1 } else none
  | .send =>
    if 0 < s.owed ∧ s.outbound < BUFFERED then some { s with
      owed := s.owed - 1, outbound := s.outbound + 1 }
    else none
  | .read incoming sends =>
    match s.stage, s.owed with
    | .reading, 0 =>
      some { s with stage := (c.receive incoming sends).1, owed := (c.receive incoming sends).2 }
    | _, _ => none
  | .close =>
    match s.stage, s.owed with
    | .closing again ending, 0 =>
      some { s with stage := if again then .closing false ending else .returned ending
                    writing := false, closed := true, disconnected := s.disconnected ++
                      c.disconnects }
    | _, _ => none
  | .release =>
    match s.stage with
    | .returned _ => some { s with live := false }
    | _ => none

/-- Frames that the step hands over for the channel, at once or by the callbacks it begins. -/
def handed : Action → Nat
  | .offer => 1
  | .read incoming sends => (c.receive incoming sends).2
  | _ => 0

/-- The channel is within its capacity, and `run` returns only after its last send and after every
`onPeerDisconnected`. -/
def Kept (s : State) : Prop :=
  s.outbound ≤ BUFFERED ∧
    ∀ ending, s.stage = .returned ending → s.owed = 0 ∧ c.disconnects ⊆ s.disconnected

variable {c} {s t : State} {a : Action} {as bs : List Action}

theorem step_kept (h : c.step s a = some t) (hs : c.Kept s) : c.Kept t := by
  obtain ⟨hbound, htold⟩ := hs
  cases a with
  | write | offer | send | release =>
    simp only [step] at h
    grind [Kept]
  | read incoming sends =>
    simp only [step] at h
    split at h
    · cases h
      refine ⟨hbound, fun ending hst => ?_⟩
      simp only [receive, dispatch] at hst
      grind
    · cases h
  | close =>
    simp only [step] at h
    split at h
    · cases h
      exact ⟨hbound, fun _ _ => ⟨‹_›, List.subset_append_right _ _⟩⟩
    · cases h

/-- Without the writer nothing leaves the channel. -/
theorem step_handed (h : c.step s a = some t) (hs : s.writing = false) :
    t.writing = false ∧ t.owed + t.outbound = s.owed + s.outbound + c.handed a := by
  cases a <;> simp only [step] at h <;> grind [handed]

theorem run_handed (h : run c.step s as = some t) (hs : s.writing = false) :
    t.writing = false ∧ t.owed + t.outbound = s.owed + s.outbound + (as.map c.handed).sum := by
  induction as generalizing s with
  | nil =>
    cases h
    exact ⟨hs, rfl⟩
  | cons a as ih =>
    obtain ⟨u, hu, ht⟩ := run_cons_eq_some c.step h
    obtain ⟨hwrit, hsum⟩ := step_handed hu hs
    rw [List.map_cons, List.sum_cons, ← Nat.add_assoc, ← hsum]
    exact ih ht hwrit

variable (c) in
/-- Some way on, with the peer's end open all the time, `run` has returned, every capability is
told and `dial` is past it. -/
def CanReturn (s : State) : Prop :=
  ∃ bs t ending, run c.step s bs = some t ∧ (∀ a ∈ bs, a.isOpen) ∧ t.stage = .returned ending ∧
    t.live = false ∧ c.disconnects ⊆ t.disconnected

theorem CanReturn.step (h : c.step s a = some t) (ha : a.isOpen) (ht : c.CanReturn t) :
    c.CanReturn s := by
  obtain ⟨bs, u, ending, hu, hopen, hret⟩ := ht
  refine ⟨a :: bs, u, ending, ?_, List.forall_mem_cons.mpr ⟨ha, hopen⟩, hret⟩
  rw [run, h, Option.bind_some, hu]

theorem canReturn_of_closing {ending : String} (hst : s.stage = .closing false ending)
    (howed : s.owed = 0) : c.CanReturn s := by
  obtain ⟨_, _, _⟩ := s
  cases hst
  cases howed
  exact ⟨[.close, .release], _, ending, rfl, by decide, rfl, rfl, List.subset_append_right _ _⟩

/-- A frame that the session does not allow makes it close. -/
theorem canReturn_of_owed_zero (hs : c.Kept s) (howed : s.owed = 0) : c.CanReturn s := by
  obtain ⟨stage, _⟩ := s
  cases howed
  cases stage with
  | reading =>
    have hread : c.receive (.frame ⟨c.protocolVersion, false, .other⟩ none) 0 =
        (.closing false "unexpected message", 0) := if_neg (by simp)
    refine .step (a := .read (.frame ⟨c.protocolVersion, false, .other⟩ none) 0) rfl rfl ?_
    rw [hread]
    exact canReturn_of_closing rfl rfl
  | closing again ending =>
    cases again with
    | false => exact canReturn_of_closing rfl rfl
    | true => exact .step (a := .close) rfl rfl (canReturn_of_closing rfl rfl)
  | returned ending => exact ⟨[.release], _, ending, rfl, by decide, rfl, rfl, (hs.2 ending rfl).2⟩

theorem canReturn_of_room (hs : c.Kept s) (hroom : s.owed + s.outbound ≤ BUFFERED) :
    c.CanReturn s := by
  induction howed : s.owed generalizing s with
  | zero => exact canReturn_of_owed_zero hs howed
  | succ n ih =>
    have hstep : c.step s .send = some { s with owed := n, outbound := s.outbound + 1 } := by
      have hless : s.outbound < BUFFERED := by omega
      simp [PeerConnection.step, howed, hless]
    refine .step hstep rfl (ih (step_kept hstep hs) ?_ rfl)
    dsimp only
    omega

/-- The writer is gone and the channel has no room for what `run` sends. -/
def Stuck (s : State) : Prop := s.writing = false ∧ BUFFERED < s.owed + s.outbound

theorem step_stuck (h : c.step s a = some t) (hs : c.Kept s ∧ Stuck s) : c.Kept t ∧ Stuck t := by
  obtain ⟨hkept, hwrit, hfull⟩ := hs
  obtain ⟨hstop, hsum⟩ := step_handed h hwrit
  exact ⟨step_kept h hkept, hstop, by omega⟩

theorem canReturn_iff (hs : c.Kept s) (hwrit : s.writing = false) :
    c.CanReturn s ↔ s.owed + s.outbound ≤ BUFFERED := by
  refine ⟨?_, canReturn_of_room hs⟩
  rintro ⟨bs, t, ending, ht, -, hret, -⟩
  by_contra hfull
  -- what `run` still owes keeps it from returning
  obtain ⟨hkept, -, hstuck⟩ := run_preserves c.step (fun _ _ _ => step_stuck) ht
    ⟨hs, hwrit, Nat.lt_of_not_le hfull⟩
  have howed := (hkept.2 ending hret).1
  have hbound := hkept.1
  omega

/-- After the failed write `run` can return just as long as the channel has room for all that is
handed over: what was in it, what `run` was about to send, and what is sent since. -/
theorem run_can_return_iff {sends : Nat} {r u : State} (hrun : run c.step (start sends) as = some r)
    (hfail : c.step r (.write false) = some u) (hsince : run c.step u bs = some s) :
    c.CanReturn s ↔ u.owed + u.outbound + (bs.map c.handed).sum ≤ BUFFERED := by
  have hstart : c.Kept (start sends) := ⟨Nat.zero_le _, nofun⟩
  have hkept := step_kept hfail (run_preserves c.step (fun _ _ _ => step_kept) hrun hstart)
  have hwrit : u.writing = false := by
    simp only [step] at hfail
    grind
  obtain ⟨hstop, hsum⟩ := run_handed hsince hwrit
  rw [canReturn_iff (run_preserves c.step (fun _ _ _ => step_kept) hsince hkept) hstop, hsum]

def sample : PeerConnection := ⟨["battery.v1"], ["battery.v1"], 1⟩

def ping : Action := .read (.frame ⟨1, false, .ping 8⟩ none) 0

def pings (n : Nat) : List Action := (List.replicate n [ping, .send]).flatten ++ [ping]

set_option maxRecDepth 4096 in
/-- The write of the battery level fails; the pongs to 64 pings still fit. -/
theorem run_can_return_iff_pings :
    ∃ u s, run sample.step (start 1) [.send, .write false] = some u ∧
      run sample.step u (pings 63) = some s ∧ sample.CanReturn s := by
  refine ⟨_, ⟨.reading, 1, 63, false, false, [], true⟩, rfl, rfl, ?_⟩
  exact (@run_can_return_iff sample _ [.send] (pings 63) 1 _ _ rfl rfl rfl).mpr (by decide)

set_option maxRecDepth 4096 in
/-- The pong to the last ping finds the channel full, and nothing takes a frame from it. -/
theorem run_waits_for_ever :
    ∃ u s, run sample.step (start 1) [.send, .write false] = some u ∧
      run sample.step u (pings 64) = some s ∧ ¬ sample.CanReturn s := by
  refine ⟨_, ⟨.reading, 1, 64, false, false, [], true⟩, rfl, rfl, ?_⟩
  rw [canReturn_iff ⟨le_rfl, by simp⟩ rfl]
  decide

end PeerConnection

end OmniBridge.Connection
