import OmniBridge.Run
import OmniBridge.Slots

/-! The pairing window of the desktop: a token that one proof may consume. The window
is shared by the pair sessions that open and close it and by the handshakes that
verify against it; the machine steps from lock to lock and keeps what each
verification against a window gave. -/

namespace OmniBridge.Desktop

open List Option

abbrev Bytes := List UInt8

inductive Profile where
  | pliwee | omniBridge
deriving DecidableEq

def ascii (s : String) : Bytes := s.toList.map (fun c => UInt8.ofNat c.toNat)

namespace Profile

def pairingProofDomain : Profile → Bytes
  | .pliwee => ascii "pliwee/pairing-proof/v1"
  | .omniBridge => ascii "omnibridge/pairing-proof/v1"

def pairingConfirmDomain : Profile → Bytes
  | .pliwee => ascii "pliwee/pairing-confirm/v1"
  | .omniBridge => ascii "omnibridge/pairing-confirm/v1"

end Profile

def TOKEN_LEN : Nat := 20
def MAX_FAILED_ATTEMPTS : Nat := 3

structure PairingToken where
  bytes : Bytes
  length_eq : bytes.length = TOKEN_LEN
deriving DecidableEq

inductive PairingError where
  | notInPairingMode | badProof | expired | alreadyUsed | rateLimited | declinedByUser
deriving DecidableEq

/-- The device that shows the token, with the MAC both sides use. Its own
fingerprint is read back from its device info. -/
structure Responder (Fp : Type) where
  fingerprint : Fp
  asBytes : Fp → Bytes
  toHex : Fp → String
  fromHex : String → Option Fp
  hmacSha256 : Bytes → Bytes → Bytes
  fromHex_toHex : fromHex (toHex fingerprint) = some fingerprint

variable {Fp : Type}

/-- The bytes under a MAC in place of the MAC. -/
def Responder.unkeyed (x : Responder Fp) : Responder Fp :=
  { x with hmacSha256 := fun _ message => message }

def toBeBytes (n : Nat) : Bytes :=
  [UInt8.ofNat (n / 2 ^ 24), UInt8.ofNat (n / 2 ^ 16), UInt8.ofNat (n / 2 ^ 8), UInt8.ofNat n]

def lenPrefixed (data : Bytes) : Bytes := toBeBytes data.length ++ data

section Proofs

variable (x : Responder Fp) (profile : Profile) (token : PairingToken) (responder initiator : Fp)
  (nonce : Bytes)

def mac (domain : Bytes) : Bytes :=
  x.hmacSha256 token.bytes
    (domain ++ lenPrefixed (x.asBytes responder) ++ lenPrefixed (x.asBytes initiator) ++
      lenPrefixed nonce)

def computeProof : Bytes := mac x token responder initiator nonce profile.pairingProofDomain

def computeConfirmation : Bytes :=
  mac x token responder initiator nonce profile.pairingConfirmDomain

end Proofs

def verifyProof (expected received : Bytes) : Bool :=
  if received.length ≠ expected.length then false else expected == received

theorem verifyProof_eq_true {expected received} :
    verifyProof expected received ↔ received = expected := by
  unfold verifyProof
  split
  · refine iff_of_false Bool.false_ne_true (fun heq => ?_)
    rename_i hlen
    exact hlen (congrArg length heq)
  · exact beq_iff_eq.trans eq_comm

structure PairingSession where
  token : PairingToken
  openedAt : Nat
  ttl : Nat
  failedAttempts : Nat := 0
  consumed : Bool := false
deriving DecidableEq

namespace PairingSession

def isExpired (now : Nat) (p : PairingSession) : Bool := p.ttl ≤ now - p.openedAt

def isExhausted (now : Nat) (p : PairingSession) : Bool :=
  p.consumed || p.isExpired now || MAX_FAILED_ATTEMPTS ≤ p.failedAttempts

def verifyAndConsume (x : Responder Fp) (profile : Profile) (responder initiator : Fp)
    (nonce receivedProof : Bytes) (now : Nat) (p : PairingSession) :
    Except PairingError Bytes × PairingSession :=
  if p.consumed then (.error .alreadyUsed, p)
  else if p.isExpired now then (.error .expired, p)
  else if MAX_FAILED_ATTEMPTS ≤ p.failedAttempts then (.error .rateLimited, p)
  else if !verifyProof (computeProof x profile p.token responder initiator nonce) receivedProof then
    (.error .badProof, { p with failedAttempts := p.failedAttempts + 1 })
  else (.ok (computeConfirmation x profile p.token responder initiator nonce),
    { p with consumed := true })

theorem isExhausted_eq_false {now} {p : PairingSession} :
    p.isExhausted now = false ↔ p.consumed = false ∧ now - p.openedAt < p.ttl ∧
      p.failedAttempts < MAX_FAILED_ATTEMPTS := by
  simp [isExhausted, isExpired, and_assoc]

theorem verifyAndConsume_cases (x) (profile) (responder initiator : Fp) (nonce proof) (now)
    (p : PairingSession) : let expected := computeProof x profile p.token responder initiator nonce
    let outcome := p.verifyAndConsume x profile responder initiator nonce proof now
    (p.isExhausted now = false ∧ proof = expected ∧ outcome =
      (.ok (computeConfirmation x profile p.token responder initiator nonce),
      { p with consumed := true })) ∨
    (p.isExhausted now = false ∧ proof ≠ expected ∧ outcome =
      (.error .badProof, { p with failedAttempts := p.failedAttempts + 1 })) ∨
    (p.isExhausted now ∧ ∃ e, e ≠ .badProof ∧ outcome = (.error e, p)) := by
  intro expected outcome
  by_cases hspent : p.isExhausted now
  · refine .inr (.inr ⟨hspent, ?_⟩)
    simp only [outcome, verifyAndConsume]
    by_cases hcons : p.consumed
    · exact ⟨.alreadyUsed, by decide, if_pos hcons⟩
    by_cases hexp : p.isExpired now
    · exact ⟨.expired, by decide, by rw [if_neg hcons, if_pos hexp]⟩
    · have hfail : MAX_FAILED_ATTEMPTS ≤ p.failedAttempts := by
        simpa [isExhausted, hcons, hexp] using hspent
      exact ⟨.rateLimited, by decide, by rw [if_neg hcons, if_neg hexp, if_pos hfail]⟩
  · have hopen := isExhausted_eq_false.mp (Bool.eq_false_iff.mpr hspent)
    obtain ⟨hcons, hlive, _⟩ := hopen
    have hexp : p.isExpired now = false := by simpa [isExpired] using hlive
    have hguards : outcome = if !verifyProof expected proof then
        (.error .badProof, { p with failedAttempts := p.failedAttempts + 1 })
        else (.ok (computeConfirmation x profile p.token responder initiator nonce),
          { p with consumed := true }) := by
      simp only [outcome, verifyAndConsume]
      rw [if_neg (by simp [hcons]), if_neg (by simp [hexp]), if_neg (by omega)]
    by_cases hproof : proof = expected
    · refine .inl ⟨Bool.eq_false_iff.mpr hspent, hproof, ?_⟩
      rw [hguards, verifyProof_eq_true.mpr hproof]
      rfl
    · refine .inr (.inl ⟨Bool.eq_false_iff.mpr hspent, hproof, ?_⟩)
      rw [hguards, Bool.eq_false_iff.mpr (fun hv => hproof (verifyProof_eq_true.mp hv))]
      rfl

end PairingSession

/-- The window and the channel of its operator, each behind a lock of its own. Windows
are numbered as they open; `verdicts` keeps what each verification gave. -/
structure Desk where
  now : Nat := 0
  pairing : Option (Nat × PairingSession) := none
  confirmTx : Option Nat := none
  windows : Nat := 0
  verdicts : List (Nat × Except PairingError Bytes) := []

namespace Desk

inductive Action (Fp : Type) where
  | advance (by_ : Nat)
  | openWindow (token : PairingToken) (openedAt ttl : Nat)
  | attach (window : Nat)
  | closeWindow
  | detach
  | verify (profile : Profile) (initiator : Fp) (nonce proof : Bytes) (later : Nat)

/-- `verify_pairing_proof`; the clock is read again to see whether the window is spent. -/
def verifyPairingProof (x : Responder Fp) (profile : Profile) (initiator : Fp) (nonce proof : Bytes)
    (later : Nat) (s : Desk) : Except PairingError Bytes × Desk :=
  match x.fromHex (x.toHex x.fingerprint) with
  | none => (.error .badProof, s)
  | some responder =>
    match s.pairing with
    | none => (.error .notInPairingMode, s)
    | some (window, session) =>
      let (result, session) := session.verifyAndConsume x profile
        responder initiator nonce proof s.now
      (result, { s with
        now := s.now + later
        pairing := if session.isExhausted (s.now + later) then none else some (window, session)
        verdicts := s.verdicts ++ [(window, result)] })

/-- A window is opened by a session that was made at `openedAt`, before the lock was taken. -/
def step (x : Responder Fp) (s : Desk) : Action Fp → Option Desk
  | .advance d => some { s with now := s.now + d }
  | .openWindow token openedAt ttl =>
    if openedAt ≤ s.now then
      some { s with pairing := some (s.windows, ⟨token, openedAt, ttl, 0, false⟩)
                    windows := s.windows + 1 }
    else none
  | .attach window => some { s with confirmTx := some window }
  | .closeWindow => some { s with pairing := none }
  | .detach => some { s with confirmTx := none }
  | .verify profile initiator nonce proof later =>
    some (s.verifyPairingProof x profile initiator nonce proof later).2

def successes (window : Nat) (s : Desk) : Nat :=
  s.verdicts.countP (fun v => v.1 = window ∧ v.2.isOk)

def isRejection : Except PairingError Bytes → Bool
  | .error .badProof => true
  | _ => false

def rejections (window : Nat) (s : Desk) : Nat :=
  s.verdicts.countP (fun v => v.1 = window ∧ isRejection v.2)

variable {x : Responder Fp} {s t : Desk} {a : Action Fp}

inductive Verifies (x : Responder Fp) (profile : Profile) (initiator : Fp) (nonce proof : Bytes)
    (later : Nat) (s : Desk) : Except PairingError Bytes × Desk → Prop
  | closed : s.pairing = none → Verifies x profile initiator nonce proof later s
    (.error .notInPairingMode, s)
  | accepted (w : Nat) (p : PairingSession) : s.pairing = some (w, p) →
    p.isExhausted s.now = false → proof = computeProof x profile p.token x.fingerprint initiator
    nonce → Verifies x profile initiator nonce proof later s
        (.ok (computeConfirmation x profile p.token x.fingerprint initiator nonce),
          { s with
            now := s.now + later
            pairing := none
            verdicts := s.verdicts ++
              [(w, .ok (computeConfirmation x profile p.token x.fingerprint initiator nonce))] })
  | rejected (w : Nat) (p : PairingSession) : s.pairing = some (w, p) →
    p.isExhausted s.now = false → proof ≠ computeProof x profile p.token x.fingerprint initiator
    nonce → Verifies x profile initiator nonce proof later s
        (.error .badProof,
          { s with
            now := s.now + later
            pairing := if { p with failedAttempts := p.failedAttempts + 1 }.isExhausted
              (s.now + later) then none
              else some (w, { p with failedAttempts := p.failedAttempts + 1 })
            verdicts := s.verdicts ++ [(w, .error .badProof)] })
  | refused (w : Nat) (p : PairingSession) (e : PairingError) : s.pairing = some (w, p) →
      p.isExhausted s.now → e ≠ .badProof →
      Verifies x profile initiator nonce proof later s
        (.error e,
          { s with
            now := s.now + later
            pairing := if p.isExhausted (s.now + later) then none else some (w, p)
            verdicts := s.verdicts ++ [(w, .error e)] })

theorem verifies (x) (profile) (initiator : Fp) (nonce proof) (later : Nat) (s) :
    Verifies x profile initiator nonce proof later s (s.verifyPairingProof x profile initiator nonce
      proof later) := by
  unfold verifyPairingProof
  rw [x.fromHex_toHex]
  cases hslot : s.pairing with
  | none => exact .closed hslot
  | some window =>
    obtain ⟨w, p⟩ := window
    dsimp only
    rcases p.verifyAndConsume_cases x profile x.fingerprint initiator nonce proof s.now with
      ⟨hopen, hproof, h⟩ | ⟨hopen, hproof, h⟩ | ⟨hspent, e, he, h⟩
    · rw [h]
      exact .accepted w p hslot hopen hproof
    · rw [h]
      exact .rejected w p hslot hopen hproof
    · rw [h]
      exact .refused w p e hslot hspent he

/-- The counters of the window in the slot agree with what was given; no window gave too much. -/
structure Fair (s : Desk) : Prop where
  numbered : ∀ v ∈ s.verdicts, v.1 < s.windows
  slot : ∀ w p, s.pairing = some (w, p) → w < s.windows ∧ p.failedAttempts < MAX_FAILED_ATTEMPTS ∧
    p.consumed = false ∧ s.successes w = 0 ∧ s.rejections w = p.failedAttempts
  bounded : ∀ w, s.successes w ≤ 1 ∧ s.rejections w ≤ MAX_FAILED_ATTEMPTS

theorem fair_empty : Fair {} where
  numbered := by simp
  slot := by simp
  bounded := by simp [successes, rejections]

theorem counts_of_numbered {w} (hs : ∀ v ∈ s.verdicts, v.1 < w) :
    s.successes w = 0 ∧ s.rejections w = 0 := by
  constructor
  all_goals
    refine countP_eq_zero.mpr (fun v hv hp => ?_)
    have hlt := hs v hv
    simp at hp
    omega

theorem fair_verdict {w} {p : PairingSession} {result} (hs : s.Fair)
    (hslot : s.pairing = some (w, p)) (ht : t.verdicts = s.verdicts ++ [(w, result)])
    (hw : t.windows = s.windows)
    (hkept : ∀ v q, t.pairing = some (v, q) → v = w ∧ result.isOk = false ∧
      q.isExhausted t.now = false ∧ q.failedAttempts = p.failedAttempts + if isRejection
      result then 1 else 0) : t.Fair := by
  obtain ⟨hlt, _, _, hsucces, hreject⟩ := hs.slot w p hslot
  have hsucc : ∀ v, t.successes v = s.successes v + if w = v ∧ result.isOk then 1 else 0 := by
    intro v
    rw [successes, ht, countP_append, countP_singleton]
    simp [successes]
  have hrej : ∀ v, t.rejections v = s.rejections v + if w = v ∧ isRejection result then 1
      else 0 := by
    intro v
    rw [rejections, ht, countP_append, countP_singleton]
    simp [rejections]
  refine ⟨?_, ?_, ?_⟩
  · rw [ht, hw]
    exact forall_mem_concat hs.numbered hlt
  · intro v q hq
    obtain ⟨rfl, hres, hopen, hcount⟩ := hkept v q hq
    obtain ⟨hunus, -, hleft⟩ := PairingSession.isExhausted_eq_false.mp hopen
    refine ⟨hw ▸ hlt, hleft, hunus, ?_, ?_⟩
    · rw [hsucc, hsucces, hres]
      simp
    · rw [hrej, hreject, hcount]
      simp
  · intro v
    obtain ⟨hs1, hs2⟩ := hs.bounded v
    rw [hsucc, hrej]
    by_cases hv : w = v
    · subst hv
      constructor
      all_goals split <;> omega
    · simpa [hv] using ⟨hs1, hs2⟩

theorem step_fair (hs : s.Fair) (h : s.step x a = some t) : t.Fair := by
  cases a with
  | advance | attach | detach => exact some.inj h ▸ ⟨hs.numbered, hs.slot, hs.bounded⟩
  | openWindow =>
    obtain ⟨_, h⟩ := ite_none_right_eq_some.mp h
    cases h
    refine ⟨fun v hv => Nat.lt_succ_of_lt (hs.numbered v hv), ?_, hs.bounded⟩
    intro w p hp
    obtain ⟨rfl, rfl⟩ := Prod.mk.inj (some.inj hp)
    obtain ⟨hsucces, hreject⟩ := counts_of_numbered hs.numbered
    exact ⟨Nat.lt_succ_self _, show 0 < MAX_FAILED_ATTEMPTS by decide, rfl, hsucces, hreject⟩
  | closeWindow => exact some.inj h ▸ ⟨hs.numbered, nofun, hs.bounded⟩
  | verify profile initiator nonce proof later =>
    cases h
    have hv := verifies x profile initiator nonce proof later s
    generalize s.verifyPairingProof x profile initiator nonce proof later = outcome at hv
    cases hv with
    | closed => exact hs
    | accepted w p hslot => exact fair_verdict hs hslot rfl rfl nofun
    | rejected w p hslot =>
      refine fair_verdict hs hslot rfl rfl (fun v q hq => ?_)
      obtain ⟨hleft, hq⟩ := ite_none_left_eq_some.mp hq
      obtain ⟨rfl, rfl⟩ := Prod.mk.inj (some.inj hq)
      exact ⟨rfl, rfl, Bool.eq_false_iff.mpr hleft, rfl⟩
    | refused w p e hslot _ he =>
      refine fair_verdict hs hslot rfl rfl (fun v q hq => ?_)
      obtain ⟨hleft, hq⟩ := ite_none_left_eq_some.mp hq
      obtain ⟨rfl, rfl⟩ := Prod.mk.inj (some.inj hq)
      refine ⟨rfl, rfl, Bool.eq_false_iff.mpr hleft, ?_⟩
      cases e with
      | badProof => exact absurd rfl he
      | _ => rfl

theorem verify_ok_iff (hs : s.Fair) (profile) (initiator) (nonce proof : Bytes) (later) :
    (s.verifyPairingProof x profile initiator nonce proof later).1.isOk ↔
      ∃ w p, s.pairing = some (w, p) ∧ s.now - p.openedAt < p.ttl ∧ s.successes w = 0 ∧
      s.rejections w < MAX_FAILED_ATTEMPTS ∧ proof = computeProof x profile p.token x.fingerprint
      initiator nonce := by
  have hv := verifies x profile initiator nonce proof later s
  generalize s.verifyPairingProof x profile initiator nonce proof later = outcome at hv
  cases hv with
  | closed hslot =>
    refine iff_of_false Bool.false_ne_true ?_
    rintro ⟨w, p, hp, -⟩
    rw [hslot] at hp
    cases hp
  | accepted w p hslot hopen hproof =>
    obtain ⟨-, hfail, -, hsucces, hreject⟩ := hs.slot w p hslot
    obtain ⟨-, hlive, -⟩ := PairingSession.isExhausted_eq_false.mp hopen
    exact iff_of_true rfl ⟨w, p, hslot, hlive, hsucces, hreject ▸ hfail, hproof⟩
  | rejected w p hslot _ hproof =>
    refine iff_of_false Bool.false_ne_true ?_
    rintro ⟨v, q, hq, -, -, -, hequal⟩
    obtain ⟨rfl, rfl⟩ := Prod.mk.inj (some.inj (hslot.symm.trans hq))
    exact hproof hequal
  | refused w p e hslot hspent =>
    refine iff_of_false Bool.false_ne_true ?_
    rintro ⟨v, q, hq, hlive, -⟩
    obtain ⟨rfl, rfl⟩ := Prod.mk.inj (some.inj (hslot.symm.trans hq))
    obtain ⟨-, hfail, hcons, -⟩ := hs.slot w p hslot
    rw [PairingSession.isExhausted_eq_false.mpr ⟨hcons, hlive, hfail⟩] at hspent
    cases hspent

/-- In every run each window gives at most one success and `MAX_FAILED_ATTEMPTS`
rejections, and in every state reached a verification succeeds exactly where the window
is open, unspent and not expired and the proof is the one for its token. -/
theorem pairing_window_single_use {as : List (Action Fp)} (h : run (step x) {} as = some t) :
    (∀ w, t.successes w ≤ 1 ∧ t.rejections w ≤ MAX_FAILED_ATTEMPTS) ∧
    ∀ profile initiator nonce proof later,
      (t.verifyPairingProof x profile initiator nonce proof later).1.isOk ↔
        ∃ w p, t.pairing = some (w, p) ∧ t.now - p.openedAt < p.ttl ∧ t.successes w = 0 ∧
          t.rejections w < MAX_FAILED_ATTEMPTS ∧
          proof = computeProof x profile p.token x.fingerprint initiator nonce := by
  have hfair : t.Fair := run_preserves (step x) (fun _ _ _ h hs => step_fair hs h) h fair_empty
  exact ⟨hfair.bounded, fun profile initiator nonce proof later =>
    verify_ok_iff hfair profile initiator nonce proof later⟩

/-- A desktop with a MAC that only joins the key and the message. -/
def sampleResponder : Responder Nat where
  fingerprint := 1
  asBytes := fun fp => [UInt8.ofNat fp]
  toHex := fun _ => "01"
  fromHex := fun _ => some 1
  hmacSha256 := fun key message => key ++ message
  fromHex_toHex := rfl

def sampleToken : PairingToken := ⟨replicate 20 7, rfl⟩

def pairOnce : List (Action Nat) :=
  [.openWindow sampleToken 0 120, .attach 0, .verify .pliwee 2 [9] [] 0,
    .verify .pliwee 2 [9] (computeProof sampleResponder .pliwee sampleToken 1 2 [9]) 0,
    .verify .pliwee 2 [9] (computeProof sampleResponder .pliwee sampleToken 1 2 [9]) 0]

theorem pairing_window_single_use_paired :
    ∃ t, run (step sampleResponder) {} pairOnce = some t ∧ t.successes 0 = 1 ∧ t.rejections 0 = 1 ∧
      (∀ w, t.successes w ≤ 1 ∧ t.rejections w ≤ MAX_FAILED_ATTEMPTS) :=
  ⟨_, rfl, by decide, by decide, (@pairing_window_single_use _ sampleResponder _ pairOnce rfl).1⟩

end Desk

end OmniBridge.Desktop
