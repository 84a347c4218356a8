import OmniBridge.DesktopPairing

/-! Pair sessions of the control socket. Each opens the pairing window, shows it to its
client and ends it; all of them share the one slot of the desk. -/

namespace OmniBridge.Desktop

open List Option

variable {Fp : Type}

def NANOS_PER_SEC : Nat := 10 ^ 9

def DEFAULT_TOKEN_TTL : Nat := 120 * NANOS_PER_SEC

inductive PairOutcome where
  | expired | cancelled
  | paired (short : String)
  | declined (short : String)
deriving DecidableEq

/-- Where `run_pair_session` stands, with the number of the window it opened. Its own
fingerprint and token, which it reads back to show them, always parse. -/
inductive PairStage where
  | refused
  | created (token : PairingToken) (openedAt ttl : Nat)
  | placed (window ttl : Nat)
  | ready (window ttl : Nat)
  | waiting (window deadline : Nat)
  | confirming (window : Nat) (short : String)
  | prompting (window : Nat) (short : String)
  | ending (window : Nat) (outcome : PairOutcome)
  | detaching (window : Nat) (outcome : PairOutcome)
  | finishing (window : Nat) (outcome : PairOutcome)
  | returned (window : Option Nat) (ok : Bool)
deriving DecidableEq

inductive PairMove where
  | place | attach
  | write (ok : Bool)
  | timeout | hangUp | line
  | request (short : String)
  | answer (accept : Bool)
  | close | detach
deriving DecidableEq

namespace PairStage

def window : PairStage → Option Nat
  | .refused | .created _ _ _ => none
  | .placed w _ | .ready w _ | .waiting w _ | .confirming w _ | .prompting w _ | .ending w _
  | .detaching w _
  | .finishing w _ => some w
  | .returned w _ => w

def isClosing : PairStage → Bool
  | .detaching _ _ | .finishing _ _ => true
  | _ => false

def isReturned : PairStage → Bool
  | .returned _ _ => true
  | _ => false

def move (x : Responder Fp) (desk : Desk) : PairStage → PairMove → Option (PairStage × Desk)
  | .refused, .write ok => some (.returned none ok, desk)
  | .created token openedAt ttl, .place =>
    (desk.step x (.openWindow token openedAt ttl)).map (fun d => (.placed desk.windows ttl, d))
  | .placed w ttl, .attach => (desk.step x (.attach w)).map (fun d => (.ready w ttl, d))
  | .ready w ttl, .write ok =>
    some (if ok then .waiting w (desk.now + ttl) else .returned (some w) false, desk)
  | .waiting w deadline, .timeout =>
    if deadline ≤ desk.now then some (.ending w .expired, desk) else none
  | .waiting w _, .hangUp => some (.ending w .cancelled, desk)
  | .waiting w deadline, .line => some (.waiting w deadline, desk)
  | .waiting w _, .request short => some (.confirming w short, desk)
  | .confirming w short, .write ok =>
    some (if ok then .prompting w short else .returned (some w) false, desk)
  | .prompting w short, .answer accept =>
    some (.ending w (if accept then .paired short else .declined short), desk)
  | .ending w outcome, .close => (desk.step x .closeWindow).map (fun d => (.detaching w outcome, d))
  | .detaching w outcome, .detach => (desk.step x .detach).map (fun d => (.finishing w outcome, d))
  | .finishing w _, .write ok => some (.returned (some w) ok, desk)
  | _, _ => none

inductive Moves (desk : Desk) (stage : PairStage) (m : PairMove) : PairStage → Desk → Prop
  | opened (token : PairingToken) (openedAt ttl : Nat) (desk' : Desk) : stage = .created token
    openedAt ttl → m = .place →
    desk'.pairing = some (desk.windows, ⟨token, openedAt, ttl, 0, false⟩) →
    desk'.windows = desk.windows + 1 → Moves desk stage m (.placed desk.windows ttl) desk'
  | failed (w : Nat) : (∃ ttl, stage = .ready w ttl) ∨ (∃ short, stage = .confirming w short) →
    m = .write false → Moves desk stage m (.returned (some w) false) desk
  | closed (w : Nat) (outcome : PairOutcome) : stage = .ending w outcome → m = .close →
      Moves desk stage m (.detaching w outcome) { desk with pairing := none }
  | finished (w : Nat) (outcome : PairOutcome) (ok : Bool) : stage = .finishing w outcome →
    m = .write ok → Moves desk stage m (.returned (some w) ok) desk
  | goesOn (stage' : PairStage) (desk' : Desk) : m ≠ .close → m ≠ .place →
    (m = .write false → stage = .refused) → stage'.window = stage.window →
    (stage'.isClosing → stage.isClosing) → (stage'.isReturned → stage'.window = none) →
    desk'.pairing = desk.pairing → desk'.windows = desk.windows → Moves desk stage m stage' desk'

theorem move_cases {x : Responder Fp} {desk desk' stage stage' m}
    (h : stage.move x desk m = some (stage', desk')) : Moves desk stage m stage' desk' := by
  unfold move at h
  split at h
  case h_1 ok =>
    obtain ⟨rfl, rfl⟩ := Prod.mk.inj (some.inj h)
    exact .goesOn _ _ nofun nofun (fun _ => rfl) rfl nofun (fun _ => rfl) rfl rfl
  case h_2 token openedAt ttl =>
    obtain ⟨d, hd, heq⟩ := map_eq_some_iff.mp h
    obtain ⟨rfl, rfl⟩ := Prod.mk.inj heq
    obtain ⟨-, hd⟩ := ite_none_right_eq_some.mp hd
    cases hd
    exact .opened token openedAt ttl _ rfl rfl rfl rfl
  case h_3 w ttl =>
    obtain ⟨d, hd, heq⟩ := map_eq_some_iff.mp h
    obtain ⟨rfl, rfl⟩ := Prod.mk.inj heq
    cases hd
    exact .goesOn _ _ nofun nofun nofun rfl nofun nofun rfl rfl
  case h_4 w ttl ok =>
    obtain ⟨rfl, rfl⟩ := Prod.mk.inj (some.inj h)
    cases ok with
    | true => exact .goesOn _ _ nofun nofun nofun rfl nofun nofun rfl rfl
    | false => exact .failed w (.inl ⟨ttl, rfl⟩) rfl
  case h_5 w deadline =>
    obtain ⟨-, h⟩ := ite_none_right_eq_some.mp h
    obtain ⟨rfl, rfl⟩ := Prod.mk.inj (some.inj h)
    exact .goesOn _ _ nofun nofun nofun rfl nofun nofun rfl rfl
  case h_6 w deadline =>
    obtain ⟨rfl, rfl⟩ := Prod.mk.inj (some.inj h)
    exact .goesOn _ _ nofun nofun nofun rfl nofun nofun rfl rfl
  case h_7 w deadline =>
    obtain ⟨rfl, rfl⟩ := Prod.mk.inj (some.inj h)
    exact .goesOn _ _ nofun nofun nofun rfl nofun nofun rfl rfl
  case h_8 w deadline short =>
    obtain ⟨rfl, rfl⟩ := Prod.mk.inj (some.inj h)
    exact .goesOn _ _ nofun nofun nofun rfl nofun nofun rfl rfl
  case h_9 w short ok =>
    obtain ⟨rfl, rfl⟩ := Prod.mk.inj (some.inj h)
    cases ok with
    | true => exact .goesOn _ _ nofun nofun nofun rfl nofun nofun rfl rfl
    | false => exact .failed w (.inr ⟨short, rfl⟩) rfl
  case h_10 w short accept =>
    obtain ⟨rfl, rfl⟩ := Prod.mk.inj (some.inj h)
    exact .goesOn _ _ nofun nofun nofun rfl nofun nofun rfl rfl
  case h_11 w outcome =>
    obtain ⟨d, hd, heq⟩ := map_eq_some_iff.mp h
    obtain ⟨rfl, rfl⟩ := Prod.mk.inj heq
    cases hd
    exact .closed w outcome rfl rfl
  case h_12 w outcome =>
    obtain ⟨d, hd, heq⟩ := map_eq_some_iff.mp h
    obtain ⟨rfl, rfl⟩ := Prod.mk.inj heq
    cases hd
    exact .goesOn _ _ nofun nofun nofun rfl (fun _ => rfl) nofun rfl rfl
  case h_13 w outcome ok =>
    obtain ⟨rfl, rfl⟩ := Prod.mk.inj (some.inj h)
    exact .finished w outcome ok rfl rfl
  case h_14 => cases h

end PairStage

/-- `closures` lists which window was closed by the session of which window. -/
structure PairDesk where
  desk : Desk := {}
  sessions : List PairStage := []
  closures : List (Nat × Nat) := []

namespace PairDesk

inductive Action (Fp : Type) where
  | pair (token : Option PairingToken) (ttlSecs : Option Nat)
  | go (i : Nat) (m : PairMove)
  | advance (by_ : Nat)
  | verify (profile : Profile) (initiator : Fp) (nonce proof : Bytes) (later : Nat)

def opening (token : Option PairingToken) (ttlSecs : Option Nat) (s : PairDesk) : PairStage :=
  match token with
  | none => .refused
  | some token =>
    .created token s.desk.now ((ttlSecs.map (· * NANOS_PER_SEC)).getD DEFAULT_TOKEN_TTL)

def closed (desk : Desk) : PairStage → PairMove → List (Nat × Nat)
  | .ending w _, .close => (desk.pairing.map (fun p => (w, p.1))).toList
  | _, _ => []

def step (x : Responder Fp) (s : PairDesk) : Action Fp → Option PairDesk
  | .pair token ttlSecs => some { s with sessions := s.sessions ++ [s.opening token ttlSecs] }
  | .go i m =>
    (s.sessions[i]?).bind (fun stage =>
      (stage.move x s.desk m).map (fun next =>
        { s with desk := next.2, sessions := s.sessions.set i next.1
                 closures := s.closures ++ closed s.desk stage m }))
  | .advance d => (s.desk.step x (.advance d)).map (fun desk => { s with desk := desk })
  | .verify profile initiator nonce proof later =>
    (s.desk.step x (.verify profile initiator nonce proof later)).map (fun desk =>
      { s with desk := desk })

def slot (s : PairDesk) : Option Nat := s.desk.pairing.map Prod.fst

variable {x : Responder Fp} {s t : PairDesk} {a : Action Fp}

theorem verify_slot (x) (profile : Profile) (initiator : Fp) (nonce proof : Bytes) (later : Nat)
    (d : Desk) : let d' := (d.verifyPairingProof x profile initiator nonce proof later).2
    (d'.pairing.map Prod.fst = d.pairing.map Prod.fst ∨ d'.pairing = none) ∧
      d'.windows = d.windows := by
  have hv := Desk.verifies x profile initiator nonce proof later d
  generalize d.verifyPairingProof x profile initiator nonce proof later = outcome at hv
  cases hv with
  | closed => exact ⟨.inl rfl, rfl⟩
  | accepted => exact ⟨.inr rfl, rfl⟩
  | rejected _ _ hslot | refused _ _ _ hslot =>
    refine ⟨?_, rfl⟩
    rw [hslot]
    split
    · exact .inr rfl
    · exact .inl rfl

inductive Steps (s : PairDesk) : Action Fp → PairDesk → Prop
  | pair (token : Option PairingToken) (ttlSecs : Option Nat) :
      Steps s (.pair token ttlSecs) { s with sessions := s.sessions ++ [s.opening token ttlSecs] }
  | apart (a : Action Fp) (desk : Desk) : (∀ i m, a ≠ .go i m) →
      (desk.pairing.map Prod.fst = s.slot ∨ desk.pairing = none) → desk.windows = s.desk.windows →
      Steps s a { s with desk := desk }
  | go (i : Nat) (m : PairMove) (stage stage' : PairStage) (desk : Desk) : s.sessions[i]? =
    some stage → PairStage.Moves s.desk stage m stage' desk → Steps s (.go i m)
        { s with desk := desk, sessions := s.sessions.set i stage'
                 closures := s.closures ++ closed s.desk stage m }

theorem step_cases (h : s.step x a = some t) : Steps s a t := by
  cases a with
  | pair token ttlSecs => exact some.inj h ▸ .pair token ttlSecs
  | advance =>
    cases h
    exact .apart _ _ nofun (.inl rfl) rfl
  | verify profile initiator nonce proof later =>
    cases h
    obtain ⟨hslot, hwind⟩ := verify_slot x profile initiator nonce proof later s.desk
    exact .apart _ _ nofun hslot hwind
  | go i m =>
    obtain ⟨stage, hst, h⟩ := bind_eq_some_iff.mp h
    obtain ⟨⟨stage', desk'⟩, hmove, rfl⟩ := map_eq_some_iff.mp h
    exact .go i m stage stage' desk' hst (PairStage.move_cases hmove)

theorem step_slot (h : s.step x a = some t) :
    (t.slot = s.slot ∨ t.slot = none) ∧ t.desk.windows = s.desk.windows ∨
      t.slot = some s.desk.windows ∧ t.desk.windows = s.desk.windows + 1 := by
  cases step_cases h with
  | pair => exact .inl ⟨.inl rfl, rfl⟩
  | apart _ _ _ hslot hwind =>
    exact .inl ⟨hslot.imp_right (fun hnone => by simp [slot, hnone]), hwind⟩
  | go i m _ _ _ _ hmoves =>
    cases hmoves with
    | opened _ _ _ _ _ _ hpair hwind => exact .inr ⟨by simp [slot, hpair], hwind⟩
    | failed | finished => exact .inl ⟨.inl rfl, rfl⟩
    | closed => exact .inl ⟨.inr rfl, rfl⟩
    | goesOn _ _ _ _ _ _ _ _ hpair hwind =>
      exact .inl ⟨.inl (by simp [slot, hpair]), hwind⟩

/-- Windows are numbered as they open, and a session that closes has seen its window go. -/
structure Numbered (s : PairDesk) : Prop where
  slot_lt : ∀ w, s.slot = some w → w < s.desk.windows
  window_lt : ∀ stage ∈ s.sessions, ∀ w, stage.window = some w → w < s.desk.windows
  closing : ∀ stage ∈ s.sessions, stage.isClosing → s.slot ≠ stage.window

theorem step_slot_ne {w} (h : s.step x a = some t) (hw : w < s.desk.windows)
    (hs : s.slot ≠ some w) : t.slot ≠ some w := by
  intro ht
  rcases step_slot h with ⟨hsame | hnone, -⟩ | ⟨hnew, -⟩
  · exact hs (hsame ▸ ht)
  · rw [hnone] at ht
    cases ht
  · have heq : s.desk.windows = w := some.inj (hnew.symm.trans ht)
    omega

theorem step_numbered (hs : s.Numbered) (h : s.step x a = some t) : t.Numbered := by
  have hgrows : s.desk.windows ≤ t.desk.windows := by rcases step_slot h with ⟨-, hsame⟩ | ⟨-,
    hmore⟩ <;> omega
  have hslot : ∀ w, t.slot = some w → w < t.desk.windows := by
    intro w hw
    rcases step_slot h with ⟨hsame | hnone, _⟩ | ⟨hnew, _⟩
    · have hlt := hs.slot_lt w (hsame ▸ hw)
      omega
    · rw [hnone] at hw
      cases hw
    · have heq : s.desk.windows = w := some.inj (hnew.symm.trans hw)
      omega
  have hold : ∀ stage ∈ s.sessions, stage.isClosing → t.slot ≠ stage.window := by
    intro stage hmem hclos
    cases hwindow : stage.window with
    | none => cases stage <;> simp_all [PairStage.isClosing, PairStage.window]
    | some w =>
      exact step_slot_ne h (hs.window_lt stage hmem w hwindow)
        (hwindow ▸ hs.closing stage hmem hclos)
  cases step_cases h with
  | apart _ _ _ _ hwind =>
    exact ⟨hslot, fun stage hmem w hw => hwind ▸ hs.window_lt stage hmem w hw, hold⟩
  | pair token ttlSecs =>
    have hnew : (s.opening token ttlSecs).window = none ∧
        (s.opening token ttlSecs).isClosing = false := by
      cases token <;> exact ⟨rfl, rfl⟩
    refine ⟨hslot, forall_mem_concat hs.window_lt ?_, forall_mem_concat hold ?_⟩
    · rw [hnew.1]
      nofun
    · rw [hnew.2]
      nofun
  | go i m stage stage' desk hst hmoves =>
    have hmem := mem_of_getElem? hst
    have hnew : (∀ w, stage'.window = some w → w < desk.windows) ∧
        (stage'.isClosing → desk.pairing.map Prod.fst ≠ stage'.window) := by
      cases hmoves with
      | opened _ _ _ _ heq =>
        refine ⟨fun w hw => ?_, nofun⟩
        have heq : s.desk.windows = w := some.inj hw
        omega
      | failed w heq =>
        refine ⟨fun v hv => ?_, nofun⟩
        have hwindow : stage.window = some w := by rcases heq with ⟨ttl, rfl⟩ | ⟨short, rfl⟩ <;> rfl
        exact hs.window_lt stage hmem v (hwindow.trans hv)
      | closed w _ heq =>
        subst heq
        exact ⟨fun v hv => hs.window_lt _ hmem v hv, fun _ => nofun⟩
      | finished w _ _ heq =>
        subst heq
        exact ⟨fun v hv => hs.window_lt _ hmem v hv, nofun⟩
      | goesOn _ _ _ _ _ hwindow hclos _ hpair hwind =>
        rw [hwindow, hpair, hwind]
        exact ⟨hs.window_lt stage hmem, fun hc => hs.closing stage hmem (hclos hc)⟩
    refine ⟨hslot, ?_, ?_⟩
    · exact forall_mem_set
        (fun r hr w hw => Nat.lt_of_lt_of_le (hs.window_lt r hr w hw) hgrows) hnew.1
    · exact forall_mem_set hold hnew.2

/-- The window of a pair session that has returned is closed, and no session has closed a
window that was opened after its own. -/
def Owned (s : PairDesk) : Prop :=
  (∀ w ok, .returned (some w) ok ∈ s.sessions → s.slot ≠ some w) ∧ ∀ c ∈ s.closures, c.2 ≤ c.1

/-- A session that returns on a failed write no longer has its window in the slot, and one
that closes finds no window opened after its own. -/
def leavesTidy (slot : Option Nat) : PairStage → PairMove → Bool
  | .ready w _, .write false | .confirming w _, .write false => slot ≠ some w
  | .ending w _, .close => slot.all (· ≤ w)
  | _, _ => true

def Tidy (s : PairDesk) : Action Fp → Prop
  | .go i m => ∀ stage ∈ s.sessions[i]?, leavesTidy s.slot stage m
  | _ => True

theorem owned_go_iff {i m stage stage'} (hst : s.sessions[i]? = some stage)
    (hold : ∀ w ok, .returned (some w) ok ∈ s.sessions → t.slot ≠ some w) (hp : s.Owned)
    (hsess : t.sessions = s.sessions.set i stage')
    (hclosur : t.closures = s.closures ++ closed s.desk stage m) :
    t.Owned ↔ (∀ w ok, stage' = .returned (some w) ok → t.slot ≠ some w) ∧
      ∀ c ∈ closed s.desk stage m, c.2 ≤ c.1 := by
  have hlt := (List.getElem?_eq_some_iff.mp hst).1
  rw [Owned, hsess, hclosur]
  constructor
  · rintro ⟨hret, hcl⟩
    refine ⟨fun w ok heq => ?_, fun c hc => hcl c (mem_append_right _ hc)⟩
    exact hret w ok (heq ▸ mem_set hlt stage')
  · rintro ⟨hret, hcl⟩
    constructor
    · intro w ok hmem
      rcases mem_or_eq_of_mem_set hmem with hmem | heq
      · exact hold w ok hmem
      · exact hret w ok heq.symm
    · intro c hc
      rcases mem_append.mp hc with hc | hc
      · exact hp.2 c hc
      · exact hcl c hc

theorem step_owned_iff (hs : s.Numbered) (hp : s.Owned) (h : s.step x a = some t) :
    t.Owned ↔ s.Tidy a := by
  have hold : ∀ w ok, .returned (some w) ok ∈ s.sessions → t.slot ≠ some w :=
    fun w ok hmem => step_slot_ne h (hs.window_lt _ hmem w rfl) (hp.1 w ok hmem)
  cases step_cases h with
  | pair token =>
    refine iff_of_true ⟨fun w ok hmem => ?_, hp.2⟩ trivial
    rcases mem_append.mp hmem with hmem | hmem
    · exact hold w ok hmem
    · have heq := mem_singleton.mp hmem
      cases token <;> cases heq
  | apart a _ hgo =>
    refine iff_of_true ⟨hold, hp.2⟩ ?_
    cases a with
    | go i m => exact absurd rfl (hgo i m)
    | _ => trivial
  | go i m stage _ desk hst hmoves =>
    rw [owned_go_iff hst hold hp rfl rfl]
    cases hmoves with
    | opened _ _ _ _ heq hm =>
      subst heq hm
      refine iff_of_true ⟨nofun, nofun⟩ ?_
      simp [Tidy, leavesTidy, hst]
    | failed w heq hm =>
      subst hm
      have hcl : closed s.desk stage (.write false) = [] :=
        by rcases heq with ⟨ttl, rfl⟩ | ⟨short, rfl⟩ <;> rfl
      have htidy : s.Tidy (.go i (.write false) : Action Fp) ↔ s.slot ≠ some w := by
        rcases heq with ⟨ttl, rfl⟩ | ⟨short, rfl⟩ <;> simp [Tidy, leavesTidy, hst]
      rw [htidy, hcl]
      constructor
      · exact fun hall => hall.1 w false rfl
      · intro hne
        refine ⟨fun v ok hv => ?_, nofun⟩
        cases hv
        exact hne
    | closed w _ heq hm =>
      subst heq hm
      have htidy : s.Tidy (.go i .close : Action Fp) ↔ ∀ v ∈ s.slot, v ≤ w := by
        simp [Tidy, leavesTidy, hst, Option.all_eq_true]
      rw [htidy]
      constructor
      · rintro ⟨-, hcl⟩ v hv
        refine hcl (w, v) ?_
        obtain ⟨p, hpair, rfl⟩ := map_eq_some_iff.mp hv
        simp [closed, hpair]
      · intro hall
        refine ⟨nofun, fun c hc => ?_⟩
        obtain ⟨p, hpair, rfl⟩ := map_eq_some_iff.mp (mem_toList.mp hc)
        exact hall p.1 (map_eq_some_iff.mpr ⟨p, hpair, rfl⟩)
    | finished w _ _ heq hm =>
      subst heq hm
      refine iff_of_true ⟨fun v b hv => ?_, nofun⟩ (by simp [Tidy, leavesTidy, hst])
      cases hv
      exact hs.closing _ (mem_of_getElem? hst) rfl
    | goesOn _ _ hclose _ hwrite _ _ hret =>
      refine iff_of_true ⟨fun v b hv => ?_, ?_⟩ ?_
      · subst hv
        cases hret rfl
      · intro c hc
        unfold closed at hc
        split at hc
        · exact absurd rfl hclose
        · cases hc
      · intro r hr
        obtain rfl := mem_unique hst hr
        unfold leavesTidy
        split
        · cases hwrite rfl
        · cases hwrite rfl
        · exact absurd rfl hclose
        · rfl

/-- In a run of any number of pair sessions each window is closed when its session has
returned, and none is closed by an earlier session, exactly where no session returns on
a failed write with its window open and none ends while a later window is open. -/
theorem pair_sessions_own_windows_iff {as : List (Action Fp)} (h : run (step x) {} as = some t) :
    Always (step x) Owned {} as ↔ Meets (step x) Tidy {} as :=
  @always_iff_meets _ _ (step x) Tidy Numbered Owned (fun _ _ _ hs h => step_numbered hs h)
    (fun _ _ _ hs hp h => step_owned_iff hs hp h) as {} t h ⟨nofun, nofun, nofun⟩ ⟨nofun, nofun⟩

instance (s : PairDesk) (a : Action Fp) : Decidable (s.Tidy a) := by
  unfold Tidy
  induction a using Action.casesOn <;> infer_instance

def openPair (i : Nat) : List (Action Nat) :=
  [.pair (some Desk.sampleToken) none, .go i .place, .go i .attach]

def pairInTurn : List (Action Nat) :=
  openPair 0 ++ [Action.go 0 (.write true), .go 0 .hangUp, .go 0 .close, .go 0 .detach,
    .go 0 (.write true)] ++ openPair 1

theorem pair_sessions_own_windows_in_turn :
    ∃ t, run (step Desk.sampleResponder) {} pairInTurn = some t ∧ t.slot = some 1 ∧
      t.sessions[0]? = some (.returned (some 0) true) ∧
      Always (step Desk.sampleResponder) Owned {} pairInTurn :=
  ⟨_, rfl, by decide, by decide, (@pair_sessions_own_windows_iff _ Desk.sampleResponder _ pairInTurn
    rfl).mpr (by decide)⟩

/-- A client is gone before its window is shown: the session returns and the window stays open.
And a session hung up on after another has opened a window closes that window. -/
theorem pair_session_leaves_window :
    (∃ t, run (step Desk.sampleResponder) {} (openPair 0 ++ [.go 0 (.write false)]) = some t ∧
      t.sessions = [.returned (some 0) false] ∧ t.slot = some 0 ∧ ¬ t.Owned) ∧
      ∃ t, run (step Desk.sampleResponder) {} (openPair 0 ++ [.go 0 (.write true)] ++ openPair 1 ++
      [.go 0 .hangUp, .go 0 .close]) = some t ∧ t.closures = [(0, 1)] ∧ t.slot = none ∧
      ¬ t.Owned := by
  refine ⟨⟨_, rfl, by decide, by decide, ?_⟩, ⟨_, rfl, by decide, by decide, ?_⟩⟩
  · intro h
    exact h.1 0 false (by decide) (by decide)
  · intro h
    exact absurd (h.2 (0, 1) (by decide)) (by decide)

end PairDesk

end OmniBridge.Desktop
