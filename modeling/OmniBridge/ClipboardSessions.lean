import OmniBridge.ClipboardRelay

/-! The sessions behind the clipboard: each attaches once and later detaches once,
and on a reconnect the older one detaches after the newer one has attached. What
the newest session of a peer has put into the manager should survive that. -/

namespace OmniBridge.Clipboard

open List Option Function Clipboard.System

/-- How far a session is: `detach_session` takes its three locks one by one. -/
inductive Stage where
  | attached | senderGone | pendingGone | detached
deriving DecidableEq

/-- `newest` is the last session of each peer to attach, `held` the clip held for a peer with the
session that sent it; `origins` says the same of the clips being applied. -/
structure Daemon (Peer : Type) where
  system : System Peer := {}
  sessions : List (Peer × Stage) := []
  newest : Peer → Option Nat := fun _ => none
  held : Peer → Option (Nat × PendingClip) := fun _ => none
  origins : List (Option Nat) := []

inductive Move (Peer : Type) where
  | connect (peer : Peer)
  | message (session : Nat) (peerDeviceId : String) (update : ClipboardUpdate)
  | detachSender (session : Nat)
  | detachPending (session : Nat)
  | detachResults (session : Nat)
  | pendingClips
  | act (action : Action Peer)

namespace System

variable {Peer : Type} [DecidableEq Peer] {contentHash : String → Digest} {s t : System Peer}
  {peer : Peer}

theorem update_frame {peerDeviceId update}
    (hstep : s.step contentHash (.update peer peerDeviceId update) = some t) :
    t.manager.sessions = s.manager.sessions ∧
      t.manager.pending = (s.manager.handleUpdate contentHash (s.policyFor peer) s.now peer
      peerDeviceId update).1.pending := by
  have hsend := (s.manager.handleUpdate_frame contentHash (s.policyFor peer) s.now peer
    peerDeviceId update).1
  simp only [step] at hstep
  generalize s.manager.handleUpdate contentHash (s.policyFor peer) s.now peer peerDeviceId update =
    r
    at hstep hsend ⊢
  split at hstep
  all_goals
    cases hstep
    exact ⟨hsend, rfl⟩

theorem applyPending_frame (hstep : s.step contentHash (.applyPending peer) = some t) :
    t.manager.sessions = s.manager.sessions ∧
      t.manager.pending = if (s.policyFor peer).allowReceive then update s.manager.pending peer none
      else s.manager.pending := by
  have hframe := s.manager.takePending_frame (s.policyFor peer) s.now peer
  simp only [step] at hstep
  generalize s.manager.takePending (s.policyFor peer) s.now peer = r at hstep hframe
  split at hstep
  all_goals
    cases hstep
    exact hframe

theorem finishWrite_frame {index ok} (hstep : s.step contentHash (.finishWrite index ok) = some t) :
    t.manager.sessions = s.manager.sessions ∧ t.manager.pending =
      match ok, (s.applying[index]?).bind Applying.held with
      | false, some (peer, clip) =>
        update s.manager.pending peer (some clip) | _, _ => s.manager.pending := by
  obtain ⟨⟨_, _, held⟩, ha, rfl⟩ := map_eq_some_iff.mp hstep
  rw [ha, bind_some]
  cases ok with
  | true => exact ⟨rfl, rfl⟩
  | false =>
    cases held with
    | _ => exact ⟨rfl, rfl⟩

def quiet : Action Peer → Bool
  | .attach _ _ | .detach _ | .update _ _ _ | .applyPending _ | .finishWrite _ _ => false
  | _ => true

theorem quiet_frame {a} (ha : quiet a) (hstep : s.step contentHash a = some t) :
    t.manager.sessions = s.manager.sessions ∧ t.manager.pending = s.manager.pending := by
  cases a with
  | tick | setPolicy | userCopy =>
    cases hstep
    exact ⟨rfl, rfl⟩
  | signal =>
    simp only [step] at hstep
    split at hstep
    · cases hstep
      exact ⟨rfl, rfl⟩
    · cases hstep
  | read =>
    simp only [step] at hstep
    split at hstep
    · cases hstep
      exact ⟨rfl, rfl⟩
    · cases hstep
      exact ⟨rfl, rfl⟩
    · cases hstep
  | take =>
    simp only [step] at hstep
    split at hstep
    · next text _ _ =>
      have hframe : (s.manager.takeFor contentHash s.now text).2.sessions = s.manager.sessions ∧
          (s.manager.takeFor contentHash s.now text).2.pending = s.manager.pending := ⟨rfl, rfl⟩
      generalize s.manager.takeFor contentHash s.now text = r at hstep hframe
      split at hstep
      all_goals
        cases hstep
        exact hframe
    · cases hstep
  | deliver =>
    simp only [step] at hstep
    split at hstep
    · cases hstep
      exact ⟨rfl, rfl⟩
    · split at hstep
      all_goals
        cases hstep
        exact ⟨rfl, rfl⟩
    · cases hstep
  | _ => cases ha

end System

namespace Daemon

variable {Peer : Type} [DecidableEq Peer] (contentHash : String → Digest)

def withManager (m : Manager Peer) (s : Daemon Peer) : Daemon Peer :=
  { s with system := { s.system with manager := m } }

def heldAfter (i : Nat) (peer : Peer) (peerDeviceId : String) (update : ClipboardUpdate)
    (s : Daemon Peer) : Option (Nat × PendingClip) :=
  match s.system.manager.handleUpdate contentHash (s.system.policyFor peer) s.system.now peer
    peerDeviceId
    update with
  | (m, .answer .pendingUser) => (m.pending peer).map (fun clip => (i, clip))
  | _ => s.held peer

def putBack (index : Nat) (s : Daemon Peer) : Peer → Option (Nat × PendingClip) :=
  match (s.system.applying[index]?).bind Applying.held with
  | some (peer, clip) =>
    update s.held peer ((s.origins[index]?).join.map (fun i => (i, clip)))
  | none => s.held

def step (s : Daemon Peer) : Move Peer → Option (Daemon Peer)
  | .connect peer =>
    some { s.withManager (s.system.manager.attachSession peer s.sessions.length) with
      sessions := s.sessions ++ [(peer, .attached)]
      newest := Function.update s.newest peer (some s.sessions.length) }
  | .message i peerDeviceId update =>
    match s.sessions[i]? with
    | some (peer, .attached) =>
      (s.system.step contentHash (.update peer peerDeviceId update)).map (fun system =>
        { s with
          system := system
          held := Function.update s.held peer (s.heldAfter contentHash i peer peerDeviceId update)
          origins := s.origins ++ replicate (system.applying.length - s.system.applying.length) none
            })
    | _ => none
  | .detachSender i =>
    match s.sessions[i]? with
    | some (peer, .attached) =>
      some { s.withManager (s.system.manager.detachSender peer) with
        sessions := s.sessions.modify i (fun e => (e.1, .senderGone)) }
    | _ => none
  | .detachPending i =>
    match s.sessions[i]? with
    | some (peer, .senderGone) =>
      some { s.withManager (s.system.manager.detachPending peer) with
        sessions := s.sessions.modify i (fun e => (e.1, .pendingGone)) }
    | _ => none
  | .detachResults i =>
    match s.sessions[i]? with
    | some (peer, .pendingGone) =>
      some { s.withManager (s.system.manager.detachResults peer) with
        sessions := s.sessions.modify i (fun e => (e.1, .detached)) }
    | _ => none
  | .pendingClips =>
    some { s.withManager (s.system.manager.pendingClips s.system.now) with
      held := fun peer => (s.held peer).filter (fun h => s.system.now - h.2.receivedAt <
        PENDING_CLIP_TTL) }
  | .act a =>
    match a with
    | .attach _ _ | .detach _ | .update _ _ _ => none
    | .applyPending peer =>
      (s.system.step contentHash (.applyPending peer)).map (fun system =>
        { s with
          system := system
          held := if (s.system.policyFor peer).allowReceive then Function.update s.held peer none
            else s.held
          origins := s.origins ++ replicate (system.applying.length - s.system.applying.length)
            ((s.held peer).map Prod.fst) })
    | .finishWrite index ok =>
      (s.system.step contentHash (.finishWrite index ok)).map (fun system =>
        { s with
          system := system
          held := if ok then s.held else s.putBack index
          origins := s.origins.eraseIdx index })
    | a => (s.system.step contentHash a).map (fun system => { s with system := system })

def current (peer : Peer) (s : Daemon Peer) : Option Nat :=
  (s.newest peer).filter (fun i => s.sessions[i]? = some (peer, .attached))

/-- The newest session's sender is the one in use, and a clip held from it is held. -/
def Live (s : Daemon Peer) : Prop :=
  ∀ peer, ∀ i ∈ s.current peer, s.system.manager.sessions peer = some i ∧
    ∀ h ∈ s.held peer, h.1 = i → s.system.manager.pending peer = some h.2

/-- An older session gives up the sender only when its peer has no newer session
attached, and the held clip only when it is not a newer session's. -/
def Considerate (s : Daemon Peer) : Move Peer → Prop
  | .detachSender i => ∀ e ∈ s.sessions[i]?, ∀ j ∈ s.current e.1, j = i
  | .detachPending i => ∀ e ∈ s.sessions[i]?, ∀ j ∈ s.current e.1, ∀ h ∈ s.held e.1, h.1 ≠ j
  | _ => True

instance (s : Daemon Peer) (a : Move Peer) : Decidable (s.Considerate a) := by
  unfold Considerate
  induction a using Move.casesOn <;> infer_instance

variable {contentHash} {s t : Daemon Peer}

structure Named (s : Daemon Peer) : Prop where
  held : ∀ peer, ∀ h ∈ s.held peer, h.1 < s.sessions.length
  origins : ∀ o ∈ s.origins, ∀ i ∈ o, i < s.sessions.length

theorem Live.keep (h : s.Live) (hsess : t.sessions = s.sessions) (hnewest : t.newest = s.newest)
    (hsend : t.system.manager.sessions = s.system.manager.sessions)
    (hclips : ∀ peer, ∀ c ∈ t.held peer, t.system.manager.pending peer = some c.2 ∨
      s.held peer = some c ∧ t.system.manager.pending peer = s.system.manager.pending peer) :
    t.Live := by
  intro peer i hi
  have hcurr : i ∈ s.current peer := by
    unfold current at hi ⊢
    rw [hsess, hnewest] at hi
    exact hi
  obtain ⟨hsndr, hheld⟩ := h peer i hcurr
  refine ⟨by rw [hsend]; exact hsndr, ?_⟩
  intro c hc hfrom
  rcases hclips peer c hc with hnew | ⟨hold, hsame⟩
  · exact hnew
  · rw [hsame]
    exact hheld c hold hfrom

variable {i : Nat} {peer : Peer}

theorem mem_current :
    i ∈ s.current peer ↔ s.newest peer = some i ∧ s.sessions[i]? = some (peer, .attached) := by
  unfold current
  simp

theorem connect_live (h : s.Live) (hnam : s.Named)
    (hstep : s.step contentHash (.connect peer) = some t) : t.Live := by
  cases hstep
  intro p i hi
  obtain ⟨hnewest, hentry⟩ := mem_current.mp hi
  by_cases hp : p = peer
  · subst hp
    obtain rfl : s.sessions.length = i := by simpa using hnewest
    refine ⟨update_self _ _ _, ?_⟩
    intro c hc _
    have hlt := hnam.held p c hc
    omega
  · have hnewest : s.newest p = some i := by simpa [hp] using hnewest
    rcases getElem?_concat_eq_some hentry with hold | ⟨-, hnew⟩
    · obtain ⟨hsndr, hheld⟩ := h p i (mem_current.mpr ⟨hnewest, hold⟩)
      refine ⟨?_, hheld⟩
      exact (update_of_ne hp _ _).trans hsndr
    · exact absurd (Prod.mk.inj hnew).1 hp

theorem message_live (h : s.Live) {peerDeviceId update}
    (hstep : s.step contentHash (.message i peerDeviceId update) = some t) : t.Live := by
  simp only [step] at hstep
  split at hstep
  · next peer _ =>
    obtain ⟨system, hsystem, rfl⟩ := map_eq_some_iff.mp hstep
    obtain ⟨hsend, hpend⟩ := update_frame hsystem
    obtain ⟨-, hcase⟩ := s.system.manager.handleUpdate_frame contentHash (s.system.policyFor peer)
      s.system.now peer peerDeviceId update
    refine h.keep rfl rfl hsend ?_
    intro p c hc
    change c ∈ Function.update s.held peer
      (s.heldAfter contentHash i peer peerDeviceId update) p at hc
    unfold heldAfter at hc
    rw [hpend]
    generalize s.system.manager.handleUpdate contentHash (s.system.policyFor peer) s.system.now peer
      peerDeviceId update = r at hc hcase ⊢
    by_cases hp : p = peer
    · subst hp
      rw [update_self] at hc
      split at hc
      · obtain ⟨_, hclip, rfl⟩ := map_eq_some_iff.mp hc
        exact .inl hclip
      · next hoth =>
        rcases hcase with hsame | ⟨_, hansw, -⟩
        · exact .inr ⟨hc, by rw [hsame]⟩
        · exact (hoth r.1 (by rw [← hansw])).elim
    · rw [update_of_ne hp] at hc
      refine .inr ⟨hc, ?_⟩
      rcases hcase with hsame | ⟨_, -, hclip⟩
      · rw [hsame]
      · rw [hclip, update_of_ne hp]
  · cases hstep

theorem mem_current_of_modify {j stage m} (hst : stage ≠ .attached) :
    j ∈ current peer { s.withManager m with
      sessions := s.sessions.modify i (fun e => (e.1, stage)) } ↔ j ∈ s.current peer ∧ j ≠ i := by
  rw [mem_current, mem_current]
  constructor
  · rintro ⟨hnew, hentry⟩
    obtain ⟨e, he, heq⟩ := getElem?_modify_eq_some hentry
    by_cases hij : i = j
    · rw [if_pos hij] at heq
      exact absurd (Prod.mk.inj heq).2.symm hst
    · rw [if_neg hij] at heq
      exact ⟨⟨hnew, heq ▸ he⟩, Ne.symm hij⟩
  · rintro ⟨⟨hnew, hentry⟩, hne⟩
    refine ⟨hnew, ?_⟩
    rw [getElem?_modify_of_eq_some hentry, if_neg hne.symm]

theorem detachSender_live_iff (h : s.Live) (hstep : s.step contentHash (.detachSender i) = some t) :
    t.Live ↔ s.Considerate (.detachSender i) := by
  simp only [step] at hstep
  split at hstep
  · next peer hi =>
    cases hstep
    constructor
    · intro hlive e he j hj
      obtain rfl := mem_unique hi he
      by_contra hne
      have hsndr := (hlive peer j ((mem_current_of_modify (by simp)).mpr ⟨hj, hne⟩)).1
      change update s.system.manager.sessions peer none peer = some j at hsndr
      rw [update_self] at hsndr
      cases hsndr
    · intro hok p j hj
      obtain ⟨hold, hne⟩ := (mem_current_of_modify (by simp)).mp hj
      have hp : p ≠ peer := by
        rintro rfl
        exact hne (hok _ hi j hold)
      obtain ⟨hsndr, hheld⟩ := h p j hold
      exact ⟨(update_of_ne hp _ _).trans hsndr, hheld⟩
  · cases hstep

theorem detachPending_live_iff (h : s.Live)
    (hstep : s.step contentHash (.detachPending i) = some t) :
    t.Live ↔ s.Considerate (.detachPending i) := by
  simp only [step] at hstep
  split at hstep
  · next peer hi =>
    cases hstep
    have hne {p : Peer} {j : Nat} (hj : j ∈ s.current p) : j ≠ i := by
      rintro rfl
      have hentry := (mem_current.mp hj).2
      rw [hi] at hentry
      cases (Prod.mk.inj (some.inj hentry)).2
    constructor
    · intro hlive e he j hj c hc hfrom
      obtain rfl := mem_unique hi he
      have hclip := (hlive peer j ((mem_current_of_modify (by simp)).mpr ⟨hj, hne hj⟩)).2 c hc hfrom
      change update s.system.manager.pending peer none peer = some c.2 at hclip
      rw [update_self] at hclip
      cases hclip
    · intro hok p j hj
      obtain ⟨hold, -⟩ := (mem_current_of_modify (by simp)).mp hj
      obtain ⟨hsndr, hheld⟩ := h p j hold
      refine ⟨hsndr, ?_⟩
      intro c hc hfrom
      have hp : p ≠ peer := by
        rintro rfl
        exact hok _ hi j hold c hc hfrom
      exact (update_of_ne hp _ _).trans (hheld c hc hfrom)
  · cases hstep

theorem detachResults_live (h : s.Live) (hstep : s.step contentHash (.detachResults i) = some t) :
    t.Live := by
  simp only [step] at hstep
  split at hstep
  · cases hstep
    intro p j hj
    obtain ⟨hold, -⟩ := (mem_current_of_modify (by simp)).mp hj
    exact h p j hold
  · cases hstep

theorem pendingClips_live (h : s.Live) (hstep : s.step contentHash .pendingClips = some t) :
    t.Live := by
  cases hstep
  intro p j hj
  obtain ⟨hsndr, hheld⟩ := h p j hj
  refine ⟨hsndr, ?_⟩
  intro c hc hfrom
  obtain ⟨hc, hfresh⟩ := mem_filter_iff.mp hc
  show (s.system.manager.pending p).filter _ = some c.2
  rw [hheld c hc hfrom]
  exact filter_some_pos hfresh

theorem act_live (h : s.Live) {a} (hstep : s.step contentHash (.act a) = some t) : t.Live := by
  simp only [step] at hstep
  split at hstep
  · cases hstep
  · cases hstep
  · cases hstep
  · next peer =>
    obtain ⟨system, hsystem, rfl⟩ := map_eq_some_iff.mp hstep
    obtain ⟨hsend, hpend⟩ := applyPending_frame hsystem
    refine h.keep rfl rfl hsend ?_
    intro p c hc
    change c ∈ (if (s.system.policyFor peer).allowReceive then update s.held peer none
      else s.held) p at hc
    rw [hpend]
    split at hc
    · next hrec =>
      by_cases hp : p = peer
      · rw [hp, update_self] at hc
        cases hc
      · rw [update_of_ne hp] at hc
        rw [if_pos hrec, update_of_ne hp]
        exact .inr ⟨hc, rfl⟩
    · next hrec =>
      rw [if_neg hrec]
      exact .inr ⟨hc, rfl⟩
  · next index ok =>
    obtain ⟨system, hsystem, rfl⟩ := map_eq_some_iff.mp hstep
    obtain ⟨hsend, hpend⟩ := finishWrite_frame hsystem
    refine h.keep rfl rfl hsend ?_
    intro p c hc
    rw [hpend]
    cases ok with
    | true => exact .inr ⟨hc, rfl⟩
    | false =>
      simp only [Bool.false_eq_true, if_false, putBack] at hc
      generalize (s.system.applying[index]?).bind Applying.held = back at hc ⊢
      cases back with
      | none => exact .inr ⟨hc, rfl⟩
      | some back =>
        dsimp only at hc ⊢
        by_cases hp : p = back.1
        · subst hp
          rw [update_self] at hc ⊢
          obtain ⟨i, -, rfl⟩ := map_eq_some_iff.mp hc
          exact .inl rfl
        · rw [update_of_ne hp] at hc ⊢
          exact .inr ⟨hc, rfl⟩
  · obtain ⟨_, hsystem, rfl⟩ := map_eq_some_iff.mp hstep
    have hquiet : quiet a := by cases a <;> simp_all [quiet]
    obtain ⟨hsend, hpend⟩ := quiet_frame hquiet hsystem
    refine h.keep rfl rfl hsend (fun p c hc => .inr ⟨hc, ?_⟩)
    exact congrFun hpend p

theorem putBack_named (hnam : s.Named) (index : Nat) (peer) :
    ∀ h ∈ s.putBack index peer, h.1 < s.sessions.length := by
  unfold putBack
  generalize (s.system.applying[index]?).bind Applying.held = back
  cases back with
  | none => exact hnam.held peer
  | some back =>
    dsimp only
    by_cases hp : peer = back.1
    · subst hp
      rw [update_self]
      intro h hh
      obtain ⟨i, hi, rfl⟩ := map_eq_some_iff.mp hh
      have horig : s.origins[index]? = some (some i) := join_eq_some_iff.mp hi
      exact hnam.origins _ (mem_of_getElem? horig) i rfl
    · rw [update_of_ne hp]
      exact hnam.held peer

variable {a : Move Peer}

theorem step_named (hnam : s.Named) (hstep : s.step contentHash a = some t) : t.Named := by
  have hgrow (o : List (Option Nat)) (n : Nat) (b : Option Nat)
      (ho : ∀ c ∈ o, ∀ i ∈ c, i < s.sessions.length) (hb : ∀ i ∈ b, i < s.sessions.length) :
      ∀ c ∈ o ++ replicate n b, ∀ i ∈ c, i < s.sessions.length := by
    intro c hc
    rcases mem_append.mp hc with hold | hnew
    · exact ho c hold
    · rw [eq_of_mem_replicate hnew]
      exact hb
  cases a with
  | connect =>
    cases hstep
    constructor
    · intro p h hh
      have hlt := hnam.held p h hh
      simp only [length_append, length_singleton]
      omega
    · intro o ho i hi
      have hlt := hnam.origins o ho i hi
      simp only [length_append, length_singleton]
      omega
  | message i peerDeviceId update =>
    simp only [step] at hstep
    split at hstep
    · next peer hi =>
      obtain ⟨_, -, rfl⟩ := map_eq_some_iff.mp hstep
      refine ⟨?_, hgrow _ _ _ hnam.origins (by simp)⟩
      intro p h hh
      change h ∈ Function.update s.held peer
        (s.heldAfter contentHash i peer peerDeviceId update) p at hh
      by_cases hp : p = peer
      · rw [hp, update_self] at hh
        unfold heldAfter at hh
        split at hh
        · obtain ⟨_, -, rfl⟩ := map_eq_some_iff.mp hh
          exact (List.getElem?_eq_some_iff.mp hi).1
        · exact hnam.held peer h hh
      · rw [update_of_ne hp] at hh
        exact hnam.held p h hh
    · cases hstep
  | detachSender i | detachPending i | detachResults i =>
    simp only [step] at hstep
    split at hstep
    · cases hstep
      refine ⟨fun p h hh => ?_, fun o ho i hi => ?_⟩
      · rw [length_modify]
        exact hnam.held p h hh
      · rw [length_modify]
        exact hnam.origins o ho i hi
    · cases hstep
  | pendingClips =>
    cases hstep
    exact ⟨fun p h hh => hnam.held p h (mem_filter_iff.mp hh).1, hnam.origins⟩
  | act =>
    simp only [step] at hstep
    split at hstep
    · cases hstep
    · cases hstep
    · cases hstep
    · next peer =>
      obtain ⟨system, -, rfl⟩ := map_eq_some_iff.mp hstep
      refine ⟨?_, hgrow _ _ _ hnam.origins ?_⟩
      · intro p h hh
        change h ∈ (if (s.system.policyFor peer).allowReceive then update s.held peer none
          else s.held) p at hh
        split at hh
        · by_cases hp : p = peer
          · rw [hp, update_self] at hh
            cases hh
          · rw [update_of_ne hp] at hh
            exact hnam.held p h hh
        · exact hnam.held p h hh
      · intro i hi
        obtain ⟨h, hh, rfl⟩ := map_eq_some_iff.mp hi
        exact hnam.held peer h hh
    · next index ok =>
      obtain ⟨_, -, rfl⟩ := map_eq_some_iff.mp hstep
      refine ⟨?_, fun o ho => hnam.origins o (mem_of_mem_eraseIdx ho)⟩
      intro p h hh
      cases ok with
      | true => exact hnam.held p h hh
      | false => exact putBack_named hnam index p h hh
    · obtain ⟨_, -, rfl⟩ := map_eq_some_iff.mp hstep
      exact ⟨hnam.held, hnam.origins⟩

theorem step_live_iff (hnam : s.Named) (h : s.Live) (hstep : s.step contentHash a = some t) :
    t.Live ↔ s.Considerate a := by
  cases a with
  | connect => exact iff_of_true (connect_live h hnam hstep) trivial
  | message => exact iff_of_true (message_live h hstep) trivial
  | detachSender => exact detachSender_live_iff h hstep
  | detachPending => exact detachPending_live_iff h hstep
  | detachResults => exact iff_of_true (detachResults_live h hstep) trivial
  | pendingClips => exact iff_of_true (pendingClips_live h hstep) trivial
  | act => exact iff_of_true (act_live h hstep) trivial

def start (localDeviceId : String) (peers : List Peer) (policyFor : Peer → ClipboardPolicy) :
    Daemon Peer :=
  { system := init localDeviceId peers policyFor }

/-- Throughout a run the newest session of each peer keeps its sender and its clip
exactly where no older session's detach comes upon them. -/
theorem late_disconnect_harmless_iff (contentHash : String → Digest) (localDeviceId : String)
    (peers : List Peer) (policyFor : Peer → ClipboardPolicy) (as : List (Move Peer))
    {t : Daemon Peer}
    (hrun : run (step contentHash) (start localDeviceId peers policyFor) as = some t) :
    Always (step contentHash) Live (start localDeviceId peers policyFor) as ↔
      Meets (step contentHash) Considerate (start localDeviceId peers policyFor) as :=
  always_iff_meets (step contentHash) (fun _ _ _ hs hstep => step_named hs hstep)
    (fun _ _ _ hs hp hstep => step_live_iff hs hp hstep) hrun
    ⟨fun _ _ hh => absurd hh nofun, nofun⟩ (fun _ _ hi => absurd hi nofun)

def holding : Daemon Nat := start "desk" [] (fun _ => {})

def sampleUpdate : ClipboardUpdate := ⟨replicate 16 0, "", "text", [], false⟩

/-- The old session has let go of the sender and the clip when the new one attaches. -/
def promptReconnect : List (Move Nat) :=
  [.connect 0, .detachSender 0, .detachPending 0, .connect 0, .message 1 "phone" sampleUpdate,
    .detachResults 0]

theorem late_disconnect_harmless_prompt_reconnect :
    ∃ t, run (step (fun _ => [])) holding promptReconnect = some t ∧ t.current 0 = some 1 ∧
      (t.held 0).isSome ∧ Always (step (fun _ => [])) Live holding promptReconnect :=
  ⟨_, rfl, by decide, by decide,
    (late_disconnect_harmless_iff (fun _ => []) "desk" [] (fun _ => {}) promptReconnect rfl).mpr
    (by decide)⟩

/-- The phone reconnects and sends a clip before the old session's loop ends. -/
def lateDisconnect : List (Move Nat) :=
  [.connect 0, .connect 0, .message 1 "phone" sampleUpdate, .detachSender 0, .detachPending 0]

theorem late_disconnect_takes_sender_and_clip :
    ∃ t, run (step (fun _ => [])) holding lateDisconnect = some t ∧ t.current 0 = some 1 ∧
      t.system.manager.sessions 0 = none ∧ (t.held 0).map Prod.fst = some 1 ∧
      t.system.manager.pending 0 = none ∧
      ¬Always (step (fun _ => [])) Live holding lateDisconnect := by
  refine ⟨_, rfl, by decide, by decide, by decide, by decide, ?_⟩
  intro h
  have hsndr := (h.last _ rfl 0 1 (by decide)).1
  exact absurd hsndr (by decide)

end Daemon

end OmniBridge.Clipboard
