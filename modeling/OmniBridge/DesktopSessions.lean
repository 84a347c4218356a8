import OmniBridge.DesktopTrust

/-! What a step of the daemon does to connections, to the map of sessions and to the
outstanding reconnect requests, said once for every invariant about them. -/

namespace OmniBridge.Desktop

open List Option Phase Function

variable {Fp ε : Type} [LinearOrder Fp]

def Phase.isOver : Phase → Bool
  | .ending _ | .closed => true
  | _ => false

inductive Connection.Moves (x : Config Fp ε) (s : Daemon Fp) (a : Action Fp ε) (j : Nat)
    (c : Connection Fp) : Phase → Prop
  | stays : Moves x s a j c c.phase
  | admitted (deviceId deviceName : String) (granted : List String) : c.phase = .accepted →
    a = .lookup j → s.store.lookupPeer c.fingerprint = .trusted deviceId deviceName granted →
    Moves x s a j c (.admitted (Daemon.effective (x.negotiate c.advertised) granted))
  | refused : c.phase = .accepted → Moves x s a j c .pairing
  | stored : c.phase = .pairing → s.pairs a = some (c.fingerprint, .ok ()) → Moves x s a j c .stored
  | reread (deviceId deviceName : String) (granted : List String) : c.phase = .stored →
    a = .reread j → s.store.lookupPeer c.fingerprint = .trusted deviceId deviceName granted →
    Moves x s a j c (.connecting (Daemon.effective (x.negotiate c.advertised) granted))
  | unread : c.phase = .stored → a = .reread j → ¬ s.Trusts c.fingerprint →
    Moves x s a j c (.connecting [])
  | connecting (negotiated : List String) : c.phase = .admitted negotiated →
    Moves x s a j c (.connecting negotiated)
  | registering (negotiated : List String) : c.phase = .connecting negotiated →
      Moves x s a j c (.registering negotiated)
  | running (negotiated : List String) : c.phase = .registering negotiated → a = .register j →
      Moves x s a j c (.running negotiated)
  | ending (negotiated : List String) : c.phase = .running negotiated →
    Moves x s a j c (.ending negotiated)
  | failed : c.phase.isHandshake → Moves x s a j c .closed
  | closed (negotiated : List String) : c.phase = .ending negotiated → a = .unregister j →
    Moves x s a j c .closed

namespace Connection.Moves

variable {x : Config Fp ε} {s : Daemon Fp} {a : Action Fp ε} {j : Nat} {c : Connection Fp}
  {phase : Phase} {negotiated : List String}

theorem of_running (hrunn : c.phase = .running negotiated) (h : c.Moves x s a j phase) :
    phase = .running negotiated ∨ phase = .ending negotiated := by
  cases h with
  | stays => exact .inl hrunn
  | ending n hn => exact .inr (by rw [hrunn] at hn; cases hn; rfl)
  | failed hfail => simp [hrunn, isHandshake] at hfail
  | _ => simp_all

theorem of_ending (hend : c.phase = .ending negotiated) (h : c.Moves x s a j phase) :
    phase = .ending negotiated ∨ a = .unregister j := by
  cases h with
  | stays => exact .inl hend
  | closed n _ ha => exact .inr ha
  | failed hfail => simp [hend, isHandshake] at hfail
  | _ => simp_all

theorem of_over (hover : c.phase.isOver) (h : c.Moves x s a j phase) : phase.isOver := by
  cases h with
  | stays => exact hover
  | failed => cases hph : c.phase <;> simp_all [isOver, isHandshake]
  | _ => simp_all [isOver]

theorem to_running (h : c.Moves x s a j (.running negotiated)) :
    c.phase = .running negotiated ∨ c.phase = .registering negotiated ∧ a = .register j := by
  generalize hrunn : Phase.running negotiated = phase at h
  cases h with
  | stays => exact .inl rfl
  | running n hn ha =>
    cases hrunn
    exact .inr ⟨hn, ha⟩
  | _ => cases hrunn

end Connection.Moves

structure Connection.Evolves (x : Config Fp ε) (s : Daemon Fp) (a : Action Fp ε) (j : Nat)
    (c c' : Connection Fp) : Prop where
  fingerprint : c'.fingerprint = c.fingerprint
  advertised : c'.advertised = c.advertised
  asked : c.asked → c'.asked
  phase : c.Moves x s a j c'.phase

namespace Daemon

variable {x : Config Fp ε} {s t : Daemon Fp} {a : Action Fp ε} {j : Nat} {c : Connection Fp}

theorem Evolves.of_setPhase {i j : Nat} {b c : Connection Fp} {phase}
    (hi : s.connections[i]? = some b) (hmoves : b.Moves x s a i phase)
    (ht : t.connections = s.connections) (hc : s.connections[j]? = some c) :
    ∃ c', (t.setPhase i phase).connections[j]? = some c' ∧ c.Evolves x s a j c' := by
  rw [setPhase, ht]
  refine ⟨_, getElem?_modify_of_eq_some hc i _, ?_⟩
  split
  · rename_i hij
    subst hij
    obtain rfl := mem_unique hi hc
    exact ⟨rfl, rfl, id, hmoves⟩
  · exact ⟨rfl, rfl, id, .stays⟩

theorem Evolves.shutdown {i j : Nat} {c c' : Connection Fp} (hc : t.connections[j]? = some c')
    (h : c.Evolves x s a j c') :
    ∃ c'', (t.shutdown i).connections[j]? = some c'' ∧ c.Evolves x s a j c'' := by
  refine ⟨_, getElem?_modify_of_eq_some hc i _, ?_⟩
  split
  · exact ⟨h.fingerprint, h.advertised, fun _ => rfl, h.phase⟩
  · exact h

variable {i : Nat}

theorem handles_evolves {r r' : Request Fp} {write : Except ε Unit} {u}
    (h : r.Handles x s write u r') (hc : s.connections[j]? = some c) :
    ∃ c', u.connections[j]? = some c' ∧ c.Evolves x s (.proceed i write) j c' := by
  have hstays : c.Evolves x s (.proceed i write) j c := ⟨rfl, rfl, id, .stays⟩
  cases h with
  | shutdown => exact Evolves.shutdown hc hstays
  | reconnected _ _ _ id =>
    exact @Evolves.shutdown _ _ _ x s { s with requested := _ } _ id j c c hc hstays
  | _ => exact ⟨c, hc, hstays⟩

theorem step_evolves (h : s.step x a = some t) (hc : s.connections[j]? = some c) :
    ∃ c', t.connections[j]? = some c' ∧ c.Evolves x s a j c' := by
  cases step_cases h with
  | accept => exact ⟨c, getElem?_concat_of_eq_some hc _, rfl, rfl, id, .stays⟩
  | lookup i b hb hph =>
    unfold lookup
    split
    · exact Evolves.of_setPhase hb (.admitted _ _ _ hph rfl ‹_›) rfl hc
    all_goals exact Evolves.of_setPhase hb (.refused hph) rfl hc
  | abandon i b hb hph => exact Evolves.of_setPhase hb (.failed hph) rfl hc
  | storePeer i b time write hb hph =>
    cases write with
    | ok =>
      have hpairs : s.pairs (.storePeer i time (.ok ()) : Action Fp ε) = some (b.fingerprint,
          .ok ()) := by
        simp [pairs, hb]
      exact @Evolves.of_setPhase _ _ _ x s { s with store := _, pairings := _ } _ i j b c _ hb
        (.stored hph hpairs) rfl hc
    | error =>
      exact @Evolves.of_setPhase _ _ _ x s { s with store := _ } _ i j b c _ hb
        (.failed (by simp [hph, isHandshake])) rfl hc
  | reread i b hb hph =>
    unfold reread
    split
    · exact Evolves.of_setPhase hb (.reread _ _ _ hph rfl ‹_›) rfl hc
    all_goals exact Evolves.of_setPhase hb (.unread hph rfl (by simp [Trusts, *])) rfl hc
  | establish i b _ hb hph => exact Evolves.of_setPhase hb (.connecting _ hph) rfl hc
  | clear i b _ hb hph =>
    exact @Evolves.of_setPhase _ _ _ x s { s with requested := _ } _ i j b c _ hb
      (.registering _ hph) rfl hc
  | register i b negotiated hb hph =>
    obtain ⟨c', hc', hev⟩ := @Evolves.of_setPhase _ _ _ x s { s with sessions := _ } _ i j b c _ hb
      (.running negotiated hph rfl) rfl hc
    unfold register shutdownAny
    cases s.sessions b.fingerprint with
    | none => exact ⟨c', hc', hev⟩
    | some => exact Evolves.shutdown hc' hev
  | finish i b _ hb hph => exact Evolves.of_setPhase hb (.ending _ hph) rfl hc
  | unregister i b _ hb hph =>
    refine Evolves.of_setPhase hb (.closed _ hph rfl) ?_ hc
    split <;> rfl
  | request => exact ⟨c, hc, rfl, rfl, id, .stays⟩
  | proceed i r _ u _ _ hh =>
    obtain ⟨c', hc', hev⟩ := handles_evolves hh hc
    exact ⟨c', hc', hev⟩

theorem step_connection {c'} (h : s.step x a = some t) (hc' : t.connections[j]? = some c') :
    c'.phase = .accepted ∨ ∃ c, s.connections[j]? = some c ∧ c.Evolves x s a j c' := by
  cases hc : s.connections[j]? with
  | some c =>
    obtain ⟨d, hd, hev⟩ := step_evolves h hc
    obtain rfl := mem_unique hd hc'
    exact .inr ⟨c, rfl, hev⟩
  | none =>
    left
    have hlen : s.connections.length ≤ j := getElem?_eq_none_iff.mp hc
    have habs : t.connections[j]? = none → c'.phase = .accepted := fun hnone => by
      rw [hnone] at hc'
      cases hc'
    cases step_cases h with
    | accept =>
      rcases getElem?_concat_eq_some hc' with hold | ⟨-, rfl⟩
      · rw [hc] at hold
        cases hold
      · rfl
    | lookup i b =>
      obtain ⟨_, hu⟩ := lookup_eq x i b s
      exact habs (by simp [hu, setPhase, hlen])
    | abandon | establish | clear | finish => exact habs (by simp [setPhase, hlen])
    | storePeer i b time write =>
      obtain ⟨_, _, _, hu⟩ := storePeer_eq x i b s time write
      exact habs (by simp [hu, setPhase, hlen])
    | reread i b =>
      obtain ⟨_, hu⟩ := reread_eq x i b s
      exact habs (by simp [hu, setPhase, hlen])
    | register =>
      exact habs (by unfold register shutdownAny; split <;> simp [setPhase, shutdown, hlen])
    | unregister i b =>
      obtain ⟨_, hu⟩ := unregister_eq i s b.fingerprint
      exact habs (by simp [hu, setPhase, hlen])
    | request => exact habs hc
    | proceed i r _ u _ _ hh => exact habs (by cases hh <;> simp [shutdown, hlen])

inductive Registers (s : Daemon Fp) (a : Action Fp ε) (t : Daemon Fp) (fp : Fp) : Prop
  | kept : t.sessions fp = s.sessions fp → (∀ i c, s.connections[i]? = some c → c.fingerprint = fp →
      a ≠ .register i ∧ (a = .unregister i → s.sessions fp ≠ some i)) → Registers s a t fp
  | registered (i : Nat) (c : Connection Fp) (negotiated : List String) : a = .register i →
      s.connections[i]? = some c → c.fingerprint = fp → c.phase = .registering negotiated →
      t.sessions fp = some i → (∃ c', t.connections[i]? = some c' ∧ c'.fingerprint = fp ∧
      c'.phase = .running negotiated) →
      (∀ old, s.sessions fp = some old → ∀ c', t.connections[old]? = some c' → c'.asked) →
      Registers s a t fp
  | removed (i : Nat) (c : Connection Fp) (negotiated : List String) : a = .unregister i →
      s.connections[i]? = some c → c.phase = .ending negotiated → s.sessions fp = some i →
      t.sessions fp = none → Registers s a t fp
  | dropped (i : Nat) (r : Request Fp) (write : Except ε Unit) (rest : List Fp)
    (response : Response) : a = .proceed i write → s.requests[i]? = some r →
    r.stage = .enforcing fp rest .drop response → t.sessions fp = none → Registers s a t fp

@[simp] theorem setPhase_sessions (i : Nat) (phase : Phase) (s : Daemon Fp) :
    (s.setPhase i phase).sessions = s.sessions := rfl

theorem shutdown_asked (h : (s.shutdown i).connections[i]? = some c) : c.asked := by
  obtain ⟨b, -, rfl⟩ := getElem?_modify_eq_some h
  rw [if_pos rfl]

theorem step_registers (fp : Fp) (h : s.step x a = some t) : Registers s a t fp := by
  cases step_cases h with
  | accept | abandon | establish | clear | finish | request =>
    exact .kept rfl (fun _ _ _ _ => ⟨nofun, nofun⟩)
  | lookup i c =>
    obtain ⟨_, hu⟩ := lookup_eq x i c s
    exact .kept (by rw [hu]; rfl) (fun _ _ _ _ => ⟨nofun, nofun⟩)
  | storePeer i c time write =>
    obtain ⟨_, _, _, hu⟩ := storePeer_eq x i c s time write
    exact .kept (by rw [hu]; rfl) (fun _ _ _ _ => ⟨nofun, nofun⟩)
  | reread i c =>
    obtain ⟨_, hu⟩ := reread_eq x i c s
    exact .kept (by rw [hu]; rfl) (fun _ _ _ _ => ⟨nofun, nofun⟩)
  | register i c negotiated hc hph =>
    obtain ⟨_, hu⟩ := register_eq i s c.fingerprint negotiated
    by_cases hfp : fp = c.fingerprint
    · subst hfp
      refine .registered i c negotiated rfl hc rfl hph ?_ (register_running hc negotiated) ?_
      · simp [hu]
      · intro _ hold _ hc'
        rw [register, hold] at hc'
        exact shutdown_asked hc'
    · refine .kept (by simp [hu, update_of_ne hfp]) (fun k b hb hbfp => ⟨?_, nofun⟩)
      rintro heq
      obtain rfl := Action.register.inj heq
      obtain rfl := mem_unique hc hb
      exact hfp hbfp.symm
  | unregister i c negotiated hc hph =>
    by_cases hreg : s.sessions c.fingerprint = some i
    · by_cases hfp : fp = c.fingerprint
      · subst hfp
        exact .removed i c negotiated rfl hc hph hreg (by simp [unregister, hreg])
      refine .kept (by simp [unregister, hreg, update_of_ne hfp]) (fun k b hb hbfp => ⟨nofun, ?_⟩)
      intro heq
      obtain rfl := Action.unregister.inj heq
      obtain rfl := mem_unique hc hb
      exact absurd hbfp.symm hfp
    · refine .kept (by simp [unregister, hreg]) (fun k b hb hbfp => ⟨nofun, ?_⟩)
      intro heq
      obtain rfl := Action.unregister.inj heq
      obtain rfl := mem_unique hc hb
      exact hbfp ▸ hreg
  | proceed i r write u _ hr hh =>
    cases hh with
    | dropped l rest response hst =>
      by_cases hfp : fp = l
      · subst hfp
        exact .dropped i r write rest response rfl hr hst (by simp)
      · exact .kept (by simp [update_of_ne hfp]) (fun _ _ _ _ => ⟨nofun, nofun⟩)
    | _ => exact .kept rfl (fun _ _ _ _ => ⟨nofun, nofun⟩)

theorem step_requested (fp : Fp) (h : s.step x a = some t) :
    t.requested fp = s.requested fp ∨ t.requested fp = none ∨ ∃ i r write id negotiated,
      a = .proceed i write ∧ s.requests[i]? = some r ∧
      r.stage = .deciding fp (some (id, negotiated)) ∧ t.requested fp = some id ∧
      ∀ c, t.connections[id]? = some c → c.asked := by
  have hupd : ∀ l v, fp ≠ l → update s.requested l v fp = s.requested fp :=
    fun l v hne => update_of_ne hne v s.requested
  cases step_cases h with
  | accept | abandon | establish | finish | request => exact .inl rfl
  | lookup i c =>
    obtain ⟨_, hu⟩ := lookup_eq x i c s
    exact .inl (by rw [hu]; rfl)
  | storePeer i c time write =>
    obtain ⟨_, _, _, hu⟩ := storePeer_eq x i c s time write
    exact .inl (by rw [hu]; rfl)
  | reread i c =>
    obtain ⟨_, hu⟩ := reread_eq x i c s
    exact .inl (by rw [hu]; rfl)
  | clear i c =>
    by_cases hfp : fp = c.fingerprint
    · exact .inr (.inl (by simp [setPhase, hfp]))
    · exact .inl (hupd _ _ hfp)
  | register i c negotiated =>
    obtain ⟨_, hu⟩ := register_eq i s c.fingerprint negotiated
    exact .inl (by rw [hu])
  | unregister i c =>
    obtain ⟨_, hu⟩ := unregister_eq i s c.fingerprint
    exact .inl (by rw [hu]; rfl)
  | proceed i r write u _ hr hh =>
    cases hh with
    | cleared l | next l =>
      by_cases hfp : fp = l
      · exact .inr (.inl (by simp [hfp]))
      · exact .inl (hupd _ _ hfp)
    | reconnected _ l _ id negotiated _ _ hst =>
      by_cases hfp : fp = l
      · subst hfp
        refine .inr (.inr ⟨i, r, write, id, negotiated, rfl, hr, hst, ?_, fun c hc =>
          shutdown_asked hc⟩)
        simp [shutdown]
      · exact .inl (hupd _ _ hfp)
    | _ => exact .inl rfl

theorem step_request {r'} (h : s.step x a = some t) (hr' : r' ∈ t.requests) :
    r' ∈ s.requests ∨ (∃ command, r' = ⟨command, .started, 0⟩) ∨ ∃ i r write u,
      a = .proceed i write ∧ s.requests[i]? = some r ∧ r.Handles x s write u r' ∧
      t = { u with requests := s.requests.set i r' } := by
  rcases step_requests h with ⟨hsame, -⟩ | ⟨command, -, hnew⟩
    | ⟨i, r, write, u, q, rfl, hr, hh, rfl⟩
  · exact .inl (hsame ▸ hr')
  · rw [hnew] at hr'
    rcases mem_append.mp hr' with hr' | hr'
    · exact .inl hr'
    · exact .inr (.inl ⟨command, mem_singleton.mp hr'⟩)
  · rcases mem_or_eq_of_mem_set hr' with hr' | rfl
    · exact .inl hr'
    · exact .inr (.inr ⟨i, r, write, u, rfl, hr, hh, rfl⟩)

theorem step_request_of_mem {r} (h : s.step x a = some t) (hr : r ∈ s.requests) :
    r ∈ t.requests ∨ ∃ i write u r', a = .proceed i write ∧ s.requests[i]? = some r ∧
      r.Handles x s write u r' ∧ t = { u with requests := s.requests.set i r' } ∧
      r' ∈ t.requests := by
  rcases step_requests h with ⟨hsame, -⟩ | ⟨_, -, hnew⟩ | ⟨i, q, write, u, q', rfl, hq, hh, rfl⟩
  · exact .inl (hsame ▸ hr)
  · left
    rw [hnew]
    exact mem_append_left _ hr
  obtain ⟨k, hk⟩ := mem_iff_getElem?.mp hr
  by_cases hki : i = k
  · subst hki
    obtain rfl := mem_unique hq hk
    have hlt := (List.getElem?_eq_some_iff.mp hq).1
    exact .inr ⟨i, write, u, q', rfl, hq, hh, rfl, mem_set hlt q'⟩
  · have hkept : (s.requests.set i q')[k]? = some r := by rw [getElem?_set_ne hki, hk]
    exact .inl (mem_iff_getElem?.mpr ⟨k, hkept⟩)

def Mapped (s : Daemon Fp) : Prop :=
  ∀ fp j, s.sessions fp = some j → ∃ c negotiated, s.connections[j]? = some c ∧ c.fingerprint = fp ∧
    (c.phase = .running negotiated ∨ c.phase = .ending negotiated)

theorem step_mapped (h : s.step x a = some t) (hs : s.Mapped) : t.Mapped := by
  intro fp j hj
  cases step_registers fp h with
  | kept hsame hkeep =>
    have hold := hsame ▸ hj
    obtain ⟨c, negotiated, hc, hfp, hph⟩ := hs fp j hold
    obtain ⟨c', hc', hev⟩ := step_evolves h hc
    refine ⟨c', negotiated, hc', hev.fingerprint.trans hfp, ?_⟩
    rcases hph with hrunn | hend
    · exact hev.phase.of_running hrunn
    · right
      exact (hev.phase.of_ending hend).resolve_right (fun ha => (hkeep j c hc hfp).2 ha hold)
  | registered i c negotiated _ _ _ _ hreg hruns =>
    obtain rfl := mem_unique hreg hj
    obtain ⟨c', hc', hfp', hrunn⟩ := hruns
    exact ⟨c', negotiated, hc', hfp', .inl hrunn⟩
  | removed _ _ _ _ _ _ _ hnone | dropped _ _ _ _ _ _ _ _ hnone =>
    rw [hnone] at hj
    cases hj

def starting (store : Store Fp) : Daemon Fp := { store := store }

def connected : List (Action Nat Unit) := pairing ++ [Action.reread 0, Action.clear 0, .register 0]

end Daemon

end OmniBridge.Desktop
