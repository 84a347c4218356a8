import OmniBridge.DesktopSession

/-! A session is a connection of the daemon: it is registered when it is established,
ends when its loop is left and is unregistered when the host is told. -/

namespace OmniBridge.Desktop

namespace Session

variable {Fp ε : Type} {x : Host Fp ε} {e : Established Fp} {s t : Session ε} {a : Action ε}

def Dispatch.phase (negotiated : List String) : Dispatch ε → Phase
  | .connecting _ | .greeting _ _ => .connecting negotiated
  | .selecting _ | .sending _ _ | .handling _ => .running negotiated
  | .disconnecting _ _ => .ending negotiated
  | .draining _ | .returned _ _ | .panicked => .closed

inductive Advances (negotiated : List String) : Phase → Phase → Prop
  | same (phase : Phase) : Advances negotiated phase phase
  | established : Advances negotiated (.connecting negotiated) (.running negotiated)
  | left : Advances negotiated (.running negotiated) (.ending negotiated)
  | closed : Advances negotiated (.ending negotiated) .closed

variable {d : Dispatch ε}

theorem Dispatch.phase_of_loop (negotiated) (h : d.isLoop) :
    d.phase negotiated = .running negotiated := by
  cases d with
  | selecting | sending | handling => rfl
  | _ => cases h

theorem Dispatch.phase_of_in (negotiated) (hin : d.isLeaving = false) :
    d.phase negotiated = if d.isLoop then .running negotiated else .connecting negotiated := by
  cases d with
  | connecting | greeting | selecting | sending | handling => rfl
  | _ => cases hin

open Dispatch

theorem reacts_advances (hloop : s.dispatch.isLoop) (h : Reacts e s t) :
    Advances e.negotiatedCapabilities (s.dispatch.phase e.negotiatedCapabilities)
      (t.dispatch.phase e.negotiatedCapabilities) := by
  rw [phase_of_loop _ hloop]
  cases h with
  | stays _ _ _ _ d hd =>
    rw [phase_of_loop _ hd]
    exact .same _
  | leaves => exact .left

theorem step_advances (h : s.step x e a = some t) :
    Advances e.negotiatedCapabilities (s.dispatch.phase e.negotiatedCapabilities)
      (t.dispatch.phase e.negotiatedCapabilities) := by
  cases step_cases h with
  | connected _ _ _ hdisp | pushedRequest _ _ _ _ hdisp | disconnected _ _ _ hdisp
  | panicked _ hdisp | drained _ _ hdisp | expired _ hdisp =>
    rw [hdisp]
    exact .same _
  | established _ hdisp =>
    rw [hdisp]
    exact .established
  | received _ _ _ _ q t hdisp _ hreact =>
    have hloop : s.dispatch.isLoop := by rw [hdisp]; rfl
    exact @reacts_advances _ _ e { s with inbound := q, sinceShutdown := _ } t hloop hreact
  | commanded _ _ _ c q t hdisp _ hreact =>
    have hloop : s.dispatch.isLoop := by rw [hdisp]; rfl
    exact @reacts_advances _ _ e { s with commands := q } t hloop hreact
  | ticked _ t hdisp hreact =>
    have hloop : s.dispatch.isLoop := by rw [hdisp]; rfl
    exact reacts_advances hloop hreact
  | ended a hloop =>
    rw [phase_of_loop _ hloop]
    exact .left
  | joined _ _ _ _ hdisp =>
    rw [hdisp]
    exact .left
  | moved a d hin hd hloop =>
    change Advances _ _ (d.phase e.negotiatedCapabilities)
    rw [phase_of_in _ hin, phase_of_in _ hd, hloop]
    exact .same _
  | pushedMessage m d q hsends =>
    obtain ⟨hin, -, hd, hloop⟩ := hsends.place
    rw [phase_of_in _ hin, phase_of_in _ hd, hloop]
    exact .same _
  | closed _ hdisp =>
    rw [hdisp]
    exact .closed
  | _ => exact .same _

variable [LinearOrder Fp]

def Tracks (e : Established Fp) (i : Nat) (s : Session ε) (d : Daemon Fp) : Prop :=
  ∃ b, d.connections[i]? = some b ∧ b.fingerprint = e.peer ∧
    b.phase = s.dispatch.phase e.negotiatedCapabilities

theorem step_follows {i d} (h : s.step x e a = some t) (hd : s.Tracks e i d) :
    ∃ bs d', run (Daemon.step x.config) d bs = some d' ∧ t.Tracks e i d' := by
  obtain ⟨b, hb, hpeer, hph⟩ := hd
  have hadv := step_advances h
  unfold Tracks
  rw [← hph] at hadv
  generalize hnext : t.dispatch.phase e.negotiatedCapabilities = next at hadv
  generalize hnow : b.phase = now at hadv
  cases hadv with
  | same => exact ⟨[], d, rfl, b, hb, hpeer, hnow⟩
  | established =>
    have hclear : ({ d with requested := Function.update d.requested b.fingerprint none }.setPhase
      i (.registering e.negotiatedCapabilities)).connections[i]? = some { b with
      phase := .registering e.negotiatedCapabilities } := Daemon.setPhase_self hb _
    obtain ⟨b', hb', hpeer', hrunn⟩ := Daemon.register_running hclear e.negotiatedCapabilities
    refine ⟨[.clear i, .register i], _, ?_, b', hb', hpeer'.trans hpeer, hrunn⟩
    simp [run, Daemon.step, Daemon.onConnection, Daemon.setPhase, hb, hnow]
  | left =>
    refine ⟨[.finish i], d.setPhase i (.ending e.negotiatedCapabilities), ?_, ?_⟩
    · simp [run, Daemon.step, Daemon.onConnection, hb, hnow]
    · exact ⟨_, Daemon.setPhase_self hb _, hpeer, rfl⟩
  | closed =>
    refine ⟨[.unregister i], d.unregister i b.fingerprint, ?_, ?_⟩
    · simp [run, Daemon.step, Daemon.onConnection, hb, hnow]
    · obtain ⟨_, hu⟩ := Daemon.unregister_eq i d b.fingerprint
      rw [hu]
      exact ⟨_, Daemon.setPhase_self hb _, hpeer, rfl⟩

theorem run_follows {i d as} (hrun : run (step x e) s as = some t) (hd : s.Tracks e i d) :
    ∃ bs d', run (Daemon.step x.config) d bs = some d' ∧ t.Tracks e i d' :=
  run_simulates (step x e) (fun _ _ _ _ _ h hd => step_follows h hd) hrun
    (Meets.of_forall (step x e) (fun _ _ => trivial) s as) hd

/-- Whatever a handshake and the tasks of the session it returns do, the daemon has a run of its
own steps that brings the connection to the same place. -/
theorem lifetime_follows {c d desk h hs as}
    (hshake : run (Handshake.step x c) { store := d.store, desk := desk } hs = some h)
    (hkeep : Meets (Handshake.step x c) Handshake.KeepsStore { store := d.store, desk := desk } hs)
    (hdone : h.stage = .returned (.ok e))
    (hrun : run (step x e) (start e h.factory h.guard) as = some t) :
    ∃ bs d', run (Daemon.step x.config) d bs = some d' ∧ t.Tracks e d.connections.length d' := by
  have htracks : ({ store := d.store, desk := desk } : Handshake Fp ε).Tracks c d.connections.length
    d := ⟨rfl, rfl⟩
  obtain ⟨bs, d₁, hbs, htrack⟩ := Handshake.run_follows hshake hkeep htracks
  have hstand := htrack.standing
  rw [hdone] at hstand
  obtain ⟨b, hb, hpeer, hph⟩ := hstand
  have hsame : e.peer = c.peerFingerprint := ((Handshake.run_sound hshake).standing hdone).1
  have hstart : (start e h.factory h.guard : Session ε).Tracks e d.connections.length d₁ :=
    ⟨b, hb, hpeer.trans hsame.symm, hph⟩
  obtain ⟨cs, d₂, hcs, ht⟩ := run_follows hrun hstart
  exact ⟨bs ++ cs, d₂, (run_append (Daemon.step x.config) hbs).trans hcs, ht⟩

def livesOut : List (Action Unit) :=
  opening ++ hear 3 (.ping [9]) ++ [Action.push, .takeRequest none 5, .wrote (.ok ()),
    .command .shutdown, .poll [] none [], .poll [] none [], .teardown, .teardown, .stop, .flushed,
    .teardown]

open Handshake in
theorem lifetime_follows_closed :
    ∃ h t bs d', run (Handshake.step sampleHost phone) { store := ⟨.empty, []⟩, desk := openDesk }
      pairsAtOnce = some h ∧ run (step sampleHost phoneSession)
      (start phoneSession h.factory h.guard) livesOut = some t ∧
      t.written.map (·.body) = [.pong [9]] ∧ t.dispatch = .returned (.ok ()) (.ok ()) ∧
      run (Daemon.step sampleHost.config) Daemon.fresh bs = some d' ∧
      t.Tracks phoneSession 0 d' := by
  obtain ⟨bs, d', hbs, ht⟩ := @lifetime_follows Nat Unit sampleHost phoneSession _ _ phone
    Daemon.fresh openDesk _
    pairsAtOnce livesOut rfl (by simp [Meets, pairsAtOnce, KeepsStore]) rfl rfl
  exact ⟨_, _, bs, d', rfl, rfl, rfl, rfl, hbs, ht⟩

end Session

end OmniBridge.Desktop
