import OmniBridge.DesktopSession

/-! How a session ends. Every way out of the loop goes through one teardown: each
capability is told, then the host, and the writer is awaited. The loop's own branch on
the writer has taken its output already. -/

namespace OmniBridge.Desktop

open List Option

namespace Session

variable {Fp ε : Type} {x : Host Fp ε} {e : Established Fp} {s t : Session ε} {a : Action ε}

section

variable (s : Session ε)

def teardownCalls : List Call := s.calls.filter Call.isTeardown

def disconnects (x : Host Fp ε) (ids : List String) : List Call :=
  (ids.filter x.config.supports).map .onPeerDisconnected

def Called (x : Host Fp ε) (e : Established Fp) (s : Session ε) : Prop :=
  match s.dispatch with
  | .disconnecting rest _ =>
    ∃ told, e.negotiatedCapabilities = told ++ rest ∧ s.teardownCalls = disconnects x told
  | .draining _ | .returned _ _ | .panicked =>
    s.teardownCalls = disconnects x e.negotiatedCapabilities ++ [.onClosed]
  | _ => s.teardownCalls = []

def isEnding : Bool :=
  match s.dispatch with
  | .disconnecting _ _ | .draining _ | .panicked => true
  | _ => false

def Concluded : Prop :=
  match s.dispatch with
  | .returned loop result =>
    match loop, s.writer with
    | .ok (), .finished (.error failure) => result = .error failure
    | _, _ => result = loop
  | _ => True

def Returns (x : Host Fp ε) (e : Established Fp) (s : Session ε) : Prop :=
  ∃ as t loop result, run (step x e) s as = some t ∧ t.dispatch = .returned loop result

structure Total (x : Host Fp ε) (e : Established Fp) (s : Session ε) : Prop where
  safe : s.dispatch ≠ .panicked
  called : ∀ loop result, s.dispatch = .returned loop result →
    s.teardownCalls = disconnects x e.negotiatedCapabilities ++ [.onClosed]
  concluded : s.Concluded
  returns : s.isEnding → s.Returns x e

def joinsWriter : Bool :=
  match s.dispatch, s.writer with
  | .selecting .writer, .finished _ => true
  | _, _ => false

def hasFailure : Bool :=
  match s.dispatch, s.writer with
  | .draining (.ok ()), .finished (.error _) => true
  | _, _ => false

end

/-- The loop does not take the output of the writer, and the wait for the writer does not
end just as it fails. -/
def Unjoined (s : Session ε) : Action ε → Prop
  | .poll _ _ _ => s.joinsWriter = false
  | .expire => s.hasFailure = false
  | _ => True

instance (s : Session ε) (a : Action ε) : Decidable (s.Unjoined a) := by
  unfold Unjoined
  induction a using Action.casesOn <;> infer_instance

structure Sane (x : Host Fp ε) (e : Established Fp) (s : Session ε) : Prop where
  called : s.Called x e
  joined : s.joined → s.dispatch.isLeaving
  panicked : s.dispatch = .panicked → s.joined
  gone : ∀ loop result, s.dispatch = .returned loop result → s.writer.isGone

open Dispatch

theorem called_iff (hin : s.dispatch.isLeaving = false) : s.Called x e ↔ s.teardownCalls = [] := by
  unfold Called
  cases hdisp : s.dispatch with
  | disconnecting | draining | returned | panicked => simp [hdisp, isLeaving] at hin
  | _ => exact Iff.rfl

namespace Sane

theorem not_returned (hs : s.Sane x e) {w} (hwr : s.writer = w) (hw : w.isGone = false)
    (loop result : Except (Error ε) Unit) : s.dispatch ≠ .returned loop result := by
  intro h
  have hgone := hs.gone loop result h
  rw [hwr, hw] at hgone
  cases hgone

theorem joined_eq_false (hs : s.Sane x e) (hin : s.dispatch.isLeaving = false) :
    s.joined = false := by
  refine Bool.eq_false_iff.mpr (fun hjoin => ?_)
  have hleav := hs.joined hjoin
  rw [hin] at hleav
  cases hleav

theorem of_not_leaving (ht : t.dispatch.isLeaving = false) (hjoin : t.joined = false)
    (hcalls : t.teardownCalls = []) : t.Sane x e where
  called := (called_iff ht).mpr hcalls
  joined h := by
    rw [hjoin] at h
    cases h
  panicked h := by simp [h, isLeaving] at ht
  gone loop result h := by simp [h, isLeaving] at ht

theorem of_in (hs : s.Sane x e) (hin : s.dispatch.isLeaving = false)
    (ht : t.dispatch.isLeaving = false) (hjoin : t.joined = s.joined)
    (hcalls : t.teardownCalls = s.teardownCalls) : t.Sane x e :=
  of_not_leaving ht (hjoin.trans (hs.joined_eq_false hin))
    (hcalls.trans ((called_iff hin).mp hs.called))

variable {result : Except (Error ε) Unit}

theorem leave (hs : s.Sane x e) (hin : s.dispatch.isLeaving = false) :
    (s.enter (.disconnecting e.negotiatedCapabilities result)).Sane x e :=
  ⟨⟨[], rfl, (called_iff hin).mp hs.called⟩, fun _ => rfl, nofun, nofun⟩

theorem called_of_draining (hs : s.Sane x e) (hdisp : s.dispatch = .draining result) :
    s.teardownCalls = disconnects x e.negotiatedCapabilities ++ [.onClosed] := by
  have hcalled := hs.called
  rw [Called, hdisp] at hcalled
  exact hcalled

theorem reacts (hs : s.Sane x e) (hin : s.dispatch.isLeaving = false) (h : Reacts e s t) :
    t.Sane x e := by
  cases h with
  | stays _ _ _ _ d hd hfilter => exact hs.of_in hin (in_of_loop hd) rfl hfilter
  | leaves => exact { hs.leave hin with }

end Sane

theorem teardownCalls_append (c : Call) (h : t.calls = s.calls ++ [c]) :
    t.teardownCalls = s.teardownCalls ++ if c.isTeardown then [c] else [] := by
  unfold teardownCalls
  rw [h, filter_append]
  cases hc : c.isTeardown with
  | _ => simp [hc]

theorem disconnects_concat (told : List String) (id : String) :
    disconnects x (told ++ [id]) = disconnects x told ++ if x.config.supports
      id then [.onPeerDisconnected id] else [] := by
  unfold disconnects
  cases hid : x.config.supports id with
  | _ => simp [hid]

theorem step_sane (h : s.step x e a = some t) (hs : s.Sane x e) : t.Sane x e := by
  cases step_cases h with
  | advance | arrive | deliver | command | offer => exact { hs with }
  | connected _ id _ hdisp =>
    refine hs.of_in (in_of_eq hdisp rfl) rfl rfl ?_
    rw [teardownCalls_append (.onPeerConnected id) rfl]
    exact append_nil _
  | established _ hdisp =>
    refine hs.of_in (in_of_eq hdisp rfl) rfl rfl ?_
    rw [teardownCalls_append .onEstablished rfl]
    exact append_nil _
  | received _ _ _ _ q t hdisp _ hreact =>
    have hs' : { s with inbound := q, sinceShutdown := s.sinceShutdown.map (· + 1) }.Sane x e :=
      { hs with }
    exact hs'.reacts (in_of_eq hdisp rfl) hreact
  | commanded _ _ _ c q t hdisp _ hreact =>
    have hs' : { s with commands := q }.Sane x e := { hs with }
    exact hs'.reacts (in_of_eq hdisp rfl) hreact
  | ticked _ t hdisp hreact => exact hs.reacts (in_of_eq hdisp rfl) hreact
  | ended a hloop => exact hs.leave (in_of_loop hloop)
  | joined _ _ _ _ hdisp =>
    exact { hs.leave (in_of_eq hdisp rfl) with joined := fun _ => rfl, panicked := nofun }
  | moved a d hin hd => exact hs.of_in hin hd rfl rfl
  | pushedRequest _ _ _ q hdisp => exact hs.of_in (in_of_eq hdisp rfl) rfl rfl rfl
  | pushedMessage m d q hsends =>
    obtain ⟨hin, -, hd, -⟩ := hsends.place
    exact hs.of_in hin hd rfl rfl
  | tookRequest _ _ _ _ hwr | tookMessage _ _ _ _ hwr | wrote _ hwr | failed _ _ hwr
  | stopped hwr | flushed _ hwr =>
    exact { hs with gone := fun loop result h => absurd h (hs.not_returned hwr rfl loop result) }
  | disconnected id _ _ hdisp =>
    have hcalled := hs.called
    rw [Called, hdisp] at hcalled
    obtain ⟨told, hspl, htold⟩ := hcalled
    refine ⟨Exists.intro (told ++ [id]) ⟨?_, ?_⟩, fun _ => rfl, nofun, nofun⟩
    · rw [hspl, append_assoc]
      rfl
    · rw [disconnects_concat, ← htold]
      split
      · exact teardownCalls_append (.onPeerDisconnected id) rfl
      · exact (append_nil _).symm
  | closed _ hdisp =>
    have hcalled := hs.called
    rw [Called, hdisp] at hcalled
    obtain ⟨_, hspl, htold⟩ := hcalled
    rw [append_nil] at hspl
    refine ⟨?_, fun _ => rfl, nofun, nofun⟩
    change _ = disconnects x e.negotiatedCapabilities ++ [.onClosed]
    rw [hspl, ← htold]
    exact teardownCalls_append .onClosed rfl
  | panicked _ hdisp hjoin =>
    exact ⟨hs.called_of_draining hdisp, fun _ => rfl, fun _ => hjoin, nofun⟩
  | drained _ _ hdisp _ hwr =>
    refine ⟨hs.called_of_draining hdisp, fun _ => rfl, nofun, fun _ _ _ => ?_⟩
    rw [hwr]
    rfl
  | expired _ hdisp =>
    refine ⟨hs.called_of_draining hdisp, fun _ => rfl, nofun, fun _ _ _ => ?_⟩
    split
    · assumption
    · rfl

theorem start_sane (factory : Wire.EnvelopeFactory) (guard : Wire.ReplayGuard) :
    (start e factory guard : Session ε).Sane x e :=
  .of_not_leaving rfl rfl rfl

theorem Returns.of_step (h : s.step x e a = some t) (ht : t.Returns x e) : s.Returns x e := by
  obtain ⟨as, u, loop, result, hrun, hu⟩ := ht
  exact ⟨a :: as, u, loop, result, by rw [run, h]; exact hrun, hu⟩

variable {result : Except (Error ε) Unit}

theorem returns_of_draining (hdisp : s.dispatch = .draining result) (hjoin : s.joined = false) :
    s.Returns x e := by
  have hexp : ∃ t, s.step x e .expire = some t ∧
      t.dispatch = .returned result (conclude result (.ok ())) := by
    simp [step, expire, hdisp, hjoin]
  obtain ⟨t, ht, hret⟩ := hexp
  exact Returns.of_step ht ⟨[], t, _, _, rfl, hret⟩

theorem returns_of_disconnecting {rest} (hdisp : s.dispatch = .disconnecting rest result)
    (hjoin : s.joined = false) : s.Returns x e := by
  induction rest generalizing s with
  | nil =>
    have hclose : ∃ t, s.step x e .teardown = some t ∧ t.dispatch = .draining result ∧
        t.joined = s.joined := by
      simp [step, teardown, hdisp, enter, call]
    obtain ⟨t, ht, hdrain, hsame⟩ := hclose
    exact Returns.of_step ht (returns_of_draining hdrain (hsame.trans hjoin))
  | cons id rest ih =>
    have htell : ∃ t, s.step x e .teardown = some t ∧ t.dispatch = .disconnecting rest result ∧
        t.joined = s.joined := by
      cases hid : x.config.supports id <;> simp [step, teardown, hdisp, enter, call, hid]
    obtain ⟨t, ht, hrest, hsame⟩ := htell
    exact Returns.of_step ht (ih hrest (hsame.trans hjoin))

def Doomed (s : Session ε) : Prop := s.isEnding ∧ s.joined

theorem step_doomed (h : s.step x e a = some t) (hs : s.Doomed) : t.Doomed := by
  obtain ⟨hend, hjoin⟩ := hs
  have hout : s.dispatch.isLeaving := by
    unfold isEnding at hend
    split at hend <;> simp_all [isLeaving]
  cases step_cases h with
  | connected _ _ _ hdisp | established _ hdisp | received _ _ _ _ _ _ hdisp
  | commanded _ _ _ _ _ _ hdisp | ticked _ _ hdisp | joined _ _ _ _ hdisp
  | pushedRequest _ _ _ _ hdisp => simp [hdisp, isLeaving] at hout
  | ended a hloop => simp [in_of_loop hloop] at hout
  | moved a d hin => simp [hin] at hout
  | pushedMessage m d q hsends => simp [hsends.place.1] at hout
  | disconnected =>
    refine ⟨rfl, ?_⟩
    split <;> exact hjoin
  | closed | panicked => exact ⟨rfl, hjoin⟩
  | drained _ _ _ hnot | expired _ _ hnot => simp [hjoin] at hnot
  | _ => exact ⟨hend, hjoin⟩

theorem Doomed.not_returns (hs : s.Doomed) : ¬ s.Returns x e := by
  rintro ⟨as, t, _, _, hrun, hret⟩
  have hdoom : t.Doomed := run_preserves (step x e) (fun _ _ _ => step_doomed) hrun hs
  have hend := hdoom.1
  rw [isEnding, hret] at hend
  cases hend

/-- The writer has not been joined while the session ends, and the result is the right one. -/
def Settled (s : Session ε) : Prop := (s.isEnding → s.joined = false) ∧ s.Concluded

theorem total_iff (hs : s.Sane x e) : s.Total x e ↔ s.Settled := by
  constructor
  · intro htotal
    refine ⟨fun hend => Bool.eq_false_iff.mpr (fun hjoin => ?_), htotal.concluded⟩
    exact Doomed.not_returns ⟨hend, hjoin⟩ (htotal.returns hend)
  · rintro ⟨hjoin, hconc⟩
    have hsafe : s.dispatch ≠ .panicked := by
      intro hpan
      have hnot := hjoin (by rw [isEnding, hpan])
      rw [hs.panicked hpan] at hnot
      cases hnot
    refine ⟨hsafe, fun loop result hret => ?_, hconc, fun hend => ?_⟩
    · have hcalled := hs.called
      rw [Called, hret] at hcalled
      exact hcalled
    · have hnot := hjoin hend
      unfold isEnding at hend
      split at hend
      · exact returns_of_disconnecting ‹_› hnot
      · exact returns_of_draining ‹_› hnot
      · exact absurd ‹_› hsafe
      · cases hend

namespace Settled

theorem concluded (h : ∀ loop result, s.dispatch ≠ .returned loop result) : s.Concluded := by
  unfold Concluded
  split
  · exact absurd ‹_› (h _ _)
  · trivial

theorem of_in (ht : t.dispatch.isLeaving = false) : t.Settled := by
  unfold Settled isEnding Concluded
  cases hdisp : t.dispatch with
  | disconnecting | draining | returned | panicked => simp [hdisp, isLeaving] at ht
  | _ => exact ⟨nofun, trivial⟩

theorem of_reacts (hjoin : s.joined = false) (h : Reacts e s t) : t.Settled := by
  cases h with
  | stays _ _ _ _ d hd => exact of_in (in_of_loop hd)
  | leaves => exact ⟨fun _ => hjoin, trivial⟩

end Settled

theorem unjoined_of_in (hin : s.dispatch.isLeaving = false)
    (hwr : s.dispatch = .selecting .writer → ∀ result, s.writer ≠ .finished result) :
    s.Unjoined a := by
  cases a with
  | poll =>
    change s.joinsWriter = false
    unfold joinsWriter
    split
    · rename_i result hdisp hfin
      exact absurd hfin (hwr hdisp result)
    · rfl
  | expire =>
    change s.hasFailure = false
    unfold hasFailure
    split
    · rename_i failure hdisp hfin
      simp [hdisp, isLeaving] at hin
    · rfl
  | _ => trivial

theorem concluded_expired_iff (hdisp : s.dispatch = .draining result) : Concluded { s with
      writer := if s.writer.isGone then s.writer else .aborted
      dispatch := .returned result (conclude result (.ok ())) } ↔ s.Unjoined .expire := by
  change _ ↔ s.hasFailure = false
  rw [hasFailure, hdisp]
  cases result with
  | error => exact iff_of_true rfl rfl
  | ok =>
    cases hwr : s.writer with
    | finished output =>
      cases output with
      | ok => exact iff_of_true rfl rfl
      | error => exact iff_of_false nofun nofun
    | _ => exact iff_of_true rfl rfl

theorem step_settled_iff (hsane : s.Sane x e) (hs : s.Settled) (h : s.step x e a = some t) :
    t.Settled ↔ s.Unjoined a := by
  cases step_cases h with
  | advance | arrive | deliver | command | offer => exact iff_of_true hs trivial
  | connected | established | pushedRequest => exact iff_of_true (.of_in rfl) trivial
  | received _ _ _ _ _ _ hdisp _ hreact | commanded _ _ _ _ _ _ hdisp _ hreact =>
    have hin := in_of_eq hdisp rfl
    have hbranch : s.dispatch ≠ .selecting .writer := by rw [hdisp]; nofun
    refine iff_of_true (.of_reacts ?_ hreact) (unjoined_of_in hin (fun hw => absurd hw hbranch))
    exact hsane.joined_eq_false hin
  | ticked _ t hdisp hreact =>
    exact iff_of_true (.of_reacts (hsane.joined_eq_false (in_of_eq hdisp rfl)) hreact) trivial
  | ended a hloop hbranch =>
    have hin := in_of_loop hloop
    refine iff_of_true ⟨fun _ => ?_, trivial⟩ (unjoined_of_in hin (fun hw => absurd hw hbranch))
    exact hsane.joined_eq_false hin
  | joined _ _ _ _ hdisp hwr =>
    refine iff_of_false (fun hsett => ?_) (fun hunj => ?_)
    · cases hsett.1 rfl
    · change s.joinsWriter = false at hunj
      rw [joinsWriter, hdisp, hwr] at hunj
      cases hunj
  | moved a d hin hd _ hwr => exact iff_of_true (.of_in hd) (unjoined_of_in hin hwr)
  | pushedMessage m d q hsends => exact iff_of_true (.of_in hsends.place.2.2.1) trivial
  | tookRequest _ _ _ _ hwr | tookMessage _ _ _ _ hwr | wrote _ hwr | failed _ _ hwr
  | stopped hwr | flushed _ hwr =>
    exact iff_of_true ⟨hs.1, Settled.concluded (hsane.not_returned hwr rfl)⟩ trivial
  | disconnected _ _ _ hdisp =>
    have hjoin := hs.1 (by rw [isEnding, hdisp])
    refine iff_of_true ⟨fun _ => ?_, trivial⟩ trivial
    split <;> exact hjoin
  | closed _ hdisp =>
    have hjoin := hs.1 (by rw [isEnding, hdisp])
    exact iff_of_true ⟨fun _ => hjoin, trivial⟩ trivial
  | panicked _ hdisp hjoin =>
    have hnot := hs.1 (by rw [isEnding, hdisp])
    rw [hjoin] at hnot
    cases hnot
  | drained result output _ _ hwr =>
    refine iff_of_true ⟨nofun, ?_⟩ trivial
    rw [hwr]
    cases result with
    | error => rfl
    | ok => cases output <;> rfl
  | expired _ hdisp =>
    refine Iff.trans ?_ (concluded_expired_iff hdisp)
    exact ⟨fun hsett => hsett.2, fun hconc => ⟨nofun, hconc⟩⟩

/-- The teardown keeps its promises throughout a run exactly where the loop never takes
the writer's output and no wait for the writer ends just as it fails. -/
theorem teardown_total_iff {as : List (Action ε)} {factory : Wire.EnvelopeFactory}
    {guard : Wire.ReplayGuard} (hrun : run (step x e) (start e factory guard) as = some t) :
    Always (step x e) (Total x e) (start e factory guard) as ↔
      Meets (step x e) Unjoined (start e factory guard) as := by
  have hstart : (start e factory guard : Session ε).Total x e :=
    (total_iff (start_sane factory guard)).mpr (.of_in rfl)
  refine @always_iff_meets _ _ (step x e) Unjoined (Sane x e) (Total x e)
    (fun _ _ _ hs h => step_sane h hs) ?_ as (start e factory guard) t hrun
    (start_sane factory guard) hstart
  intro s a t hs htotal h
  have hsett : s.Settled := (total_iff hs).mp htotal
  exact (total_iff (step_sane h hs)).trans (step_settled_iff hs hsett h)

theorem count_disconnects {ids} (hnodup : ids.Nodup) {id} (hid : id ∈ ids)
    (hsupp : x.config.supports id) : (disconnects x ids).count (.onPeerDisconnected id) = 1 := by
  have hinj : Function.Injective Call.onPeerDisconnected := fun _ _ h =>
    Call.onPeerDisconnected.inj h
  have hmem : id ∈ ids.filter x.config.supports := mem_filter.mpr ⟨hid, hsupp⟩
  rw [disconnects, count_map_of_injective _ _ hinj]
  exact count_eq_one_of_mem (hnodup.filter _) hmem

theorem told_once [LinearOrder Fp] {c store desk h hs as loop}
    (hshake : run (Handshake.step x c) { store := store, desk := desk } hs = some h)
    (hdone : h.stage = .returned (.ok e))
    (hrun : run (step x e) (start e h.factory h.guard) as = some t)
    (hret : t.dispatch = .returned loop result) :
    (∀ id ∈ e.negotiatedCapabilities, t.calls.count (.onPeerDisconnected id) = 1) ∧
      t.calls.count .onClosed = 1 := by
  have hsane : t.Sane x e := run_preserves (step x e) (fun _ _ _ => step_sane) hrun
    (start_sane h.factory h.guard)
  have hcalled := hsane.called
  rw [Called, hret] at hcalled
  have hcount : ∀ call : Call, call.isTeardown →
      t.calls.count call = (disconnects x e.negotiatedCapabilities ++ [Call.onClosed]).count
      call := by
    intro _ hcall
    rw [← hcalled, teardownCalls, count_filter hcall]
  obtain ⟨-, -, hadm⟩ := (Handshake.run_sound hshake).standing hdone
  have hall : e.negotiatedCapabilities.Nodup ∧ ∀ id ∈ e.negotiatedCapabilities,
      x.config.supports id := by
    cases hadm with
    | recognised _ _ _ _ _ hall | paired _ _ _ _ _ _ _ _ hall =>
      exact ⟨hall.nodup, fun id hid => decide_eq_true (hall.registered id hid)⟩
  constructor
  · intro id hid
    rw [hcount _ rfl, count_append, count_disconnects hall.1 hid (hall.2 id hid)]
    rfl
  · rw [hcount _ rfl, count_append]
    have hnone : (disconnects x e.negotiatedCapabilities).count Call.onClosed = 0 := by
      refine count_eq_zero.mpr (fun hmem => ?_)
      obtain ⟨_, -, hid⟩ := mem_map.mp hmem
      cases hid
    rw [hnone]
    rfl

section Sample

open Handshake (sampleHost phoneSession)

def failingAnswer : List (Action Unit) :=
  opening ++ hear 1 (.ping []) ++
    [Action.push, .takeRequest none 0, .command .shutdown, .poll [] none [], .poll [] none [],
    .teardown, .teardown, .wrote (.error (.other ())), .flushed, .teardown]

theorem teardown_total_failing_answer :
    ∃ t, run (step sampleHost phoneSession) phoneStart failingAnswer = some t ∧
      t.dispatch = .returned (.ok ()) (.error (.other ())) ∧
      Always (step sampleHost phoneSession) (Total sampleHost phoneSession) phoneStart
      failingAnswer :=
  ⟨_, rfl, rfl, (@teardown_total_iff _ _ sampleHost phoneSession _ failingAnswer ⟨1, 0⟩ {} rfl).mpr
    (by decide)⟩

def oversized : List (Action Unit) :=
  opening ++ [Action.command (.sendCapability ⟨"battery.v1", []⟩), .poll [] none [],
    .poll [] none [], .push, .takeRequest none 0, .wrote (.error (.other ())), .flushed,
    .poll [] none [], .poll [] none [], .poll [] none [], .teardown, .teardown, .teardown]

theorem teardown_panics :
    ∃ t, run (step sampleHost phoneSession) phoneStart oversized = some t ∧
      t.dispatch = .panicked :=
  ⟨_, rfl, rfl⟩

end Sample

end Session

end OmniBridge.Desktop
