import OmniBridge.DesktopTrust

/-! Edits of a peer's notification policy. An edit reads the policy under one lock
and writes it back under another; it takes effect as one edit where what is stored
when it writes is still what it read, apart from the field it sets. -/

namespace OmniBridge.Desktop

open List Option NotificationSetting
open OmniBridge.Sink (NotificationPolicy)

variable {Fp ε : Type} [LinearOrder Fp]

def NotificationSetting.apply (normalize : String → String) (policy : NotificationPolicy)
    (setting : NotificationSetting) : NotificationPolicy :=
  match setting.update normalize policy with
  | .ok (updated, _) => updated
  | .error _ => policy

theorem NotificationSetting.apply_allowMirror (normalize : String → String)
    (policy : NotificationPolicy)
    (setting : NotificationSetting) : (setting.apply normalize policy).allowMirror =
      match setting with
      | .mirror enabled => enabled | _ => policy.allowMirror := by
  cases setting with
  | mirror | dismissSync => rfl
  | whenLocked lock =>
    unfold apply update
    dsimp only
    cases Sink.LockPolicy.parse normalize lock with
    | _ => rfl

theorem foldl_apply_mirror_off {normalize : String → String} {order : List NotificationSetting}
    (hon : .mirror true ∉ order) {policy} (h : .mirror false ∈ order ∨ policy.allowMirror = false) :
    (order.foldl (apply normalize) policy).allowMirror = false := by
  induction order generalizing policy with
  | nil =>
    rcases h with h | h
    · cases h
    · exact h
  | cons setting order ih =>
    have hrest : mirror true ∉ order := fun hmem => hon (mem_cons_of_mem _ hmem)
    refine ih hrest ?_
    rw [apply_allowMirror]
    cases setting with
    | mirror enabled =>
      cases enabled with
      | true => exact absurd mem_cons_self hon
      | false => exact .inr rfl
    | _ =>
      refine h.imp_left (fun hmem => ?_)
      rcases mem_cons.mp hmem with heq | hmem
      · cases heq
      · exact hmem

def Request.edited (fp : Fp) (r : Request Fp) : Option NotificationSetting :=
  match r.command, r.stage with
  | .notificationsPolicy _ setting, .answered (some l) (.ok _) =>
    if l = fp then some setting else none
  | _, _ => none

variable {fp : Fp} {r : Request Fp}

theorem Request.edited_eq_none_of_stage (h : ∀ about response, r.stage ≠ .answered about response) :
    r.edited fp = none := by
  obtain ⟨command, stage, _⟩ := r
  cases stage with
  | answered about response => exact absurd rfl (h about response)
  | _ => cases command <;> rfl

theorem Request.edited_eq_none_of_command
    (h : ∀ device setting, r.command ≠ .notificationsPolicy device setting) :
    r.edited fp = none := by
  obtain ⟨command, _, _⟩ := r
  cases command with
  | notificationsPolicy device setting => exact absurd rfl (h device setting)
  | _ => rfl

theorem Request.edited_eq_none_of_error {about response} (hst : r.stage = .answered about response)
    (h : response.isOk = false) : r.edited fp = none := by
  obtain ⟨command, _, _⟩ := r
  cases hst
  cases response with
  | ok => cases h
  | error => cases command <;> cases about <;> rfl

def Request.making (fp : Fp) (write : Except ε Unit) (r : Request Fp) :
    Option NotificationSetting :=
  match r.command, r.stage, write with
  | .notificationsPolicy _ setting, .updating l _ _, .ok () => if l = fp then some setting else none
  | _, _, _ => none

theorem Request.making_eq_none (write : Except ε Unit)
    (h : ∀ l updated described, r.stage ≠ .updating l updated described) :
    r.making fp write = none := by
  obtain ⟨command, stage, _⟩ := r
  cases stage with
  | updating l updated described => exact absurd rfl (h l updated described)
  | _ => cases command <;> rfl

theorem Request.edited_of_handles {x : Config Fp ε} {s t r' write} (fp : Fp)
    (h : r.Handles x s write t r') : r.edited fp = none ∧ r'.edited fp = r.making fp write := by
  -- all sections but one neither follow an answer nor make an edit
  have hoth : (∀ l updated described, r.stage ≠ .updating l updated described) →
      (∀ about response, r.stage ≠ .answered about response) → r'.edited fp = none →
      r.edited fp = none ∧ r'.edited fp = r.making fp write := by
    intro hupdat hansw hnone
    exact ⟨edited_eq_none_of_stage hansw, hnone.trans (making_eq_none write hupdat).symm⟩
  have hearl : r.isEarly → r'.edited fp = none → r.edited fp = none ∧
      r'.edited fp = r.making fp write := by
    intro hearly
    refine hoth (fun _ _ _ hst => ?_) (fun _ _ hst => ?_)
    all_goals simp [isEarly, hst] at hearly
  cases h with
  | answered _ _ hearly hok =>
    refine hearl hearly ?_
    rcases hok with hok | hok
    · exact edited_eq_none_of_error rfl hok
    · refine edited_eq_none_of_command (fun device setting hcomm => ?_)
      simp [hides, show r.command = _ from hcomm] at hok
  | policyWritten _ _ l _ _ response hcomm hst hok =>
    refine ⟨edited_eq_none_of_stage (by simp [hst]), ?_⟩
    cases response with
    | error =>
      cases write with
      | ok => cases hok.mpr rfl
      | error => simp [edited, making, hcomm, hst]
    | ok =>
      obtain rfl : write = .ok () := hok.mp rfl
      simp [edited, making, hcomm, hst]
  | resolved _ hst | revoked _ _ _ _ hst | granted _ _ _ _ _ _ hst
  | policyRead _ _ _ _ _ _ _ hst
  | found _ _ _ _ hst | notFound _ _ _ hst | shutdown _ _ _ _ hst | dropped _ _ _ hst
  | next _ _ _ _ hst | looked _ _ _ _ _ hst =>
    exact hoth (by simp [hst]) (by simp [hst]) (edited_eq_none_of_stage (by simp))
  | revocationFailed _ _ _ _ hst hok | grantFailed _ _ _ _ _ _ _ _ hst _ _ hok =>
    exact hoth (by simp [hst]) (by simp [hst]) (edited_eq_none_of_error rfl hok)
  | hid _ _ hearly | hidAll _ _ _ hearly =>
    exact hearl hearly (edited_eq_none_of_stage (by simp))
  | clipboardPolicy _ _ _ _ _ _ hcomm hst | left _ _ _ _ _ _ hcomm hst
  | reconnected _ _ _ _ _ _ hcomm hst =>
    exact hoth (by simp [hst]) (by simp [hst]) (edited_eq_none_of_command (by simp [hcomm]))
  | cleared l _ hwith hst =>
    refine hoth (by simp [hst]) (by simp [hst]) (edited_eq_none_of_command ?_)
    intro _ _ hcomm
    simp [withdraws, show r.command = _ from hcomm] at hwith

namespace Daemon

variable {x : Config Fp ε} {s t : Daemon Fp} {a : Action Fp ε}

/-- The successful edits of a peer's policy, in the order of the requests. -/
def edits (fp : Fp) (s : Daemon Fp) : List NotificationSetting :=
  s.requests.filterMap (Request.edited fp)

def policyOf (fp : Fp) (s : Daemon Fp) : Option NotificationPolicy :=
  (s.store.trustedPeer fp).map TrustedPeer.notificationPolicy

def KeepsPairing (fp : Fp) (s : Daemon Fp) (a : Action Fp ε) : Prop :=
  s.unpairs a ≠ some fp ∧ ∀ write, s.pairs a ≠ some (fp, write)

/-- An edit writes what it would make of the policy stored now; if its write fails, it changes
nothing. -/
def Unraced (x : Config Fp ε) (fp : Fp) (s : Daemon Fp) (a : Action Fp ε) : Prop :=
  ∀ w ∈ s.policyWrite a, w.fp = fp → ∀ policy ∈ s.policyOf fp,
    w.updated = match w.outcome with
      | .ok () => w.setting.apply x.normalize policy
      | .error _ => policy

variable {fp : Fp} {policy : NotificationPolicy}

theorem policyOf_eq_some :
    s.policyOf fp = some policy ↔ ∃ p, s.store.peers.get fp = some p ∧ p.revoked = false ∧
      p.notificationPolicy = policy := by
  simp only [policyOf, map_eq_some_iff, Store.trustedPeer_eq_some, and_assoc]

theorem policyOf_modify {l} {f : TrustedPeer Fp → TrustedPeer Fp} {hf}
    (hkeeps : ∀ p, (f p).revoked = p.revoked ∧ (f p).notificationPolicy = p.notificationPolicy)
    (ht : t.store.peers = s.store.peers.modify l f hf) (hs : s.policyOf fp = some policy) :
    t.policyOf fp = some policy := by
  obtain ⟨p, hp, hlive, hpol⟩ := policyOf_eq_some.mp hs
  rw [policyOf_eq_some, ht, Peers.get_modify]
  by_cases hl : fp = l
  · rw [if_pos hl, hp]
    exact ⟨f p, rfl, (hkeeps p).1.trans hlive, (hkeeps p).2.trans hpol⟩
  · rw [if_neg hl]
    exact ⟨p, hp, hlive, hpol⟩

def written (fp : Fp) (s : Daemon Fp) (a : Action Fp ε) : Option NotificationPolicy :=
  ((s.policyWrite a).filter (·.fp = fp)).map PolicyWrite.updated

theorem step_policyOf (hkeep : s.KeepsPairing fp a) (hs : s.policyOf fp = some policy)
    (h : s.step x a = some t) : t.policyOf fp = some ((s.written fp a).getD policy) := by
  obtain ⟨p, hp, hlive, hpol⟩ := policyOf_eq_some.mp hs
  have hnone : s.policyWrite a = none → s.written fp a = none := fun hw => by rw [written, hw]; rfl
  have hsame : t.store.peers.get fp = s.store.peers.get fp → t.policyOf fp = some policy := by
    intro hget
    rw [policyOf_eq_some, hget]
    exact ⟨p, hp, hlive, hpol⟩
  cases touches_of_step h with
  | nothing hw _ hpeers =>
    rw [hnone hw]
    exact hsame (by rw [hpeers])
  | revokes l hunp hw _ hpeers =>
    rw [hnone hw]
    refine hsame ?_
    rw [hpeers, Peers.get_modify, if_neg]
    rintro rfl
    exact hkeep.1 hunp
  | entombs _ hw _ hrev hpeers =>
    rw [hnone hw]
    refine hsame ?_
    rw [hpeers]
    refine Peers.get_foldl_entomb_of_notMem (fun hmem => ?_) s.store.peers
    rw [hrev fp hmem p hp] at hlive
    cases hlive
  | edits l q f _ hw _ _ hkeeps _ hpeers =>
    rw [hnone hw]
    exact policyOf_modify (fun p => ⟨(hkeeps p).1, (hkeeps p).2.2⟩) hpeers hs
  | writes w hw _ hpeers =>
    have hget := Peers.get_modify s.store.peers w.fp fp ({ · with notificationPolicy := w.updated })
      (fun _ => rfl)
    rw [← hpeers] at hget
    by_cases hl : w.fp = fp
    · have hwrit : s.written fp a = some w.updated := by simp [written, hw, hl]
      rw [if_pos hl.symm, hp] at hget
      rw [hwrit, policyOf_eq_some, hget]
      exact ⟨_, rfl, hlive, rfl⟩
    have hwrit : s.written fp a = none := by simp [written, hw, hl]
    rw [if_neg (Ne.symm hl)] at hget
    rw [hwrit]
    exact hsame hget
  | paired i c _ write _ _ hw hpairs hpeers =>
    rw [hnone hw]
    refine hsame ?_
    rw [hpeers, Peers.get_insert, if_neg]
    rintro rfl
    exact hkeep.2 write hpairs

def made (fp : Fp) (s : Daemon Fp) (a : Action Fp ε) : Option NotificationSetting :=
  (s.policyWrite a).bind (fun w =>
    match w.outcome with
    | .ok () => if w.fp = fp then some w.setting else none
    | .error _ => none)

theorem made_proceed {i} (hr : s.requests[i]? = some r) (write : Except ε Unit) :
    s.made fp (.proceed i write) = r.making fp write := by
  obtain ⟨command, stage, _⟩ := r
  simp only [made, policyWrite, hr]
  cases command with
  | notificationsPolicy =>
    cases stage with
    | updating => cases write <;> rfl
    | _ => rfl
  | _ => rfl

theorem step_edits (fp : Fp) (h : s.step x a = some t) :
    (t.edits fp).Perm (s.edits fp ++ (s.made fp a).toList) := by
  rcases step_requests h with ⟨hsame, hoth⟩ | ⟨command, rfl, hnew⟩
    | ⟨i, r, write, u, r', rfl, hr, hh, rfl⟩
  · have hmade : s.made fp a = none := by
      cases a with
      | proceed i write => exact absurd rfl (hoth i write)
      | _ => rfl
    rw [hmade, edits, hsame]
    simp [edits]
  · have hnone : Request.edited fp ⟨command, .started, 0⟩ = none :=
      Request.edited_eq_none_of_stage (by simp)
    have hmade : s.made fp (.request command : Action Fp ε) = none := rfl
    rw [hmade, edits, hnew, filterMap_append, filterMap_cons_none hnone]
    simp [edits]
  · obtain ⟨hold, hafter⟩ := Request.edited_of_handles fp hh
    have hperm := filterMap_set_perm (Request.edited fp) hr r'
    rw [hold, hafter, ← made_proceed hr write] at hperm
    exact hperm.trans perm_append_comm

/-- The edits made since `s` give the policy, one after the other in some order. -/
def Composed (x : Config Fp ε) (fp : Fp) (s : Daemon Fp) (policy : NotificationPolicy)
    (t : Daemon Fp) : Prop :=
  ∃ order, (t.edits fp).Perm (s.edits fp ++ order) ∧
    t.policyOf fp = some (order.foldl (apply x.normalize) policy)

theorem step_composed {s₀} (hkeep : s.KeepsPairing fp a) (hok : Unraced x fp s a)
    (h : s.step x a = some t) (hs : Composed x fp s₀ policy s) : Composed x fp s₀ policy t := by
  obtain ⟨order, hperm, hpol⟩ := hs
  have hedits := step_edits fp h
  have hafter := step_policyOf hkeep hpol h
  refine ⟨order ++ (s.made fp a).toList, ?_, ?_⟩
  · rw [← append_assoc]
    exact hedits.trans (hperm.append_right _)
  · rw [hafter, foldl_append]
    congr 1
    cases hw : s.policyWrite a with
    | none => simp [written, made, hw]
    | some w =>
      have hupd := hok w hw
      obtain ⟨l, _, _, outcome⟩ := w
      by_cases hfp : l = fp
      · have hupd := hupd hfp _ hpol
        cases outcome with
        | _ =>
          dsimp only at hupd
          simp [written, made, hw, hfp, hupd, filter_some]
      · cases outcome with
        | _ => simp [written, made, hw, hfp, filter_some]

/-- Concurrent edits of a live peer's policy compose where each writes to the policy it
read: what is stored is what the successful edits make one after another, and
mirroring that was turned off stays off unless some edit turned it on. -/
theorem policy_edits_compose {fp : Fp} {policy : NotificationPolicy} {as : List (Action Fp ε)}
    (hrun : run (step x) s as = some t) (hs : s.policyOf fp = some policy)
    (hkeep : Meets (step x) (KeepsPairing fp) s as) (hok : Meets (step x) (Unraced x fp) s as) :
    ∃ order, (t.edits fp).Perm (s.edits fp ++ order) ∧
      t.policyOf fp = some (order.foldl (apply x.normalize) policy) ∧
      (.mirror false ∈ order → .mirror true ∉ order →
        ∃ q, t.policyOf fp = some q ∧ q.allowMirror = false) := by
  have hboth : Meets (step x) (fun s a => KeepsPairing fp s a ∧ Unraced x fp s a) s as :=
    Meets.and (step x) hkeep hok
  obtain ⟨order, hperm, hpol⟩ : Composed x fp s policy t :=
    run_invariant (step x) (fun _ _ _ hok h hs => step_composed hok.1 hok.2 h hs) hrun hboth ⟨[],
      by simp, hs⟩
  refine ⟨order, hperm, hpol, ?_⟩
  intro hoff hon
  exact ⟨_, hpol, foldl_apply_mirror_off hon (.inl hoff)⟩

instance (fp : Fp) (s : Daemon Fp) (a : Action Fp ε) : Decidable (s.KeepsPairing fp a) :=
  decidable_of_iff (s.unpairs a ≠ some fp ∧ (s.pairs a).map Prod.fst ≠ some fp) (by
    cases hpairs : s.pairs a <;> simp [KeepsPairing, hpairs, Prod.ext_iff])

instance (fp : Fp) (s : Daemon Fp) (a : Action Fp ε) : Decidable (Unraced x fp s a) :=
  inferInstanceAs (Decidable (∀ w ∈ s.policyWrite a, _))

def editing : Daemon Nat :=
  (run (step sampleConfig) fresh
    (pairing ++ [Action.request (.notificationsPolicy "phone" (.mirror false)),
    .request (.notificationsPolicy "phone" (.dismissSync true)), .proceed 0 (.ok ()),
    .proceed 1 (.ok ())])).getD fresh

def editsInTurn : List (Action Nat Unit) :=
  [.proceed 0 (.ok ()), .proceed 0 (.ok ()), .proceed 1 (.ok ()), .proceed 1 (.ok ())]

theorem policy_edits_compose_in_turn :
    ∃ t, run (step sampleConfig) editing editsInTurn = some t ∧ ∃ order,
      (t.edits 7).Perm (editing.edits 7 ++ order) ∧
      t.policyOf 7 = some (order.foldl (apply sampleConfig.normalize) {}) ∧
      (.mirror false ∈ order → .mirror true ∉ order → ∃ q, t.policyOf 7 = some q ∧
      q.allowMirror = false) :=
  ⟨_, rfl, @policy_edits_compose _ _ _ sampleConfig editing _ 7 {} editsInTurn rfl rfl (by decide)
    (by decide)⟩

/-- Both requests have read the policy when the first one writes: both succeed, the
mirroring is on, and no order of the two edits gives that. -/
theorem policy_edit_undone :
    ∃ t, run (step sampleConfig) editing [.proceed 0 (.ok ()), .proceed 1 (.ok ()),
      .proceed 0 (.ok ()), .proceed 1 (.ok ())] = some t ∧
      t.edits 7 = [.mirror false, .dismissSync true] ∧ t.policyOf 7 = some ⟨true, .appOnly, true⟩ ∧
      ¬ ∃ order, (t.edits 7).Perm (editing.edits 7 ++ order) ∧
      t.policyOf 7 = some (order.foldl (apply sampleConfig.normalize) {}) := by
  refine ⟨_, rfl, by decide, by decide, ?_⟩
  rintro ⟨order, hperm, hpol⟩
  have hedits : List.Perm [.mirror false, .dismissSync true] order := hperm
  have hon : .mirror true ∉ order := fun hmem => absurd (hedits.mem_iff.mpr hmem) (by decide)
  have hoff := @foldl_apply_mirror_off sampleConfig.normalize order hon {}
    (.inl (hedits.mem_iff.mp (by decide)))
  rw [← some.inj hpol] at hoff
  cases hoff

end Daemon

end OmniBridge.Desktop
