import OmniBridge.DesktopDaemon

/-! What the daemon's steps do to the stored records. Revocation has to survive
requests that read a record before it and write it after it, and a new pairing
must find nothing of the old one. -/

namespace OmniBridge.Desktop

open List Option SortedMap Store TrustedPeer
open OmniBridge.Sink (NotificationPolicy)

variable {Fp ε : Type} [LinearOrder Fp]

structure PolicyWrite (Fp ε : Type) where
  fp : Fp
  setting : NotificationSetting
  updated : NotificationPolicy
  outcome : Except ε Unit

omit [LinearOrder Fp] in
theorem TrustedPeer.revoke_fingerprint (p : TrustedPeer Fp) :
    p.revoke.fingerprint = p.fingerprint := rfl

namespace Peers

theorem get_insert (peers : Peers Fp) (peer : TrustedPeer Fp) (fp) :
    (peers.insert peer).get fp = if fp = peer.fingerprint then some peer else peers.get fp :=
  SortedMap.get_insert _ _ _ _

theorem get_modify (peers : Peers Fp) (fp l) (f : TrustedPeer Fp → TrustedPeer Fp)
    (hf : ∀ p, (f p).fingerprint = p.fingerprint) :
    (peers.modify fp f hf).get l = if l = fp then (peers.get l).map f else peers.get l := by
  by_cases h : l = fp
  · subst h
    rw [if_pos rfl]
    exact get_modify_self _ _ _
  · rw [if_neg h]
    exact get_modify_of_ne h _ _

theorem get_entomb (peers : Peers Fp) (fp l) :
    (peers.entomb fp).get l = if l = fp then (peers.get l).map intoTombstone else peers.get l := by
  unfold entomb
  cases hget : peers.get fp with
  | none =>
    by_cases h : l = fp
    · simp [h, hget]
    · simp [h]
  | some p =>
    have hkey : p.intoTombstone.fingerprint = fp := peers.keyed fp p hget
    have hrem : (peers.remove fp).get l = if l = fp then none else peers.get l :=
      get_erase _ _ _
    rw [get_insert, hkey, hrem]
    by_cases h : l = fp
    · simp [h, hget]
    · simp [h]

variable {p : TrustedPeer Fp} {peers : Peers Fp} {fps : List Fp} {l : Fp}

theorem get_foldl_entomb (h : (fps.foldl entomb peers).get l = some p) :
    peers.get l = some p ∨ ∃ q, l ∈ fps ∧ peers.get l = some q ∧ p = q.intoTombstone := by
  induction fps generalizing peers with
  | nil => exact .inl h
  | cons fp _ ih =>
    have hfirst : ∀ q, (peers.entomb fp).get l = some q →
        peers.get l = some q ∨ ∃ q', l = fp ∧ peers.get l = some q' ∧ q = q'.intoTombstone := by
      intro q hq
      rw [get_entomb] at hq
      split at hq
      · rename_i hl
        obtain ⟨q', hq', rfl⟩ := map_eq_some_iff.mp hq
        exact .inr ⟨q', hl, hq', rfl⟩
      · exact .inl hq
    rcases ih h with hp | ⟨q, hl, hq, rfl⟩
    · rcases hfirst p hp with hp | ⟨q, rfl, hq, rfl⟩
      · exact .inl hp
      · exact .inr ⟨q, mem_cons_self, hq, rfl⟩
    · rcases hfirst q hq with hq | ⟨q', rfl, hq', rfl⟩
      · exact .inr ⟨q, mem_cons_of_mem _ hl, hq, rfl⟩
      · exact .inr ⟨q', mem_cons_self, hq', rfl⟩

theorem get_foldl_entomb_of_notMem (h : l ∉ fps) (peers : Peers Fp) :
    (fps.foldl entomb peers).get l = peers.get l := by
  induction fps generalizing peers with
  | nil => rfl
  | cons _ _ ih =>
    obtain ⟨hne, hrest⟩ := not_or.mp (mem_cons.not.mp h)
    rw [foldl_cons, ih hrest, get_entomb, if_neg hne]

theorem get_of_mem_values (h : p ∈ peers.values) : peers.get p.fingerprint = some p := by
  obtain ⟨⟨fp, q⟩, hq, rfl⟩ := mem_map.mp h
  have hget : peers.get fp = some q := get_eq_some_iff.mpr hq
  have hkey := peers.keyed fp q hget
  rw [hkey]
  exact hget

end Peers

namespace Store

variable (s : Store Fp) (fp : Fp) (write : Except ε Unit)

theorem persist_peers : (s.persist write).2.peers = s.peers := by
  cases write with
  | _ => rfl

theorem addPeer_peers (peer : TrustedPeer Fp) :
    (s.addPeer peer write).2.peers = s.peers.insert peer :=
  persist_peers _ write

theorem setCapabilityGrant_peers (capabilityId : String) (granted : Bool) :
    (s.setCapabilityGrant fp capabilityId granted write).2.peers = s.peers.modify fp
      (.grant capabilityId granted) (fun _ => rfl) :=
  persist_peers _ write

theorem setClipboardPolicy_peers (policy : Clipboard.ClipboardPolicy) :
    (s.setClipboardPolicy fp policy write).2.peers = s.peers.modify fp
      ({ · with clipboardPolicy := policy }) (fun _ => rfl) :=
  persist_peers _ write

theorem setNotificationPolicy_peers (policy : NotificationPolicy) :
    (s.setNotificationPolicy fp policy write).2.peers = s.peers.modify fp
      ({ · with notificationPolicy := policy }) (fun _ => rfl) :=
  persist_peers _ write

theorem revokePeer_peers :
    (s.revokePeer fp write).2.peers = s.peers.modify fp .revoke revoke_fingerprint := by
  unfold revokePeer
  cases hget : s.peers.get fp with
  | none =>
    refine ((s.peers.modify_eq_self_iff fp _).mpr ?_).symm
    intro p hp
    rw [hget] at hp
    cases hp
  | some =>
    cases write with
    | _ => rfl

variable {fp : Fp} {s : Store Fp}

theorem revoked_of_hideOutcome (h : s.hideOutcome fp = .isHidden) :
    ∀ p ∈ s.peers.get fp, p.revoked := by
  intro p hp
  unfold hideOutcome at h
  rw [mem_def.mp hp] at h
  cases hrev : p.revoked with
  | true => rfl
  | false => simp [hrev] at h

theorem revoked_of_mem_targets (h : fp ∈ s.revokedListedPeers.map fingerprint) :
    ∀ p ∈ s.peers.get fp, p.revoked := by
  intro p hp
  obtain ⟨q, hq, rfl⟩ := mem_map.mp h
  obtain ⟨hmem, hrev⟩ := mem_filter.mp hq
  have hget := Peers.get_of_mem_values hmem
  obtain rfl := mem_unique hget hp
  exact (Bool.and_eq_true_iff.mp hrev).1

end Store

namespace Daemon

variable (x : Config Fp ε)

def policyWrite (s : Daemon Fp) : Action Fp ε → Option (PolicyWrite Fp ε)
  | .proceed i write =>
    match s.requests[i]? with
    | some ⟨.notificationsPolicy _ setting, .updating fp updated _, _⟩ =>
      some ⟨fp, setting, updated, write⟩
    | _ => none
  | _ => none

def pairs (s : Daemon Fp) : Action Fp ε → Option (Fp × Except ε Unit)
  | .storePeer i _ write => (s.connections[i]?).map (fun c => (c.fingerprint, write))
  | _ => none

def unpairs (s : Daemon Fp) : Action Fp ε → Option Fp
  | .proceed i _ =>
    match s.requests[i]? with
    | some ⟨.unpair _, .resolved fp, _⟩ => some fp
    | _ => none
  | _ => none

def grants (s : Daemon Fp) : Action Fp ε → Option (Fp × String × Bool)
  | .proceed i _ =>
    match s.requests[i]? with
    | some ⟨.grant _ capability granted, .resolved fp, _⟩ => some (fp, capability, granted)
    | _ => none
  | _ => none

inductive Touches (s : Daemon Fp) (a : Action Fp ε) (peers : Peers Fp) : Prop
  | nothing : s.policyWrite a = none → s.pairs a = none → peers = s.store.peers → Touches s a peers
  | revokes (fp : Fp) : s.unpairs a = some fp → s.policyWrite a = none → s.pairs a = none →
      peers = s.store.peers.modify fp .revoke revoke_fingerprint → Touches s a peers
  | entombs (fps : List Fp) : s.policyWrite a = none → s.pairs a = none →
      (∀ fp ∈ fps, ∀ p ∈ s.store.peers.get fp, p.revoked) →
      peers = fps.foldl Peers.entomb s.store.peers → Touches s a peers
  | edits (fp : Fp) (p : TrustedPeer Fp) (f : TrustedPeer Fp → TrustedPeer Fp)
      (hf : ∀ p, (f p).fingerprint = p.fingerprint) : s.policyWrite a = none → s.pairs a = none →
      s.store.trustedPeer fp = some p →
      (∀ q, (f q).revoked = q.revoked ∧ (f q).hidden = q.hidden ∧
      (f q).notificationPolicy = q.notificationPolicy) →
      (∀ q id, (f q).grantedCapabilities.get id = some true →
      q.grantedCapabilities.get id = some true ∨ s.grants a = some (fp, id, true)) →
      peers = s.store.peers.modify fp f hf → Touches s a peers
  | writes (w : PolicyWrite Fp ε) : s.policyWrite a = some w → s.pairs a = none →
      peers = s.store.peers.modify w.fp ({ · with notificationPolicy := w.updated })
      (fun _ => rfl) → Touches s a peers
  | paired (i : Nat) (c : Connection Fp) (time : Int) (write : Except ε Unit) :
      a = .storePeer i time write → s.connections[i]? = some c → s.policyWrite a = none →
      s.pairs a = some (c.fingerprint, write) →
      peers = s.store.peers.insert
        (x.newPeer c.device c.fingerprint (x.negotiate c.advertised) c.version time) →
          Touches s a peers

variable {x} {s t : Daemon Fp} {a : Action Fp ε} {fp : Fp} {i : Nat} {device : String}
  {r : Request Fp}

section

variable (hr : s.requests[i]? = some r)
include hr

theorem policyWrite_eq_none (hst : ∀ fp updated described, r.stage ≠ .updating fp updated described)
    (write : Except ε Unit) : s.policyWrite (.proceed i write) = none := by
  obtain ⟨command, stage, _⟩ := r
  simp only [policyWrite, hr]
  cases stage with
  | updating fp updated described => exact absurd rfl (hst fp updated described)
  | _ => cases command <;> rfl

theorem touches_of_handles {r' write} (h : r.Handles x s write t r') :
    Touches x s (.proceed i write) t.store.peers := by
  have hnone : (∀ fp updated described, r.stage ≠ .updating fp updated described) →
      s.policyWrite (.proceed i write) = none := fun hst => policyWrite_eq_none hr hst write
  have hearly : r.isEarly → s.policyWrite (.proceed i write) = none := by
    intro hearly
    refine hnone (fun fp updated described hst => ?_)
    simp [Request.isEarly, hst] at hearly
  cases h with
  | resolved _ hst | policyRead _ _ _ _ _ _ _ hst | found _ _ _ _ hst
  | notFound _ _ _ hst
  | shutdown _ _ _ _ hst | dropped _ _ _ hst | cleared _ _ _ hst | next _ _ _ _ hst
  | looked _ _ _ _ _ hst | left _ _ _ _ _ _ _ hst | reconnected _ _ _ _ _ _ _ hst =>
    exact .nothing (hnone (by simp [hst])) rfl rfl
  | answered _ _ he => exact .nothing (hearly he) rfl rfl
  | revoked _ fp _ hcomm hst | revocationFailed _ fp _ hcomm hst =>
    have hidle := hnone (by simp [hst])
    obtain ⟨_, _, _⟩ := r
    cases hcomm
    cases hst
    exact .revokes fp (by simp only [unpairs, hr]) hidle rfl (s.store.revokePeer_peers fp write)
  | hid fp _ he _ hw houtc =>
    subst hw
    refine .entombs [fp] (hearly he) rfl ?_ (by rw [hideRevokedPeer, if_neg (by simp [houtc])]; rfl)
    intro l hl
    obtain rfl := mem_singleton.mp hl
    exact revoked_of_hideOutcome houtc
  | hidAll fp rest _ he _ hw htarg =>
    subst hw
    refine .entombs (fp :: rest) (hearly he) rfl ?_ (by simp only [hideAllRevokedPeers, htarg]; rfl)
    intro l hl
    rw [← htarg] at hl
    exact revoked_of_mem_targets hl
  | granted _ fp capability granted p hcomm hst _ htrus
  | grantFailed _ fp capability granted p _ _ hcomm hst _ htrus =>
    refine .edits fp p _ _ (hnone (by simp [hst])) rfl htrus ?_ ?_
      (s.store.setCapabilityGrant_peers fp write capability granted)
    · exact fun q => ⟨rfl, rfl, rfl⟩
    · intro q id hid
      rw [grant, get_insert] at hid
      split at hid
      swap
      · exact .inl hid
      cases hid
      subst id
      refine .inr ?_
      obtain ⟨_, _, _⟩ := r
      cases hcomm
      cases hst
      simp only [grants, hr]
  | clipboardPolicy _ fp _ _ p _ _ hst htrus =>
    refine .edits fp p _ _ (hnone (by simp [hst])) rfl htrus ?_ ?_
      (s.store.setClipboardPolicy_peers fp write _)
    · exact fun q => ⟨rfl, rfl, rfl⟩
    · exact fun q id hid => .inl hid
  | policyWritten _ setting fp updated _ _ hcomm hst =>
    refine .writes ⟨fp, setting, updated, write⟩ ?_ rfl
      (s.store.setNotificationPolicy_peers fp write updated)
    obtain ⟨_, _, _⟩ := r
    cases hcomm
    cases hst
    simp only [policyWrite, hr]

end

theorem storePeer_store (i : Nat) (c : Connection Fp) (time : Int) (write) :
    (s.storePeer x i c time write).store =
      (s.store.addPeer (x.newPeer c.device c.fingerprint (x.negotiate c.advertised) c.version time)
      write).2 := by
  cases write with
  | _ => rfl

theorem touches_of_step (h : s.step x a = some t) : Touches x s a t.store.peers := by
  cases step_cases h with
  | accept | request | abandon | establish | clear | finish => exact .nothing rfl rfl rfl
  | lookup i c =>
    obtain ⟨_, hu⟩ := lookup_eq x i c s
    exact .nothing rfl rfl (by rw [hu]; rfl)
  | storePeer i c time write hc =>
    refine .paired i c time write rfl hc rfl ?_ ?_
    · simp only [pairs, hc, map_some]
    · rw [storePeer_store, addPeer_peers]
  | reread i c =>
    obtain ⟨_, hu⟩ := reread_eq x i c s
    exact .nothing rfl rfl (by rw [hu]; rfl)
  | register i c negotiated =>
    obtain ⟨_, hu⟩ := register_eq i s c.fingerprint negotiated
    exact .nothing rfl rfl (by rw [hu])
  | unregister i c =>
    obtain ⟨_, hu⟩ := unregister_eq i s c.fingerprint
    exact .nothing rfl rfl (by rw [hu]; rfl)
  | proceed i r _ _ _ hr hh =>
    have htouch := touches_of_handles hr hh
    exact htouch

/-- A revoked record has nothing left, and what is off the list is revoked. -/
def Inert (s : Daemon Fp) : Prop :=
  ∀ fp p, s.store.peers.get fp = some p → (p.revoked → p.Withdrawn) ∧ (p.hidden → p.revoked)

/-- A policy that was read earlier is written to a record that is not revoked, or denies all. -/
def WritesLive (s : Daemon Fp) (a : Action Fp ε) : Prop :=
  ∀ w ∈ s.policyWrite a, ∀ p ∈ s.store.peers.get w.fp, p.revoked → w.updated = .denied

theorem writesLive_of_none (h : s.policyWrite a = none) : s.WritesLive a := by
  intro w hw
  rw [h] at hw
  cases hw

variable {f : TrustedPeer Fp → TrustedPeer Fp}

theorem inert_modify_iff {hf} (hs : s.Inert) (ht : t.store.peers = s.store.peers.modify fp f hf) :
    t.Inert ↔ ∀ p ∈ s.store.peers.get fp, ((f p).revoked → (f p).Withdrawn) ∧
      ((f p).hidden → (f p).revoked) := by
  have hget : ∀ l, t.store.peers.get l = if l = fp then (s.store.peers.get l).map f
      else s.store.peers.get l := by
    intro l
    rw [ht, Peers.get_modify]
  constructor
  · intro h p hp
    refine h fp (f p) ?_
    rw [hget, if_pos rfl, mem_def.mp hp, map_some]
  · intro h l q hq
    rw [hget] at hq
    split at hq
    · rename_i hl
      subst hl
      obtain ⟨p, hp, rfl⟩ := map_eq_some_iff.mp hq
      exact h p hp
    · exact hs l q hq

theorem step_inert_iff (hs : s.Inert) (h : s.step x a = some t) : t.Inert ↔ s.WritesLive a := by
  cases touches_of_step h with
  | nothing hw _ hpeers =>
    refine iff_of_true ?_ (writesLive_of_none hw)
    rw [Inert, hpeers]
    exact hs
  | revokes _ _ hw _ hpeers =>
    refine iff_of_true ((inert_modify_iff hs hpeers).mpr ?_) (writesLive_of_none hw)
    exact fun p _ => ⟨fun _ => ⟨rfl, rfl, rfl, rfl⟩, fun _ => rfl⟩
  | entombs _ hw _ _ hpeers =>
    refine iff_of_true ?_ (writesLive_of_none hw)
    intro l p hp
    rw [hpeers] at hp
    rcases Peers.get_foldl_entomb hp with hp | ⟨q, _, _, rfl⟩
    · exact hs l p hp
    · exact ⟨fun _ => ⟨rfl, rfl, rfl, rfl⟩, fun _ => rfl⟩
  | edits fp p f _ hw _ htrus hkeep _ hpeers =>
    refine iff_of_true ((inert_modify_iff hs hpeers).mpr ?_) (writesLive_of_none hw)
    intro q hq
    obtain ⟨hget, hlive⟩ := trustedPeer_eq_some.mp htrus
    obtain rfl := mem_unique hget hq
    obtain ⟨hr, hh, -⟩ := hkeep p
    have hhidden := (hs fp p hget).2
    rw [hr, hh, hlive] at *
    exact ⟨nofun, hhidden⟩
  | writes w hw _ hpeers =>
    rw [inert_modify_iff hs hpeers]
    constructor
    · intro hall _ hw' p hp hrev
      obtain rfl := mem_unique hw hw'
      exact ((hall p hp).1 hrev).2.2.2
    · intro hlive p hp
      have hold := hs w.fp p hp
      refine ⟨fun hrev => ?_, hold.2⟩
      obtain ⟨hr, hgr, hclip, -⟩ := hold.1 hrev
      exact ⟨hr, hgr, hclip, hlive w hw p hp hrev⟩
  | paired i c _ _ _ _ hw _ hpeers =>
    refine iff_of_true ?_ (writesLive_of_none hw)
    intro l p hp
    rw [hpeers, Peers.get_insert] at hp
    split at hp
    · cases hp
      exact ⟨nofun, nofun⟩
    · exact hs l p hp

def fresh : Daemon Fp := { store := ⟨.empty, []⟩ }

theorem fresh_inert : (fresh : Daemon Fp).Inert := fun _ _ h => by cases h

/-- Revoked records stay without grants and policies exactly where no request writes a
policy to a record that was revoked since the request read it. -/
theorem revoked_records_inert_iff {as : List (Action Fp ε)} (h : run (step x) fresh as = some t) :
    Always (step x) Inert fresh as ↔ Meets (step x) WritesLive fresh as :=
  @always_iff_meets _ _ (step x) WritesLive (fun _ => True) Inert (fun _ _ _ _ _ => trivial)
    (fun _ _ _ _ hs h => step_inert_iff hs h) as fresh t h trivial fresh_inert

instance (s : Daemon Fp) (a : Action Fp ε) : Decidable (s.WritesLive a) :=
  inferInstanceAs (Decidable (∀ w ∈ s.policyWrite a, _))

/-- A daemon that implements two capabilities and grants one of them by itself. -/
def sampleConfig : Config Nat Unit :=
  { registry := ["battery.v1", "notifications.v1"]
    autoGrant := ["battery.v1"]
    sanitizeDeviceName := id
    toHex := fun _ => ""
    fromHex := fun _ => some 7
    toDisplayShort := fun _ => "0007"
    normalize := id
    describe := fun _ => "disk full" }

def pairing : List (Action Nat Unit) :=
  [.accept 7 ⟨"phone", "Phone", 1⟩ ["battery.v1", "notifications.v1"] 1, .lookup 0,
    .storePeer 0 0 (.ok ())]

def editUnpairHide : List (Action Nat Unit) :=
  pairing ++ [Action.request (.notificationsPolicy "phone" (.dismissSync true)),
    .proceed 0 (.ok ()), .proceed 0 (.ok ()), .proceed 0 (.ok ()), .request (.unpair "phone"),
    .proceed 1 (.ok ()), .proceed 1 (.ok ()), .request (.hideRevoked "07"), .proceed 2 (.ok ()),
    .proceed 2 (.ok ())]

theorem revoked_records_inert_in_turn :
    ∃ t, run (step sampleConfig) fresh editUnpairHide = some t ∧
      (t.store.peers.get 7).map TrustedPeer.hidden = some true ∧
      Always (step sampleConfig) Inert fresh editUnpairHide :=
  ⟨_, rfl, rfl, (revoked_records_inert_iff rfl).mpr (by decide)⟩

/-- The phone is revoked after a policy edit has read its record and before the edit writes. -/
theorem revoked_record_gets_policy :
    ∃ t, run (step sampleConfig) fresh
        (pairing ++ [.request (.notificationsPolicy "phone" (.dismissSync true)),
          .proceed 0 (.ok ()), .proceed 0 (.ok ()), .request (.unpair "phone"), .proceed 1 (.ok ()),
          .proceed 1 (.ok ()), .proceed 0 (.ok ())]) = some t ∧
      (t.requests[0]?).map Request.stage = some (.answered (some 7) (.ok "0007 dismiss-sync=on")) ∧
      (t.store.peers.get 7).map revoked = some true ∧
      (t.store.peers.get 7).map notificationPolicy = some ⟨true, .appOnly, true⟩ ∧ ¬ t.Inert := by
  refine ⟨_, rfl, by decide, rfl, rfl, ?_⟩
  intro h
  have hinert := h 7 _ rfl
  exact absurd (hinert.1 rfl).2.2.2 (by decide)

def Trusts (fp : Fp) (s : Daemon Fp) : Prop :=
  ∃ deviceId deviceName granted, s.store.lookupPeer fp = .trusted deviceId deviceName granted

theorem trusts_iff : s.Trusts fp ↔ ∃ p, s.store.peers.get fp = some p ∧ p.revoked = false := by
  constructor
  · rintro ⟨_, _, _, h⟩
    obtain ⟨p, hp, -⟩ := lookupPeer_trusted h
    exact ⟨p, trustedPeer_eq_some.mp hp⟩
  · rintro ⟨p, hp, hrev⟩
    refine ⟨p.deviceId, p.deviceName, p.granted, ?_⟩
    simp [lookupPeer, peerRecord, hp, hrev]

def LeavesUnpaired (fp : Fp) (s : Daemon Fp) (a : Action Fp ε) : Prop :=
  s.pairs a ≠ some (fp, .ok ())

def StoresWhole (fp : Fp) (s : Daemon Fp) (a : Action Fp ε) : Prop :=
  ∀ e, s.pairs a ≠ some (fp, .error e)

theorem storesWhole_of_none (h : s.pairs a = none) : s.StoresWhole fp a := by
  intro e he
  rw [h] at he
  cases he

theorem not_trusts_modify {l hf} (hrev : ∀ p, p.revoked → (f p).revoked)
    (ht : t.store.peers = s.store.peers.modify l f hf) (hs : ¬ s.Trusts fp) : ¬ t.Trusts fp := by
  rw [trusts_iff] at hs ⊢
  rintro ⟨p, hp, hlive⟩
  rw [ht, Peers.get_modify] at hp
  split at hp
  · obtain ⟨q, hq, rfl⟩ := map_eq_some_iff.mp hp
    cases hq' : q.revoked with
    | false => exact hs ⟨q, hq, hq'⟩
    | true =>
      rw [hrev q hq'] at hlive
      cases hlive
  · exact hs ⟨p, hp, hlive⟩

theorem step_untrusted_iff (hdom : s.LeavesUnpaired fp a) (hs : ¬ s.Trusts fp)
    (h : s.step x a = some t) : ¬ t.Trusts fp ↔ s.StoresWhole fp a := by
  cases touches_of_step h with
  | nothing _ hpairs hpeers =>
    refine iff_of_true ?_ (storesWhole_of_none hpairs)
    rw [trusts_iff, hpeers, ← trusts_iff]
    exact hs
  | revokes l _ _ hpairs hpeers =>
    exact iff_of_true (not_trusts_modify (fun _ _ => rfl) hpeers hs) (storesWhole_of_none hpairs)
  | entombs _ _ hpairs _ hpeers =>
    refine iff_of_true ?_ (storesWhole_of_none hpairs)
    rw [trusts_iff] at hs ⊢
    rintro ⟨p, hp, hlive⟩
    rw [hpeers] at hp
    rcases Peers.get_foldl_entomb hp with hp | ⟨q, _, _, rfl⟩
    · exact hs ⟨p, hp, hlive⟩
    · cases hlive
  | edits l p f _ _ hpairs _ hkeep _ hpeers =>
    refine iff_of_true (not_trusts_modify ?_ hpeers hs) (storesWhole_of_none hpairs)
    exact fun q hq => (hkeep q).1.trans hq
  | writes w _ hpairs hpeers =>
    refine iff_of_true (not_trusts_modify ?_ hpeers hs) (storesWhole_of_none hpairs)
    exact fun q hq => hq
  | paired i c time write _ _ _ hpairs hpeers =>
    rw [trusts_iff] at hs
    rw [trusts_iff, hpeers, Peers.get_insert, StoresWhole, hpairs]
    by_cases hfp : fp = c.fingerprint
    · subst hfp
      cases write with
      | ok => exact absurd hpairs hdom
      | error e =>
        refine iff_of_false (not_not.mpr ⟨_, if_pos rfl, rfl⟩) ?_
        exact fun hall => hall e rfl
    · have hoth : ¬ fp = (x.newPeer c.device c.fingerprint (x.negotiate c.advertised) c.version
          time).fingerprint :=
        hfp
      refine iff_of_true ?_ ?_
      · rw [if_neg hoth]
        exact hs
      · intro e he
        exact hfp (Prod.mk.inj (some.inj he)).1.symm

theorem untrusted_of_unpair {write} (hr : s.requests[i]? = some r)
    (hcomm : r.command = .unpair device) (hst : r.stage = .resolved fp)
    (h : s.step x (.proceed i write) = some t) : ¬ t.Trusts fp := by
  have hpeers : t.store.peers = s.store.peers.modify fp .revoke revoke_fingerprint := by
    simp only [step, hr, bind_some, Request.proceed, hst, hcomm, map_some] at h
    cases h
    rw [← s.store.revokePeer_peers fp write]
    unfold Request.unpair
    split <;> simp_all [Request.enter, Request.answer, Request.withStore]
  rw [trusts_iff]
  rintro ⟨p, hp, hlive⟩
  have hget := Peers.get_modify s.store.peers fp fp revoke (fun _ => rfl)
  rw [← hpeers, hp, if_pos rfl] at hget
  obtain ⟨q, _, rfl⟩ := map_eq_some_iff.mp hget.symm
  cases hlive

theorem storePeer_clean {time} (h : s.step x (.storePeer i time (.ok ())) = some t) :
    ∃ c p, s.connections[i]? = some c ∧ t.store.trustedPeer c.fingerprint = some p ∧
      p.hidden = false ∧ (∀ id, p.grantedCapabilities.get id = some true ↔
      id ∈ x.negotiate c.advertised ∧ id ∈ x.autoGrant) ∧ p.clipboardPolicy = {} ∧
      p.notificationPolicy = {} := by
  cases step_cases h with
  | storePeer _ c _ _ hc =>
    refine ⟨c, x.newPeer c.device c.fingerprint (x.negotiate c.advertised) c.version time, hc, ?_,
      rfl, ?_, rfl, rfl⟩
    · rw [trustedPeer_eq_some, storePeer_store, addPeer_peers, Peers.get_insert]
      exact ⟨if_pos rfl, rfl⟩
    · exact newPeer_grants x c.device c.fingerprint (x.negotiate c.advertised) c.version time

/-- A pairing starts clean in every state. After an unpair and until the next pairing
completes, the peer is never trusted exactly where no `store_peer` of it fails. -/
theorem repairing_starts_clean_iff :
    (∀ (s t : Daemon Fp) (i : Nat) (time : Int), s.step x (.storePeer i time (.ok ())) = some t →
      ∃ c p, s.connections[i]? = some c ∧ t.store.trustedPeer c.fingerprint = some p ∧
        p.hidden = false ∧ (∀ id, p.grantedCapabilities.get id = some true ↔
          id ∈ x.negotiate c.advertised ∧ id ∈ x.autoGrant) ∧
        p.clipboardPolicy = {} ∧ p.notificationPolicy = {}) ∧
    ∀ (s t u : Daemon Fp) (i : Nat) (r : Request Fp) (device : String) (fp : Fp)
      (write : Except ε Unit) (as : List (Action Fp ε)), s.requests[i]? = some r →
      r.command = .unpair device → r.stage = .resolved fp → s.step x (.proceed i write) = some t →
      run (step x) t as = some u → Meets (step x) (LeavesUnpaired fp) t as →
      (Always (step x) (fun v => ¬ v.Trusts fp) t as ↔ Meets (step x) (StoresWhole fp) t as) := by
  constructor
  · intro s t i _ h
    exact storePeer_clean h
  · intro s t u i r _ fp _ as hr hcomm hst h hrun hdom
    have ht := untrusted_of_unpair hr hcomm hst h
    exact @always_iff_meets_of_meets _ _ (step x) (LeavesUnpaired fp) (StoresWhole fp)
      (fun _ => True) (fun v => ¬ v.Trusts fp) (fun _ _ _ _ _ _ => trivial) (fun _ _ _ hd _ hs h =>
        step_untrusted_iff hd hs h)
      as t u hrun hdom trivial ht

instance [DecidableEq ε] (fp : Fp) (s : Daemon Fp) (a : Action Fp ε) :
    Decidable (s.LeavesUnpaired fp a) :=
  inferInstanceAs (Decidable (s.pairs a ≠ some (fp, .ok ())))

instance (fp : Fp) (s : Daemon Fp) (a : Action Fp ε) : Decidable (s.StoresWhole fp a) :=
  match h : s.pairs a with
  | none => isTrue (storesWhole_of_none h)
  | some (_, .ok ()) => isTrue (by simp [StoresWhole, h])
  | some (l, .error e) => decidable_of_iff (l ≠ fp) (by simp [StoresWhole, h])

def unpairing : Daemon Nat :=
  (run (step sampleConfig) fresh (pairing ++ [Action.request (.unpair "phone"),
    .proceed 0 (.ok ())])).getD fresh

theorem repairing_starts_clean_after_unpair :
    ∃ t, unpairing.step sampleConfig (.proceed 0 (.error ())) = some t ∧
      Always (step sampleConfig) (fun v => ¬ v.Trusts 7) t [.request (.hideRevoked "07"),
      .proceed 1 (.ok ()), .proceed 1 (.ok ()), .accept 7 ⟨"phone", "Phone", 1⟩ [] 1,
      .lookup 1] := by
  have h := repairing_starts_clean_iff (x := sampleConfig)
  refine ⟨_, rfl, (h.2 unpairing _ _ 0 _ "phone" 7 (.error ()) _ rfl rfl rfl rfl rfl ?_).mpr ?_⟩
  all_goals decide

/-- The phone is unpaired and pairs again, but `store_peer` fails: no pairing is completed, and
the next handshake finds the phone trusted. -/
theorem failed_pairing_is_trusted :
    ∃ t u, unpairing.step sampleConfig (.proceed 0 (.ok ())) = some t ∧
      run (step sampleConfig) t [.accept 7 ⟨"phone", "Phone", 1⟩ ["battery.v1"] 1, .lookup 1,
      .storePeer 1 0 (.error ())] = some u ∧ u.pairings = t.pairings ∧
      (u.connections[1]?).map Connection.phase = some .closed ∧ ¬ t.Trusts 7 ∧ u.Trusts 7 := by
  refine ⟨_, _, rfl, rfl, rfl, rfl, ?_, "phone", "Phone", ["battery.v1"], rfl⟩
  rw [trusts_iff]
  rintro ⟨p, hp, hlive⟩
  cases hp
  cases hlive

end Daemon

namespace Store

variable {s : Store Fp}

theorem mem_listedPeers {p} (h : p ∈ s.listedPeers) :
    s.peers.get p.fingerprint = some p ∧ p.hidden = false := by
  obtain ⟨hmem, hlist⟩ := mem_filter.mp h
  obtain ⟨⟨fp', p⟩, hentry, rfl⟩ := List.mem_map.mp hmem
  have hget := get_eq_some_iff.mpr hentry
  exact ⟨(s.peers.keyed _ _ hget).symm ▸ hget, by simpa [isListed] using hlist⟩

/-- Whether a selector names a peer, by its id or by the start of its fingerprint. -/
def names (x : Config Fp ε) (needle : String) (p : TrustedPeer Fp) : Bool :=
  needle ≠ "" && p.deviceId = needle ||
    8 ≤ needle.utf8ByteSize && needle.toList.isPrefixOf (x.toHex p.fingerprint).toList

/-- The first holder of an id is taken, whoever else the selector names. -/
theorem resolveDevice_unique_iff (x : Config Fp ε) (s : Store Fp) (selector : String) :
    let named := s.listedPeers.filter (names x (x.normalize selector))
    (∀ fp, s.resolveDevice x selector = .ok fp →
      ∃ p ∈ named, s.peers.get fp = some p ∧ p.hidden = false) ∧
    ((∀ fp, s.resolveDevice x selector = .ok fp → named.length = 1) ↔
      ∀ p ∈ s.listedPeers, x.normalize selector ≠ "" → p.deviceId = x.normalize selector →
        named.length = 1) := by
  simp only [resolveDevice]
  generalize x.normalize selector = needle
  generalize hnam : s.listedPeers.filter (names x needle) = named
  cases hfind : if needle = "" then none else s.listedPeers.find? (·.deviceId = needle) with
  | some p =>
    obtain ⟨hne, hfound⟩ := ite_none_left_eq_some.mp hfind
    have hid : p.deviceId = needle := by simpa using find?_some hfound
    have hp := mem_of_find?_eq_some hfound
    refine ⟨fun fp h => ?_, fun h _ _ _ _ => h _ rfl, fun h _ _ => h p hp hne hid⟩
    cases h
    exact ⟨p, hnam ▸ mem_filter.mpr ⟨hp, by simp [names, hne, hid]⟩, mem_listedPeers hp⟩
  | none =>
    have hnone : ∀ p ∈ s.listedPeers, needle ≠ "" → p.deviceId ≠ needle := by
      intro p hp hne
      rw [if_neg hne, find?_eq_none] at hfind
      simpa using hfind p hp
    have hvac : ∀ p ∈ s.listedPeers, needle ≠ "" → p.deviceId = needle → named.length = 1 :=
      fun p hp hne hid => absurd hid (hnone p hp hne)
    by_cases hshort : needle.utf8ByteSize < 8
    · simp only [if_pos hshort]
      exact ⟨nofun, fun _ => hvac, nofun⟩
    have hpre : s.listedPeers.filter
        (fun p => needle.toList.isPrefixOf (x.toHex p.fingerprint).toList) = named := by
      rw [← hnam]
      refine filter_congr fun p hp => ?_
      by_cases hne : needle = "" <;> simp_all [names]
    simp only [if_neg hshort, hpre]
    rcases named with _ | ⟨p, _ | ⟨q, rest⟩⟩
    · exact ⟨nofun, fun _ => hvac, nofun⟩
    · refine ⟨fun fp h => ?_, fun _ => hvac, fun _ _ _ => rfl⟩
      cases h
      have hp : p ∈ s.listedPeers.filter (names x needle) := hnam ▸ mem_singleton_self p
      exact ⟨p, mem_singleton_self p, mem_listedPeers (mem_filter.mp hp).1⟩
    · exact ⟨nofun, fun _ => hvac, nofun⟩

theorem first_of_two_phones_resolved :
    let phone (fp : Nat) : TrustedPeer Nat :=
      ⟨"phone", "Phone", 1, fp, 0, .empty, 1, false, false, {}, {}⟩
    let s : Store Nat := ⟨(Peers.empty.insert (phone 1)).insert (phone 2), []⟩
    s.listedPeers.map deviceId = ["phone", "phone"] ∧
      s.resolveDevice Daemon.sampleConfig "phone" = .ok 1 := by
  exact ⟨by decide, rfl⟩

end Store

end OmniBridge.Desktop
