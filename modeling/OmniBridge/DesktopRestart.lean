import OmniBridge.DesktopTrust

/-! The trust store over restarts: a store is loaded from the last document written, and the
memory comes back from it as it was wherever the memory follows the document. -/

namespace OmniBridge.Desktop

open List Option Store TrustedPeer Peers

variable {Fp ε : Type} [LinearOrder Fp]

namespace Peers

variable {l : List (TrustedPeer Fp)}

theorem get_foldl_insert_of_notMem {fp} (h : fp ∉ l.map fingerprint) (peers : Peers Fp) :
    (l.foldl insert peers).get fp = peers.get fp := by
  induction l generalizing peers with
  | nil => rfl
  | cons p l ih =>
    obtain ⟨hne, hrest⟩ := not_or.mp (mem_cons.not.mp h)
    rw [foldl_cons, ih hrest, get_insert, if_neg hne]

theorem get_foldl_insert_of_mem {p} (hl : (l.map fingerprint).Nodup) (h : p ∈ l)
    (peers : Peers Fp) : (l.foldl insert peers).get p.fingerprint = some p := by
  induction l generalizing peers with
  | nil => cases h
  | cons q l ih =>
    obtain ⟨hq, hl⟩ := nodup_cons.mp hl
    rcases mem_cons.mp h with rfl | h
    · rw [foldl_cons, get_foldl_insert_of_notMem hq, get_insert, if_pos rfl]
    · exact ih hl h _

theorem foldl_insert_values (peers : Peers Fp) : peers.values.foldl insert empty = peers := by
  have hkeys : peers.values.map fingerprint = peers.records.keys := by
    rw [values, List.map_map]
    exact map_congr_left (fun e he => peers.keyed e.1 e.2 (SortedMap.get_eq_some_iff.mpr he))
  refine ext_records (SortedMap.ext_get (fun fp => ?_))
  cases hget : peers.records.get fp with
  | none =>
    have hfp := SortedMap.get_eq_none_iff.mp hget
    rw [← hkeys] at hfp
    exact get_foldl_insert_of_notMem hfp _
  | some p =>
    have hmem : p ∈ peers.values := mem_map.mpr ⟨_, SortedMap.get_eq_some_iff.mp hget, rfl⟩
    have hp := get_foldl_insert_of_mem (hkeys ▸ peers.records.nodup_keys) hmem empty
    rwa [peers.keyed fp p hget] at hp

end Peers

structure Settings where
  deviceName : String
  listenPort : UInt16 := 55432
  autoGrant : List String := ["battery.v1"]

/-- The document, but for the schema version and the identity, which it repeats. -/
structure StateFile (Fp : Type) where
  settings : Settings
  peers : List (TrustedPeer Fp)

/-- Hidden implies revoked, decided here rather than believed from the file. -/
def TrustedPeer.read (p : TrustedPeer Fp) : TrustedPeer Fp :=
  if p.hidden then { p with revoked := true } else p

def TrustedPeer.Sound (p : TrustedPeer Fp) : Prop := p.hidden → p.revoked

/-- An open store. No call changes the settings, so each document it writes has those it was
opened with. -/
structure OpenStore (Fp : Type) [LinearOrder Fp] where
  settings : Settings
  store : Store Fp

inductive OpenStore.Action (Fp ε : Type) where
  | call (call : Call Fp) (write : Except ε Unit)
  | restart

namespace OpenStore

def firstRun (deviceName : String) : OpenStore Fp := ⟨{ deviceName }, ⟨.empty, []⟩⟩

section

variable (o : OpenStore Fp)

def stateDocument : StateFile Fp := ⟨o.settings, o.store.peers.values⟩

def persisted : StateFile Fp := ⟨o.settings, o.store.document⟩

def load (state : StateFile Fp) : OpenStore Fp :=
  ⟨state.settings, (state.peers.map .read).foldl insert .empty, state.peers⟩

def step : Action Fp ε → Option (OpenStore Fp)
  | .call call write => some { o with store := (o.store.apply write call).2 }
  | .restart => some (load o.persisted)

/-- A failing call changes nothing in memory, and no peer is added that is hidden and trusted. -/
def Keeps : Action Fp ε → Prop
  | .call call write => o.store.RollsBack (call, write) ∧ ∀ p, call = .addPeer p → p.Sound
  | .restart => True

end

def Action.hides : Action Fp ε → Bool
  | .call (.hideRevokedPeer _) _ | .call .hideAllRevokedPeers _ | .restart => true
  | _ => false

structure Sound (o : OpenStore Fp) : Prop where
  synced : o.store.Synced
  peers : ∀ fp, ∀ p ∈ o.store.peers.get fp, p.Sound

variable {o t : OpenStore Fp} {a : Action Fp ε}

theorem Sound.load_persisted (h : o.Sound) : load o.persisted = o := by
  obtain ⟨_, peers, document⟩ := o
  obtain rfl : document = peers.values := h.synced
  have hread : peers.values.map .read = peers.values.map id := by
    refine map_congr_left (fun p hp => ?_)
    have hsound := h.peers p.fingerprint p (get_of_mem_values hp)
    unfold TrustedPeer.read
    split
    · next hhidden =>
      obtain ⟨⟩ := p
      cases hsound hhidden
      rfl
    · rfl
  simp only [load, persisted, hread, List.map_id, foldl_insert_values]

variable {call : Call Fp} {s : Store Fp}

theorem hides_peers {write : Except ε Unit} (h : (Action.call call write).hides) :
    ∃ fps : List Fp, (∀ fp ∈ fps, ∀ p ∈ s.peers.get fp, p.revoked) ∧
      (s.apply write call).2.peers = fps.foldl entomb s.peers := by
  cases call with
  | hideRevokedPeer fp =>
    simp only [apply, hideRevokedPeer]
    split
    · exact ⟨[], by simp, rfl⟩
    · next hhidden =>
      cases write with
      | ok =>
        refine ⟨[fp], fun l hl => ?_, rfl⟩
        obtain rfl := mem_singleton.mp hl
        exact revoked_of_hideOutcome (not_not.mp hhidden)
      | error => exact ⟨[], by simp, rfl⟩
  | hideAllRevokedPeers =>
    simp only [apply, hideAllRevokedPeers]
    split
    · exact ⟨[], by simp, rfl⟩
    · cases write with
      | ok => exact ⟨_, fun _ => revoked_of_mem_targets, rfl⟩
      | error => exact ⟨[], by simp, rfl⟩
  | _ => cases h

theorem lookupPeer_foldl_entomb {fps : List Fp} {s t : Store Fp}
    (h : ∀ fp ∈ fps, ∀ p ∈ s.peers.get fp, p.revoked) (ht : t.peers = fps.foldl entomb s.peers)
    (fp : Fp) : t.lookupPeer fp = s.lookupPeer fp := by
  unfold lookupPeer peerRecord
  rw [ht]
  clear ht
  generalize s.peers = peers at h ⊢
  induction fps generalizing peers with
  | nil => rfl
  | cons l _ ih =>
    rw [foldl_cons, ih, get_entomb]
    · by_cases hl : fp = l
      · subst hl
        cases hget : peers.get fp with
        | none => simp
        | some p => simp [intoTombstone, h fp mem_cons_self p hget]
      · rw [if_neg hl]
    · intro k hk p hp
      rw [get_entomb] at hp
      split at hp
      · obtain ⟨q, -, rfl⟩ := map_eq_some_iff.mp hp
        rfl
      · exact h k (mem_cons_of_mem _ hk) p hp

theorem apply_sound (write : Except ε Unit) (hadd : ∀ p, call = .addPeer p → p.Sound)
    (h : ∀ fp, ∀ p ∈ s.peers.get fp, p.Sound) :
    ∀ fp, ∀ p ∈ (s.apply write call).2.peers.get fp, p.Sound := by
  have hmod : ∀ {l f hf}, (∀ q : TrustedPeer Fp, q.Sound → (f q).Sound) →
      ∀ fp, ∀ p ∈ (s.peers.modify l f hf).get fp, p.Sound := by
    intro l f _ hsound fp p hp
    rw [get_modify] at hp
    split at hp
    · obtain ⟨q, hq, rfl⟩ := map_eq_some_iff.mp hp
      exact hsound q (h fp q hq)
    · exact h fp p hp
  have hent : ∀ {call : Call Fp}, (Action.call call write).hides →
      ∀ fp, ∀ p ∈ (s.apply write call).2.peers.get fp, p.Sound := by
    intro _ hhides fp p hp
    obtain ⟨_, -, hpeers⟩ := hides_peers (s := s) hhides
    rw [hpeers] at hp
    rcases get_foldl_entomb hp with hp | ⟨q, -, -, rfl⟩
    · exact h fp p hp
    · exact fun _ => rfl
  cases call with
  | addPeer peer =>
    intro fp p hp
    rw [apply, addPeer_peers, get_insert] at hp
    split at hp
    · cases hp
      exact hadd peer rfl
    · exact h fp p hp
  | revokePeer =>
    simp only [apply, Prod.map_snd, id_eq, revokePeer_peers]
    exact hmod (fun _ _ _ => rfl)
  | hideRevokedPeer | hideAllRevokedPeers => exact hent rfl
  | setCapabilityGrant | setClipboardPolicy | setNotificationPolicy =>
    simp only [apply, setCapabilityGrant_peers, setClipboardPolicy_peers,
      setNotificationPolicy_peers]
    exact hmod (fun _ hq => hq)
  | recordProtocolVersion =>
    simp only [apply, recordProtocolVersion, persist_peers]
    refine hmod (fun q hq => ?_)
    unfold recordVersion
    split <;> exact hq

theorem step_sound (hok : o.Keeps a) (hstep : o.step a = some t) (h : o.Sound) : t.Sound := by
  cases a with
  | call _ write =>
    cases hstep
    exact ⟨(step_synced_iff h.synced rfl).mpr hok.1, apply_sound write hok.2 h.peers⟩
  | restart =>
    cases hstep
    rwa [h.load_persisted]

theorem keeps_of_hides (h : a.hides) : o.Keeps a := by
  cases a with
  | call call =>
    cases call with
    | hideRevokedPeer | hideAllRevokedPeers =>
      exact ⟨fun _ _ => trivial, fun _ hcall => nomatch hcall⟩
    | _ => cases h
  | restart => trivial

theorem step_lookupPeer (ha : a.hides) (hstep : o.step a = some t) (h : o.Sound) (fp : Fp) :
    t.store.lookupPeer fp = o.store.lookupPeer fp := by
  cases a with
  | call =>
    cases hstep
    obtain ⟨_, hrev, hpeers⟩ := hides_peers (s := o.store) ha
    exact lookupPeer_foldl_entomb hrev hpeers fp
  | restart =>
    cases hstep
    rw [h.load_persisted]

/-- Where every failing call leaves the memory alone and no hidden peer is added as trusted, the
last document loads as the store it was written from and is what that store writes again, and no
restarts and hidden records change what a fingerprint is admitted as. -/
theorem load_persisted_eq {deviceName : String} {as : List (Action Fp ε)}
    (hrun : run step (firstRun deviceName) as = some o)
    (hok : Meets step Keeps (firstRun deviceName) as) :
    load o.persisted = o ∧ (load o.persisted).stateDocument = o.persisted ∧
      ∀ (bs : List (Action Fp ε)) (u : OpenStore Fp), (∀ b ∈ bs, b.hides) → run step o bs = some u →
      ∀ fp, u.store.lookupPeer fp = o.store.lookupPeer fp := by
  have hsound : o.Sound := run_invariant step (fun _ _ _ => step_sound) hrun hok ⟨rfl, fun _ _ hp =>
    nomatch hp⟩
  refine ⟨hsound.load_persisted, ?_, ?_⟩
  · rw [hsound.load_persisted, persisted, hsound.synced]
    rfl
  · intro bs u hbs hu fp
    clear hrun hok
    induction bs generalizing o with
    | nil =>
      cases hu
      rfl
    | cons b _ ih =>
      obtain ⟨t, ht, hu⟩ := run_cons_eq_some step hu
      have hb := hbs b mem_cons_self
      rw [ih (step_sound (keeps_of_hides hb) ht hsound)
        (fun c hc => hbs c (mem_cons_of_mem _ hc)) hu]
      exact step_lookupPeer hb ht hsound fp

def phone : TrustedPeer Nat := ⟨"id", "Phone", 1, 7, 0, .empty, 0, false, false, {}, {}⟩

def pairing : List (Action Nat Unit) :=
  [.call (.addPeer phone) (.ok ()), .call .hideAllRevokedPeers (.error ()), .restart]

theorem load_persisted_eq_paired :
    ∃ o, run step (firstRun "PC") pairing = some o ∧ load o.persisted = o ∧
      o.store.lookupPeer 7 = .trusted "id" "Phone" [] := by
  have hmeets : Meets step Keeps (firstRun "PC") pairing := by
    refine ⟨⟨fun _ hwrite => (nomatch hwrite), ?_⟩, ?_⟩
    · rintro _ ⟨⟩ ⟨⟩
    · rintro _ ⟨⟩
      exact ⟨⟨fun _ _ => trivial, fun _ hcall => nomatch hcall⟩, fun _ _ =>
        ⟨trivial, fun _ _ => trivial⟩⟩
  exact ⟨_, rfl, (load_persisted_eq rfl hmeets).1, rfl⟩

/-- The write of a revocation fails, and the device is trusted again after a restart. -/
theorem failed_revocation_undone_by_restart :
    ∃ o t, run step (firstRun "PC") [.call (.addPeer phone) (.ok ()),
      .call (.revokePeer 7) (.error ())] = some o ∧ o.store.lookupPeer 7 = .revoked ∧
      o.step (.restart : Action Nat Unit) = some t ∧
      t.store.lookupPeer 7 = .trusted "id" "Phone" [] :=
  ⟨_, _, rfl, rfl, rfl, rfl⟩

end OpenStore

end OmniBridge.Desktop
