import OmniBridge.ClipboardManager
import OmniBridge.SinkMessages
import OmniBridge.SortedMap
import OmniBridge.Run
import Mathlib.Data.String.Basic

/-! The desktop's trust store: the peers in memory and the document the last
successful write left. A write is given by its outcome; what a failing one raises
is a parameter. -/

namespace OmniBridge.Desktop

open SortedMap

open OmniBridge.Clipboard (ClipboardPolicy)
open OmniBridge.Sink (NotificationPolicy)

structure TrustedPeer (Fp : Type) where
  deviceId : String
  deviceName : String
  platform : Int
  fingerprint : Fp
  pairedAtUnix : Int
  grantedCapabilities : SortedMap String Bool := .empty
  lastProtocolVersion : Nat := 0
  revoked : Bool := false
  hidden : Bool := false
  clipboardPolicy : ClipboardPolicy := {}
  notificationPolicy : NotificationPolicy := {}
deriving DecidableEq

namespace TrustedPeer

variable {Fp : Type}

variable (p : TrustedPeer Fp)

variable (capabilityId : String)

def allows : Bool :=
  !p.revoked && (p.grantedCapabilities.get capabilityId).getD false

def isListed : Bool := !p.hidden

def intoTombstone : TrustedPeer Fp :=
  { deviceId := ""
    deviceName := ""
    platform := 0
    fingerprint := p.fingerprint
    pairedAtUnix := 0
    grantedCapabilities := .empty
    lastProtocolVersion := 0
    revoked := true
    hidden := true
    clipboardPolicy := .DENIED
    notificationPolicy := .denied }

def revoke : TrustedPeer Fp :=
  { p with
    revoked := true
    grantedCapabilities := .empty
    clipboardPolicy := .DENIED
    notificationPolicy := .denied }

def grant (granted : Bool) (p : TrustedPeer Fp) : TrustedPeer Fp :=
  { p with grantedCapabilities := p.grantedCapabilities.insert capabilityId granted }

def recordVersion (version : Nat) (p : TrustedPeer Fp) : TrustedPeer Fp :=
  if p.lastProtocolVersion < version then { p with lastProtocolVersion := version } else p

def Withdrawn : Prop :=
  p.revoked ∧ p.grantedCapabilities = .empty ∧ p.clipboardPolicy = .DENIED ∧
    p.notificationPolicy = .denied

instance (p : TrustedPeer Fp) : Decidable p.Withdrawn := inferInstanceAs (Decidable (_ ∧ _))

theorem revoke_eq_self_iff : p.revoke = p ↔ p.Withdrawn := by
  cases p
  simp only [revoke, Withdrawn, mk.injEq, true_and]
  constructor
  · rintro ⟨hgr, hrev, hclip, hnotify⟩
    exact ⟨hrev.symm, hgr.symm, hclip.symm, hnotify.symm⟩
  · rintro ⟨hrev, hgr, hclip, hnotify⟩
    exact ⟨hgr.symm, hrev.symm, hclip.symm, hnotify.symm⟩

theorem grant_eq_self_iff (granted : Bool) (p : TrustedPeer Fp) :
    p.grant capabilityId granted = p ↔ p.grantedCapabilities.get capabilityId = some granted := by
  rw [← insert_eq_self_iff]
  cases p
  simp [grant]

theorem recordVersion_eq_self_iff (version : Nat) (p : TrustedPeer Fp) :
    p.recordVersion version = p ↔ version ≤ p.lastProtocolVersion := by
  unfold recordVersion
  split
  · rename_i hlt
    refine iff_of_false (fun h => ?_) (Nat.not_le.mpr hlt)
    exact hlt.ne (congrArg lastProtocolVersion h).symm
  · exact iff_of_true rfl (by omega)

end TrustedPeer

/-- The peer map: every record is filed under its own fingerprint. -/
structure Peers (Fp : Type) [LinearOrder Fp] where
  records : SortedMap Fp (TrustedPeer Fp)
  keyed : ∀ fp p, records.get fp = some p → p.fingerprint = fp

variable {Fp ε : Type} [LinearOrder Fp]

namespace Peers

def empty : Peers Fp := ⟨.empty, fun _ _ h => by cases h⟩

def get (peers : Peers Fp) (fp : Fp) : Option (TrustedPeer Fp) := peers.records.get fp

def values (peers : Peers Fp) : List (TrustedPeer Fp) := peers.records.entries.map Prod.snd

def insert (peers : Peers Fp) (peer : TrustedPeer Fp) : Peers Fp where
  records := peers.records.insert peer.fingerprint peer
  keyed := by
    intro fp p h
    rw [get_insert] at h
    split at h
    · rename_i heq
      exact Option.some.inj h ▸ heq.symm
    · exact peers.keyed fp p h

def remove (peers : Peers Fp) (fp : Fp) : Peers Fp where
  records := peers.records.erase fp
  keyed := by
    intro l p h
    rw [get_erase, Option.ite_none_left_eq_some] at h
    exact peers.keyed l p h.2

def modify (peers : Peers Fp) (fp : Fp) (f : TrustedPeer Fp → TrustedPeer Fp)
    (hf : ∀ p, (f p).fingerprint = p.fingerprint) : Peers Fp where
  records := peers.records.modify fp f
  keyed := by
    intro l p h
    by_cases hl : l = fp
    · subst hl
      rw [get_modify_self, Option.map_eq_some_iff] at h
      obtain ⟨q, hq, rfl⟩ := h
      exact (hf q).trans (peers.keyed l q hq)
    · rw [get_modify_of_ne hl] at h
      exact peers.keyed l p h

def entomb (peers : Peers Fp) (fp : Fp) : Peers Fp :=
  match peers.get fp with
  | some p => (peers.remove fp).insert p.intoTombstone
  | none => peers

variable {peers peers' : Peers Fp}

theorem ext_records (h : peers.records = peers'.records) : peers = peers' := by
  cases peers
  cases peers'
  cases h
  rfl

theorem insert_eq_self_iff (peers : Peers Fp) (peer : TrustedPeer Fp) :
    peers.insert peer = peers ↔ peers.get peer.fingerprint = some peer := by
  constructor
  · exact fun h => SortedMap.insert_eq_self_iff.mp (congrArg records h)
  · exact fun h => ext_records (SortedMap.insert_eq_self_iff.mpr h)

theorem modify_eq_self_iff (peers : Peers Fp) (fp : Fp) {f : TrustedPeer Fp → TrustedPeer Fp}
    (hf : ∀ p, (f p).fingerprint = p.fingerprint) :
    peers.modify fp f hf = peers ↔ ∀ p ∈ peers.get fp, f p = p := by
  constructor
  · exact fun h => SortedMap.modify_eq_self_iff.mp (congrArg records h)
  · exact fun h => ext_records (SortedMap.modify_eq_self_iff.mpr h)

theorem values_injective (h : peers.values = peers'.values) : peers = peers' := by
  have hentr : ∀ p : Peers Fp, p.records.entries = p.values.map (fun r => (r.fingerprint, r)) := by
    intro p
    rw [values, List.map_map, List.map_congr_left (g := id), List.map_id]
    intro q hq
    exact Prod.ext (p.keyed q.1 q.2 (get_eq_some_iff.mpr hq)) rfl
  refine ext_records (ext_entries ?_)
  rw [hentr, hentr, h]

end Peers

inductive HideOutcome where
  | isHidden | notFound | notRevoked | alreadyHidden
deriving DecidableEq

/-- `document` is the peer list of the last document written. -/
structure Store (Fp : Type) [LinearOrder Fp] where
  peers : Peers Fp
  document : List (TrustedPeer Fp)

namespace Store

variable (s : Store Fp)

def persist (write : Except ε Unit) : Except ε Unit × Store Fp :=
  match write with
  | .ok () => (.ok (), { s with document := s.peers.values })
  | .error e => (.error e, s)

def addPeer (peer : TrustedPeer Fp) (write : Except ε Unit) : Except ε Unit × Store Fp :=
  { s with peers := s.peers.insert peer }.persist write

variable (fp : Fp)

variable (write : Except ε Unit)

def revokePeer : Except ε Bool × Store Fp :=
  match s.peers.get fp with
  | some _ =>
    match { s with peers := s.peers.modify fp .revoke (fun _ => rfl) }.persist write with
    | (.ok (), t) => (.ok true, t)
    | (.error e, t) => (.error e, t)
  | none => (.ok false, s)

/-- Swaps in a new peer map, and only keeps it if it reached the disk. -/
def commit (peers : Peers Fp) (write : Except ε Unit) : Except ε Unit × Store Fp :=
  match { s with peers := peers }.persist write with
  | (.ok (), t) => (.ok (), t)
  | (.error e, t) => (.error e, { t with peers := s.peers })

def hideOutcome : HideOutcome :=
  match s.peers.get fp with
  | none => .notFound
  | some p => if !p.revoked then .notRevoked else if p.hidden then .alreadyHidden else .isHidden

def hideRevokedPeer : Except ε HideOutcome × Store Fp :=
  if s.hideOutcome fp ≠ .isHidden then (.ok (s.hideOutcome fp), s)
  else match s.commit (s.peers.entomb fp) write with
    | (.ok (), t) => (.ok .isHidden, t)
    | (.error e, t) => (.error e, t)

def revokedListedPeers : List (TrustedPeer Fp) :=
  s.peers.values.filter (fun p => p.revoked && p.isListed)

def hideAllRevokedPeers : Except ε (List Fp) × Store Fp :=
  let targets := s.revokedListedPeers.map TrustedPeer.fingerprint
  if targets.isEmpty then (.ok [], s)
  else match s.commit (targets.foldl Peers.entomb s.peers) write with
    | (.ok (), t) => (.ok targets, t)
    | (.error e, t) => (.error e, t)

def setCapabilityGrant (capabilityId : String) (granted : Bool) (write : Except ε Unit) :
    Except ε Unit × Store Fp :=
  { s with peers := s.peers.modify fp (.grant capabilityId granted) (fun _ => rfl) }.persist write

def setClipboardPolicy (policy : ClipboardPolicy) (write : Except ε Unit) :
    Except ε Unit × Store Fp :=
  { s with
    peers := s.peers.modify fp ({ · with clipboardPolicy := policy }) (fun _ => rfl) }.persist write

def setNotificationPolicy (policy : NotificationPolicy) (write : Except ε Unit) :
    Except ε Unit × Store Fp :=
  { s with
    peers := s.peers.modify fp ({ · with notificationPolicy := policy })
      (fun _ => rfl) }.persist write

omit [LinearOrder Fp] in
theorem recordVersion_fingerprint (version : Nat) (p : TrustedPeer Fp) :
    (p.recordVersion version).fingerprint = p.fingerprint := by
  unfold TrustedPeer.recordVersion
  split <;> rfl

def recordProtocolVersion (version : Nat) (write : Except ε Unit) : Except ε Unit × Store Fp :=
  { s with
    peers := s.peers.modify fp (.recordVersion version)
      (recordVersion_fingerprint version) }.persist write

end Store

inductive Call (Fp : Type) where
  | addPeer (peer : TrustedPeer Fp)
  | revokePeer (fp : Fp)
  | hideRevokedPeer (fp : Fp)
  | hideAllRevokedPeers
  | setCapabilityGrant (fp : Fp) (capabilityId : String) (granted : Bool)
  | setClipboardPolicy (fp : Fp) (policy : ClipboardPolicy)
  | setNotificationPolicy (fp : Fp) (policy : NotificationPolicy)
  | recordProtocolVersion (fp : Fp) (version : Nat)

namespace Store

def apply (s : Store Fp) (write : Except ε Unit) : Call Fp → Except ε Unit × Store Fp
  | .addPeer peer => s.addPeer peer write
  | .revokePeer fp => (s.revokePeer fp write).map (Except.map (fun _ => ())) id
  | .hideRevokedPeer fp => (s.hideRevokedPeer fp write).map (Except.map (fun _ => ())) id
  | .hideAllRevokedPeers => (s.hideAllRevokedPeers write).map (Except.map (fun _ => ())) id
  | .setCapabilityGrant fp capabilityId granted =>
    s.setCapabilityGrant fp capabilityId granted write
  | .setClipboardPolicy fp policy => s.setClipboardPolicy fp policy write
  | .setNotificationPolicy fp policy => s.setNotificationPolicy fp policy write
  | .recordProtocolVersion fp version => s.recordProtocolVersion fp version write

/-- The call goes through `commit`, or asks for what the store already holds. -/
def Settled (s : Store Fp) : Call Fp → Prop
  | .addPeer peer => s.peers.get peer.fingerprint = some peer
  | .revokePeer fp => ∀ p ∈ s.peers.get fp, p.Withdrawn
  | .hideRevokedPeer _ | .hideAllRevokedPeers => True
  | .setCapabilityGrant fp capabilityId granted =>
    ∀ p ∈ s.peers.get fp, p.grantedCapabilities.get capabilityId = some granted
  | .setClipboardPolicy fp policy => ∀ p ∈ s.peers.get fp, p.clipboardPolicy = policy
  | .setNotificationPolicy fp policy => ∀ p ∈ s.peers.get fp, p.notificationPolicy = policy
  | .recordProtocolVersion fp version => ∀ p ∈ s.peers.get fp, version ≤ p.lastProtocolVersion

/-- What a call can do. The peers a failed write leaves are those before the call
exactly where the call was settled. -/
inductive Applies (s : Store Fp) (write : Except ε Unit) (call : Call Fp) :
    Except ε Unit × Store Fp → Prop
  | kept : (s.Settled call) → Applies s write call (.ok (), s)
  | written (peers : Peers Fp) : write = .ok () →
      Applies s write call (.ok (), ⟨peers, peers.values⟩)
  | failed (peers : Peers Fp) (e : ε) : write = .error e → (peers = s.peers ↔ s.Settled call) →
      Applies s write call (.error e, { s with peers := peers })

variable {call : Call Fp} {s : Store Fp}

theorem persist_applies {peers} (write : Except ε Unit) (h : peers = s.peers ↔ s.Settled call) :
    Applies s write call ({ s with peers := peers }.persist write) := by
  cases write with
  | ok => exact .written peers rfl
  | error e => exact .failed peers e rfl h

theorem modify_applies {fp} {f : TrustedPeer Fp → TrustedPeer Fp}
    (hf : ∀ p, (f p).fingerprint = p.fingerprint) (write : Except ε Unit)
    (h : (∀ p ∈ s.peers.get fp, f p = p) ↔ s.Settled call) :
    Applies s write call ({ s with peers := s.peers.modify fp f hf }.persist write) :=
  persist_applies write ((s.peers.modify_eq_self_iff fp hf).trans h)

variable (s : Store Fp)

theorem apply_cases (write : Except ε Unit) (call : Call Fp) :
    Applies s write call (s.apply write call) := by
  cases call with
  | addPeer peer => exact persist_applies write (s.peers.insert_eq_self_iff peer)
  | revokePeer fp =>
    cases hget : s.peers.get fp with
    | none =>
      have hsett : s.Settled (.revokePeer fp) := by simp [Settled, hget]
      simp only [apply, revokePeer, hget]
      exact .kept hsett
    | some =>
      have hiff : s.peers.modify fp .revoke (fun _ => rfl) = s.peers ↔
          s.Settled (.revokePeer fp) := by
        refine (s.peers.modify_eq_self_iff fp _).trans ?_
        simp only [TrustedPeer.revoke_eq_self_iff, Settled]
      simp only [apply, revokePeer, hget]
      cases write with
      | ok => exact .written _ rfl
      | error e => exact .failed _ e rfl hiff
  | hideRevokedPeer =>
    simp only [apply, hideRevokedPeer]
    split
    · exact .kept trivial
    · cases write with
      | ok => exact .written _ rfl
      | error e => exact .failed _ e rfl (iff_of_true rfl trivial)
  | hideAllRevokedPeers =>
    simp only [apply, hideAllRevokedPeers]
    split
    · exact .kept trivial
    · cases write with
      | ok => exact .written _ rfl
      | error e => exact .failed _ e rfl (iff_of_true rfl trivial)
  | setCapabilityGrant =>
    exact modify_applies _ write (by simp only [TrustedPeer.grant_eq_self_iff, Settled])
  | setClipboardPolicy | setNotificationPolicy =>
    refine modify_applies _ write (forall₂_congr (fun p _ => ?_))
    cases p
    simp [eq_comm]
  | recordProtocolVersion =>
    exact modify_applies _ write (by simp only [TrustedPeer.recordVersion_eq_self_iff, Settled])

def Synced : Prop := s.document = s.peers.values

def step (c : Call Fp × Except ε Unit) : Option (Store Fp) :=
  some (s.apply c.2 c.1).2

def RollsBack (c : Call Fp × Except ε Unit) : Prop :=
  ∀ e, c.2 = .error e → s.Settled c.1

theorem step_synced_iff {s t : Store Fp} {c : Call Fp × Except ε Unit} (hs : s.Synced)
    (h : s.step c = some t) : t.Synced ↔ s.RollsBack c := by
  obtain ⟨call, write⟩ := c
  cases h
  have hcase := apply_cases s write call
  generalize s.apply write call = r at hcase ⊢
  cases hcase with
  | kept hsett => exact iff_of_true hs (fun _ _ => hsett)
  | written _ hw =>
    refine iff_of_true rfl (fun e he => ?_)
    cases hw.symm.trans he
  | failed _ e hw hiff =>
    subst hw
    constructor
    · intro hsync _ _
      exact hiff.mp (Peers.values_injective (hsync.symm.trans hs))
    · intro hok
      rw [Synced, hiff.mpr (hok e rfl)]
      exact hs

theorem run_total (calls : List (Call Fp × Except ε Unit)) : ∃ t, run step s calls = some t := by
  induction calls generalizing s with
  | nil => exact ⟨s, rfl⟩
  | cons c _ ih => exact ih (s.apply c.2 c.1).2

/-- A call whose write fails leaves the peers in memory alone exactly where it goes
through `commit` or has nothing to change; so the memory follows the document
through a history exactly where every failing call of it is such a call. -/
theorem failed_call_keeps_peers_iff :
    (∀ (call : Call Fp) (write : Except ε Unit) (e : ε), (s.apply write call).1 = .error e →
      ((s.apply write call).2.peers = s.peers ↔ s.Settled call)) ∧
      (s.Synced → ∀ calls : List (Call Fp × Except ε Unit),
      (Always step Synced s calls ↔ Meets step RollsBack s calls)) := by
  constructor
  · intro call write e he
    have hcase := apply_cases s write call
    generalize s.apply write call = r at hcase he ⊢
    cases hcase with
    | kept | written => cases he
    | failed _ _ _ hiff => exact hiff
  · intro hs calls
    obtain ⟨t, ht⟩ := run_total s calls
    exact @always_iff_meets _ _ step RollsBack (fun _ => True) Synced (fun _ _ _ _ _ => trivial)
      (fun s c t _ hs h => step_synced_iff hs h) calls s t ht trivial hs

instance (s : Store Fp) (call : Call Fp) : Decidable (s.Settled call) := by
  unfold Settled
  induction call using Call.casesOn <;> infer_instance

instance (s : Store Fp) (c : Call Fp × Except ε Unit) : Decidable (s.RollsBack c) :=
  match c with
  | (_, .ok _) => isTrue (fun _ h => by cases h)
  | (call, .error e) => decidable_of_iff (s.Settled call) ⟨fun h _ _ => h, fun h => h e rfl⟩

def paired : Store Nat :=
  ⟨Peers.empty.insert ⟨"id", "Phone", 1, 7, 0, .empty, 0, false, false, {}, {}⟩,
  [⟨"id", "Phone", 1, 7, 0, .empty, 0, false, false, {}, {}⟩]⟩

theorem failed_call_keeps_peers_when_settled :
    (paired.apply (.error ()) .hideAllRevokedPeers).2.peers = paired.peers ∧
      Always step Synced paired [(.revokePeer 7, .ok ()), (.revokePeer 7, .error ()),
      (.hideRevokedPeer 7, .error ()), (.hideAllRevokedPeers, .ok ())] :=
  ⟨rfl, ((failed_call_keeps_peers_iff paired).2 rfl _).mpr (by decide)⟩

/-- The write of a revocation fails: `revoke_peer` answers with the error, the
memory holds the peer as revoked and the document as trusted. -/
theorem failed_revocation_stays_in_memory :
    ∃ t, paired.apply (.error ()) (.revokePeer 7) = (.error (), t) ∧ paired.Synced ∧
      (paired.peers.get 7).map TrustedPeer.revoked = some false ∧
      (t.peers.get 7).map TrustedPeer.revoked = some true ∧
      t.document.map TrustedPeer.revoked = [false] ∧ t.peers ≠ paired.peers ∧ ¬ t.Synced := by
  refine ⟨_, rfl, rfl, rfl, rfl, rfl, ?_, ?_⟩
  · intro h
    exact absurd (congrArg (fun p => (p.get 7).map TrustedPeer.revoked) h) (by decide)
  · intro h
    exact absurd (congrArg (List.map TrustedPeer.revoked) h) (by decide)

end Store

end OmniBridge.Desktop
