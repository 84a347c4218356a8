import OmniBridge.DesktopStore
import Mathlib.Data.List.Destutter

/-! What the daemon asks of its trust store: the answers of a handshake, the
record a pairing leaves, and the parts of the control handlers that run under one
lock of the store. -/

namespace OmniBridge.Desktop

open List Option
open OmniBridge.Clipboard (ClipboardPolicy)
open OmniBridge.Sink (NotificationPolicy LockPolicy)

/-- What the daemon was started with, and how it reads and prints texts:
`normalize` is `trim().to_ascii_lowercase()`, `fromHex` trims first. -/
structure Config (Fp ε : Type) where
  registry : List String
  autoGrant : List String
  sanitizeDeviceName : String → String
  toHex : Fp → String
  fromHex : String → Option Fp
  toDisplayShort : Fp → String
  normalize : String → String
  describe : ε → String

namespace Config

variable {Fp ε : Type}

def supports (x : Config Fp ε) (id : String) : Bool := id ∈ x.registry

def negotiate (x : Config Fp ε) (peerAdvertised : List String) : List String :=
  ((peerAdvertised.filter x.supports).insertionSort (· ≤ ·)).destutter (· ≠ ·)

variable {α : Type}

theorem mem_destutter'_ne [DecidableEq α] {l : List α} {a b} :
    b ∈ l.destutter' (· ≠ ·) a ↔ b ∈ a :: l := by
  induction l generalizing a with
  | nil => simp
  | cons c l ih =>
    by_cases hac : a = c
    · subst hac
      rw [destutter'_cons_neg _ (by simp), ih]
      simp
    · rw [destutter'_cons_pos _ hac, mem_cons, ih, mem_cons (a := b) (b := a)]

theorem mem_destutter_ne [DecidableEq α] {l : List α} {b} : b ∈ l.destutter (· ≠ ·) ↔ b ∈ l := by
  cases l with
  | nil => simp
  | cons => rw [destutter_cons', mem_destutter'_ne]

theorem mem_negotiate {x : Config Fp ε} {peerAdvertised id} :
    id ∈ x.negotiate peerAdvertised ↔ id ∈ peerAdvertised ∧ id ∈ x.registry := by
  rw [negotiate, mem_destutter_ne, mem_insertionSort, mem_filter]
  simp [supports]

theorem pairwise_lt_of_isChain_ne [LinearOrder α] {l : List α} (hne : l.IsChain (· ≠ ·))
    (hle : l.Pairwise (· ≤ ·)) : l.Pairwise (· < ·) := by
  induction l with
  | nil => exact List.Pairwise.nil
  | cons a l ih =>
    have htail := ih hne.tail (pairwise_cons.mp hle).2
    refine pairwise_cons.mpr ⟨fun b hb => ?_, htail⟩
    cases l with
    | nil => cases hb
    | cons c =>
      have hac : a < c := by
        refine lt_of_le_of_ne ((pairwise_cons.mp hle).1 c mem_cons_self) ?_
        exact (isChain_cons_cons.mp hne).1
      rcases mem_cons.mp hb with rfl | hb
      · exact hac
      · exact hac.trans ((pairwise_cons.mp htail).1 b hb)

theorem negotiate_nodup (x : Config Fp ε) (peerAdvertised : List String) :
    (x.negotiate peerAdvertised).Nodup := by
  have hchain := isChain_destutter (· ≠ ·)
    ((peerAdvertised.filter x.supports).insertionSort (· ≤ ·))
  have hsort := (pairwise_insertionSort (· ≤ ·) (peerAdvertised.filter x.supports)).sublist
    (destutter_sublist (· ≠ ·) _)
  exact (pairwise_lt_of_isChain_ne hchain hsort).imp (·.ne)

end Config

structure Device where
  deviceId : String
  deviceName : String
  platform : Int
deriving DecidableEq

inductive PeerStatus where
  | trusted (deviceId deviceName : String) (grantedCapabilities : List String)
  | unknown
  | revoked
deriving DecidableEq

variable {Fp ε : Type} [LinearOrder Fp]

namespace TrustedPeer

def granted (p : TrustedPeer Fp) : List String :=
  (p.grantedCapabilities.entries.filter Prod.snd).map Prod.fst

omit [LinearOrder Fp] in
theorem mem_granted {p : TrustedPeer Fp} {id} :
    id ∈ p.granted ↔ p.grantedCapabilities.get id = some true := by
  simp [granted, SortedMap.get_eq_some_iff]

end TrustedPeer

namespace Store

def peerRecord (s : Store Fp) (fp : Fp) : Option (TrustedPeer Fp) := s.peers.get fp

def trustedPeer (s : Store Fp) (fp : Fp) : Option (TrustedPeer Fp) :=
  (s.peers.get fp).filter (fun p => !p.revoked)

def listedPeers (s : Store Fp) : List (TrustedPeer Fp) :=
  s.peers.values.filter TrustedPeer.isListed

variable {s : Store Fp} {fp : Fp}

theorem trustedPeer_eq_some {p} :
    s.trustedPeer fp = some p ↔ s.peers.get fp = some p ∧ p.revoked = false := by
  rw [trustedPeer, filter_eq_some_iff]
  simp

def lookupPeer (s : Store Fp) (fp : Fp) : PeerStatus :=
  match s.peerRecord fp with
  | none => .unknown
  | some p => if p.revoked then .revoked else .trusted p.deviceId p.deviceName p.granted

theorem lookupPeer_trusted {deviceId deviceName} {granted}
    (h : s.lookupPeer fp = .trusted deviceId deviceName granted) :
    ∃ p, s.trustedPeer fp = some p ∧ p.deviceId = deviceId ∧ p.deviceName = deviceName ∧
      p.granted = granted := by
  unfold lookupPeer peerRecord at h
  cases hget : s.peers.get fp with
  | none =>
    rw [hget] at h
    cases h
  | some p =>
    rw [hget] at h
    cases hrev : p.revoked with
    | true => simp [hrev] at h
    | false =>
      simp only [hrev, Bool.false_eq_true, if_false, PeerStatus.trusted.injEq] at h
      exact ⟨p, trustedPeer_eq_some.mpr ⟨hget, hrev⟩, h⟩

theorem hideRevokedPeer_cases (s : Store Fp) (fp : Fp) (write : Except ε Unit) :
    (s.hideOutcome fp = .isHidden ∧ write = .ok () ∧
      (s.hideRevokedPeer fp write).1 = .ok .isHidden) ∨
      ((s.hideRevokedPeer fp write).2 = s ∧ (s.hideRevokedPeer fp write).1 ≠ .ok .isHidden) := by
  by_cases h : s.hideOutcome fp = .isHidden
  · cases write with
    | ok => exact .inl ⟨h, rfl, by simp [hideRevokedPeer, h, commit, persist]⟩
    | error => exact .inr (by simp [hideRevokedPeer, h, commit, persist])
  · exact .inr (by simp [hideRevokedPeer, h])

theorem hideAllRevokedPeers_cases (s : Store Fp) (write : Except ε Unit) :
    (write = .ok () ∧ (s.hideAllRevokedPeers write).1 =
      .ok (s.revokedListedPeers.map TrustedPeer.fingerprint)) ∨
      ((s.hideAllRevokedPeers write).2 = s ∧ ∀ fp rest,
      (s.hideAllRevokedPeers write).1 ≠ .ok (fp :: rest)) := by
  by_cases h : (s.revokedListedPeers.map TrustedPeer.fingerprint).isEmpty
  · exact .inr (by simp [hideAllRevokedPeers, h])
  · cases write with
    | ok => exact .inl ⟨rfl, by simp [hideAllRevokedPeers, h, commit, persist]⟩
    | error => exact .inr (by simp [hideAllRevokedPeers, h, commit, persist])

def resolveDevice (x : Config Fp ε) (s : Store Fp) (selector : String) : Except String Fp :=
  let needle := x.normalize selector
  match if needle = "" then none else s.listedPeers.find? (·.deviceId = needle) with
  | some p => .ok p.fingerprint
  | none =>
    if needle.utf8ByteSize < 8 then
      .error s!"no device with id '{selector}'; a fingerprint prefix must be at least 8 characters"
    else match s.listedPeers.filter
      (fun p => needle.toList.isPrefixOf (x.toHex p.fingerprint).toList) with
      | [one] => .ok one.fingerprint
      | [] => .error s!"no device matches '{selector}'"
      | many => .error s!"'{selector}' is ambiguous: it matches {many.length} devices"

end Store

section

variable (x : Config Fp ε)

def Config.autoGrants (negotiated : List String) : SortedMap String Bool :=
  negotiated.foldl (fun m c => m.insert c (decide (c ∈ x.autoGrant))) .empty

def Config.newPeer (device : Device) (fp : Fp) (negotiated : List String) (protocolVersion : Nat)
    (pairedAtUnix : Int) : TrustedPeer Fp :=
  { deviceId := device.deviceId
    deviceName := x.sanitizeDeviceName device.deviceName
    platform := device.platform
    fingerprint := fp
    pairedAtUnix := pairedAtUnix
    grantedCapabilities := x.autoGrants negotiated
    lastProtocolVersion := protocolVersion
    revoked := false
    hidden := false
    clipboardPolicy := {}
    notificationPolicy := {} }

theorem get_foldl_insert (f : String → Bool) (l : List String) (m : SortedMap String Bool)
    (c : String) :
    (l.foldl (fun m c => SortedMap.insert c (f c) m) m).get c = if c ∈ l then some (f c)
      else m.get c := by
  induction l generalizing m with
  | nil => simp
  | cons d l ih =>
    rw [foldl_cons, ih, SortedMap.get_insert]
    by_cases hl : c ∈ l
    · simp [hl]
    · by_cases hd : c = d
      · simp [hd]
      · simp [hl, hd]

omit [LinearOrder Fp] in
theorem newPeer_grants (device : Device) (fp : Fp) (negotiated) (version : Nat) (time : Int)
    (c : String) :
    (x.newPeer device fp negotiated version time).grantedCapabilities.get c = some true ↔
      c ∈ negotiated ∧ c ∈ x.autoGrant := by
  change (x.autoGrants negotiated).get c = some true ↔ _
  rw [Config.autoGrants, get_foldl_insert (fun c => decide (c ∈ x.autoGrant))]
  by_cases hc : c ∈ negotiated
  all_goals simp [hc]

def Store.storePeer (s : Store Fp) (device : Device) (fp : Fp) (negotiated : List String)
    (protocolVersion : Nat) (pairedAtUnix : Int) (write : Except ε Unit) :
    Except ε Unit × Store Fp :=
  s.addPeer (x.newPeer device fp negotiated protocolVersion pairedAtUnix) write

end

inductive Response where
  | ok (message : String)
  | error (message : String)
deriving DecidableEq

namespace Response

def isOk : Response → Bool
  | .ok _ => true
  | .error _ => false

def notPaired : Response := .error "that device is not paired (or its pairing was revoked)"

def noSuchDevice : Response := .error "no such device"

end Response

inductive ClipboardFlag where
  | send | receive | autoSend | autoReceive
deriving DecidableEq

namespace ClipboardFlag

def display : ClipboardFlag → String
  | .send => "send"
  | .receive => "receive"
  | .autoSend => "auto-send"
  | .autoReceive => "auto-receive"

def set (flag : ClipboardFlag) (enabled : Bool) (policy : ClipboardPolicy) : ClipboardPolicy :=
  match flag with
  | .send => { policy with allowSend := enabled }
  | .receive => { policy with allowReceive := enabled }
  | .autoSend => { policy with autoSend := enabled }
  | .autoReceive => { policy with autoReceive := enabled }

end ClipboardFlag

inductive NotificationSetting where
  | mirror (enabled : Bool)
  | whenLocked (policy : String)
  | dismissSync (enabled : Bool)
deriving DecidableEq

def onOff (enabled : Bool) : String := if enabled then "on" else "off"

namespace NotificationSetting

def update (normalize : String → String) (current : NotificationPolicy) :
    NotificationSetting → Except String (NotificationPolicy × String)
  | .mirror enabled => .ok ({ current with allowMirror := enabled }, s!"mirror={onOff enabled}")
  | .whenLocked policy =>
    match LockPolicy.parse normalize policy with
    | some parsed => .ok ({ current with whenSinkLocked := parsed }, s!"when-locked={parsed.asStr}")
    | none => .error s!"'{policy}' is not a lock policy. Use one of: full, app-only, suppress"
  | .dismissSync enabled =>
    .ok ({ current with allowDismissSync := enabled }, s!"dismiss-sync={onOff enabled}")

end NotificationSetting

namespace Store

variable (x : Config Fp ε)

def grantSection (s : Store Fp) (fp : Fp) (capability : String) (granted : Bool)
    (write : Except ε Unit) : Except Response Unit × Store Fp :=
  match s.trustedPeer fp with
  | none => (.error .notPaired, s)
  | some _ =>
    match s.setCapabilityGrant fp capability granted write with
    | (.ok (), t) => (.ok (), t)
    | (.error e, t) => (.error (.error s!"could not persist the grant: {x.describe e}"), t)

/-- The section of `do_clipboard_policy` under the store's lock; it answers whether the capability
is granted. -/
def clipboardSection (s : Store Fp) (fp : Fp) (flag : ClipboardFlag) (enabled : Bool)
    (write : Except ε Unit) : Except Response Bool × Store Fp :=
  match s.trustedPeer fp with
  | none => (.error .notPaired, s)
  | some peer =>
    match s.setClipboardPolicy fp (flag.set enabled peer.clipboardPolicy) write with
    | (.ok (), t) => (.ok (peer.allows "clipboard.v1"), t)
    | (.error e, t) => (.error (.error s!"could not persist the policy: {x.describe e}"), t)

/-- The section of `do_notifications_policy` that writes, under a lock of its own. -/
def notificationsSection (s : Store Fp) (fp : Fp) (updated : NotificationPolicy)
    (write : Except ε Unit) : Except Response Unit × Store Fp :=
  match s.setNotificationPolicy fp updated write with
  | (.ok (), t) => (.ok (), t)
  | (.error e, t) => (.error (.error s!"could not persist the policy: {x.describe e}"), t)

end Store

end OmniBridge.Desktop
