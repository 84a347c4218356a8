import Mathlib.Data.Finset.Sort

/-! The phone's trust store in memory: the records of paired computers, their
form in the JSON document, and what every mutator writes. -/

namespace OmniBridge.Trust

abbrev Chars := List UInt16

structure ClipboardPolicy where
  allowSend : Bool := true
  allowReceive : Bool := true
  autoSend : Bool := false
  autoReceive : Bool := false
deriving DecidableEq

def ClipboardPolicy.DENIED : ClipboardPolicy := ⟨false, false, false, false⟩

inductive LockPolicy where
  | FULL | APP_ONLY | SUPPRESS
deriving DecidableEq

structure NotificationPolicy where
  allowMirror : Bool := true
  allowedApps : Finset String := ∅
  knownApps : Finset String := ∅
  includeWorkProfile : Bool := false
  includeOngoing : Bool := false
  whenSourceLocked : LockPolicy := .APP_ONLY
  allowDismissSync : Bool := false
deriving DecidableEq

def NotificationPolicy.DENIED : NotificationPolicy := ⟨false, ∅, ∅, false, false, .SUPPRESS, false⟩

def FINGERPRINT_LENGTH : Nat := 32

def Fingerprint := { bytes : List UInt8 // bytes.length = FINGERPRINT_LENGTH }

instance : DecidableEq Fingerprint := inferInstanceAs (DecidableEq { _bytes : List UInt8 // _ })

def hexDigit (n : Nat) : UInt16 := if n < 10 then UInt16.ofNat (48 + n) else UInt16.ofNat (87 + n)

def hexValue (c : UInt16) : Option Nat :=
  if 48 ≤ c ∧ c ≤ 57 then some (c.toNat - 48)
  else if 97 ≤ c ∧ c ≤ 102 then some (c.toNat - 87)
  else none

def hexBytes : Chars → Option (List UInt8)
  | [] => some []
  | [_] => none
  | a :: b :: rest => do
    let high ← hexValue a
    let low ← hexValue b
    let bytes ← hexBytes rest
    return UInt8.ofNat (16 * high + low) :: bytes

namespace Fingerprint

def toHex (f : Fingerprint) : Chars :=
  f.1.flatMap (fun b => [hexDigit (b.toNat / 16), hexDigit (b.toNat % 16)])

def fromHex (hex : Chars) : Option Fingerprint :=
  (hexBytes hex).bind (fun bytes => if h : bytes.length = FINGERPRINT_LENGTH then some ⟨bytes, h⟩
    else none)

end Fingerprint

theorem hexBytes_flatMap (bytes : List UInt8) :
    hexBytes (bytes.flatMap (fun b => [hexDigit (b.toNat / 16), hexDigit (b.toNat % 16)])) =
      some bytes := by
  have hdigit : ∀ n < 16, hexValue (hexDigit n) = some n := by decide
  induction bytes with
  | nil => rfl
  | cons b bytes ih =>
    have hb := b.toNat_lt
    have hhigh := hdigit (b.toNat / 16) (by omega)
    have hlow := hdigit (b.toNat % 16) (by omega)
    simp only [List.flatMap_cons, List.cons_append, List.nil_append, hexBytes, hhigh, hlow, ih]
    simp only [Option.bind_eq_bind, Option.bind_some, Nat.div_add_mod, UInt8.ofNat_toNat]
    rfl

theorem Fingerprint.fromHex_toHex (f : Fingerprint) : fromHex f.toHex = some f := by
  rw [fromHex, toHex, hexBytes_flatMap]
  exact dif_pos f.2

def CLIPBOARD_CAPABILITY_ID : String := "clipboard.v1"

def NOTIFICATIONS_CAPABILITY_ID : String := "notifications.v1"

def NEVER_AUTO_GRANTED : Finset String := {CLIPBOARD_CAPABILITY_ID, NOTIFICATIONS_CAPABILITY_ID}

def MAX_REMEMBERED_ADDRESSES : Nat := 4

def SCHEMA_VERSION : Int := 1

def isISOControl (c : UInt16) : Bool := c ≤ 0x1f || (0x7f ≤ c && c ≤ 0x9f)

def sanitizeDeviceName (name : Chars) : Chars := (name.filter (fun c => !isISOControl c)).take 64

def isHighSurrogate (c : UInt16) : Bool := 0xd800 ≤ c && c ≤ 0xdbff

def isLowSurrogate (c : UInt16) : Bool := 0xdc00 ≤ c && c ≤ 0xdfff

/-- What `readText` gives back for a text that `writeText` wrote: a question mark stands for
every surrogate outside a pair. -/
def written : Chars → Chars
  | [] => []
  | [c] => [if isHighSurrogate c || isLowSurrogate c then 63 else c]
  | c :: d :: rest =>
    if isHighSurrogate c && isLowSurrogate d then c :: d :: written rest
    else (if isHighSurrogate c || isLowSurrogate c then 63 else c) :: written (d :: rest)

structure TrustedPeer where
  deviceId : String
  deviceName : Chars
  fingerprint : Fingerprint
  pairedAtUnix : Int
  grantedCapabilities : Finset String
  addresses : List String
  revoked : Bool := false
  hidden : Bool := false
  clipboardPolicy : ClipboardPolicy := {}
  notificationPolicy : NotificationPolicy := {}
deriving DecidableEq

structure Entry where
  deviceId : String
  deviceName : Chars
  fingerprint : Chars
  pairedAtUnix : Int
  grantedCapabilities : Option (Finset String)
  addresses : Option (List String)
  revoked : Bool
  hidden : Bool
  clipboardPolicy : Option ClipboardPolicy
  notificationPolicy : Option NotificationPolicy
deriving DecidableEq

structure Document where
  schemaVersion : Int
  deviceId : String
  deviceName : Chars
  peers : Option (List (Option Entry))
  selectedPeer : Chars := []
  notificationSecretGeneration : Int := 0
deriving DecidableEq

def Document.written (d : Document) : Document :=
  { d with
    deviceName := Trust.written d.deviceName
    peers := d.peers.map fun entries => entries.map fun entry => entry.map fun e =>
      { e with deviceName := Trust.written e.deviceName
               fingerprint := Trust.written e.fingerprint }
    selectedPeer := Trust.written d.selectedPeer }

/-- No text of the document holds half of a surrogate pair. -/
def Document.WholePairs (d : Document) : Prop := d.written = d

instance (d : Document) : Decidable d.WholePairs := inferInstanceAs (Decidable (_ = _))

namespace TrustedPeer

variable (peer : TrustedPeer)

def asRevoked : TrustedPeer :=
  { peer with revoked := true, hidden := false, grantedCapabilities := ∅, addresses := []
              clipboardPolicy := .DENIED, notificationPolicy := .DENIED }

def asTombstone : TrustedPeer :=
  { deviceId := "", deviceName := [], fingerprint := peer.fingerprint, pairedAtUnix := 0
    grantedCapabilities := ∅, addresses := [], revoked := true, hidden := true
    clipboardPolicy := .DENIED, notificationPolicy := .DENIED }

def toJson : Entry :=
  ⟨peer.deviceId, sanitizeDeviceName peer.deviceName, peer.fingerprint.toHex, peer.pairedAtUnix,
    some peer.grantedCapabilities, some peer.addresses, peer.revoked, peer.hidden,
    some peer.clipboardPolicy, some peer.notificationPolicy⟩

def fromJson (entry : Entry) : Option TrustedPeer :=
  (Fingerprint.fromHex entry.fingerprint).map (fun fingerprint =>
    ⟨entry.deviceId, entry.deviceName, fingerprint, entry.pairedAtUnix,
      entry.grantedCapabilities.getD ∅, entry.addresses.getD [], entry.hidden || entry.revoked,
      entry.hidden, entry.clipboardPolicy.getD {}, entry.notificationPolicy.getD {}⟩)

def mergePairing (existing : Option TrustedPeer) (paired : TrustedPeer) (maxAddresses : Nat) :
    TrustedPeer :=
  let grantable := paired.grantedCapabilities \ NEVER_AUTO_GRANTED
  let fresh := { paired with grantedCapabilities := grantable, revoked := false, hidden := false }
  match existing with
  | none => fresh
  | some existing =>
    if existing.revoked || existing.fingerprint ≠ paired.fingerprint then fresh
    else
      { existing with
        revoked := false
        hidden := false
        deviceId := paired.deviceId
        deviceName := paired.deviceName
        pairedAtUnix := paired.pairedAtUnix
        addresses := (paired.addresses ++ existing.addresses).eraseDups.take maxAddresses
        grantedCapabilities := existing.grantedCapabilities ∪ grantable }

end TrustedPeer

/-- The open store; its two flows are filters of the records. -/
structure Store where
  state : Document
  records : List TrustedPeer
  selected : Option Chars
deriving DecidableEq

inductive Write where
  | deviceName (name : Chars)
  | selectedPeer (hex : Option Chars)
  | notificationSecretGeneration (value : Int)
  | peers (peers : List TrustedPeer)
deriving DecidableEq

inductive Operation where
  | setDeviceName (name : Chars)
  | addPeer (peer : TrustedPeer)
  | upsertPairedPeer (peer : TrustedPeer)
  | revokePeer (fingerprint : Fingerprint)
  | hideRevokedPeer (fingerprint : Fingerprint)
  | selectPeer (fingerprint : Fingerprint)
  | clearSelectedPeer
  | setGrant (fingerprint : Fingerprint) (capabilityId : String) (granted : Bool)
  | setClipboardPolicy (fingerprint : Fingerprint) (policy : ClipboardPolicy)
  | setNotificationPolicy (fingerprint : Fingerprint) (policy : NotificationPolicy)
  | setNotificationSecretGeneration (value : Int)
  | rememberAddresses (fingerprint : Fingerprint) (addresses : List String)
deriving DecidableEq

def readPeers (state : Document) : List TrustedPeer :=
  (state.peers.getD []).filterMap (fun entry => entry.bind TrustedPeer.fromJson)

def readSelectedPeer (state : Document) : Option Chars :=
  if state.selectedPeer = [] then none
  else (Fingerprint.fromHex state.selectedPeer).map (fun _ => state.selectedPeer)

section

variable (records : List TrustedPeer)

def upserted (peer : TrustedPeer) : List TrustedPeer :=
  records.filter (·.fingerprint ≠ peer.fingerprint) ++ [peer]

def trustedOf : List TrustedPeer := records.filter (fun r => !r.revoked)

end

def selectionAfterRemoval (selectedHex : Option Chars) (removedHex : Chars) : Option Chars :=
  if selectedHex = some removedHex then none else selectedHex

def Write.put (state : Document) : Write → Document
  | .deviceName name => { state with deviceName := sanitizeDeviceName name }
  | .selectedPeer hex => { state with selectedPeer := hex.getD [] }
  | .notificationSecretGeneration value => { state with notificationSecretGeneration := value }
  | .peers records => { state with peers := some (records.map (fun peer => some peer.toJson)) }

namespace Store

def load (state : Document) : Store := ⟨state, readPeers state, readSelectedPeer state⟩

def put (store : Store) (w : Write) : Store := { store with state := w.put store.state }

variable (store : Store)

def publish : Write → Store
  | .selectedPeer hex => { store with selected := hex }
  | .peers _ => { store with records := readPeers store.state }
  | .deviceName _ | .notificationSecretGeneration _ => store

def peers : List TrustedPeer := trustedOf store.records

variable (fingerprint : Fingerprint)

def peer : Option TrustedPeer :=
  store.peers.find? (·.fingerprint = fingerprint)

def peerRecord : Option TrustedPeer :=
  store.records.find? (·.fingerprint = fingerprint)

def addPeer (peer : TrustedPeer) : List Write := [.peers (upserted store.records peer)]

def editPeer (edit : TrustedPeer → TrustedPeer) : List Write :=
  match store.peer fingerprint with
  | none => []
  | some peer => store.addPeer (edit peer)

def clearSelectedPeer : List Write :=
  if store.selected.isNone then [] else [.selectedPeer none]

def applySelectionAfterRemoval (removed : Fingerprint) : List Write :=
  if (selectionAfterRemoval store.selected removed.toHex).isNone then store.clearSelectedPeer
    else []

def writes : Operation → List Write
  | .setDeviceName name => [.deviceName name]
  | .addPeer peer => store.addPeer peer
  | .upsertPairedPeer peer =>
    store.addPeer (TrustedPeer.mergePairing (store.peer peer.fingerprint) peer
      MAX_REMEMBERED_ADDRESSES)
  | .revokePeer fingerprint =>
    match store.peerRecord fingerprint with
    | none => []
    | some existing =>
      if existing.revoked then []
      else store.applySelectionAfterRemoval fingerprint ++ store.addPeer existing.asRevoked
  | .hideRevokedPeer fingerprint =>
    match store.peerRecord fingerprint with
    | none => []
    | some existing =>
      if !existing.revoked || existing.hidden then []
      else store.applySelectionAfterRemoval fingerprint ++ store.addPeer existing.asTombstone
  | .selectPeer fingerprint =>
    if (store.peer fingerprint).isNone || store.selected = some fingerprint.toHex then []
    else [.selectedPeer (some fingerprint.toHex)]
  | .clearSelectedPeer => store.clearSelectedPeer
  | .setGrant fingerprint capabilityId granted => store.editPeer fingerprint (fun peer =>
    { peer with grantedCapabilities :=
        if granted then insert capabilityId peer.grantedCapabilities
        else peer.grantedCapabilities.erase capabilityId })
  | .setClipboardPolicy fingerprint policy =>
    store.editPeer fingerprint ({ · with clipboardPolicy := policy })
  | .setNotificationPolicy fingerprint policy =>
    store.editPeer fingerprint ({ · with notificationPolicy := policy })
  | .setNotificationSecretGeneration value => [.notificationSecretGeneration value]
  | .rememberAddresses fingerprint addresses =>
    store.editPeer fingerprint
      ({ · with addresses := addresses.eraseDups.take MAX_REMEMBERED_ADDRESSES })

end Store

end OmniBridge.Trust
