import OmniBridge.DesktopRequests
import OmniBridge.Slots

/-! The daemon between its control socket and its listener. Requests are cut where
they take a lock, connections where they await: the trust store, the map of
sessions and the outstanding reconnect requests are read and written in separate
steps. Of a handshake only what touches these is kept; a peer that is not trusted
may pair at any time. -/

namespace OmniBridge.Desktop

open List Option Function
open OmniBridge.Sink (NotificationPolicy)

inductive Decision where
  | withdrawn | noSession | alreadyNegotiated | alreadyRequested | reconnect
deriving DecidableEq

/-- The rule of `renegotiate`: `requested` is the session last asked to reconnect. -/
def Renegotiation.decide (granted : Bool) (capability : String)
    (session : Option (Nat × List String)) (requested : Option Nat) : Decision :=
  if !granted then .withdrawn
  else match session with
    | none => .noSession
    | some (id, negotiated) =>
      if capability ∈ negotiated then .alreadyNegotiated
      else if requested = some id then .alreadyRequested
      else .reconnect

inductive Phase where
  | accepted
  | admitted (negotiated : List String)
  | pairing
  | stored
  | connecting (negotiated : List String)
  | registering (negotiated : List String)
  | running (negotiated : List String)
  | ending (negotiated : List String)
  | closed
deriving DecidableEq

namespace Phase

def negotiated : Phase → List String
  | .admitted n | .connecting n | .registering n | .running n | .ending n => n
  | _ => []

def isArriving : Phase → Bool
  | .admitted _ | .stored | .connecting _ | .registering _ => true
  | _ => false

def isLive : Phase → Bool
  | .connecting _ | .registering _ | .running _ => true
  | _ => false

def isHandshake : Phase → Bool
  | .accepted | .admitted _ | .pairing | .stored => true
  | _ => false

end Phase

/-- A connection; its place in the list is the id of its session. `asked` says that
its shutdown has been requested. -/
structure Connection (Fp : Type) where
  fingerprint : Fp
  device : Device
  advertised : List String
  version : Nat
  phase : Phase := .accepted
  asked : Bool := false
deriving DecidableEq

inductive Command where
  | unpair (device : String)
  | hideRevoked (fingerprint : String)
  | hideAllRevoked
  | grant (device capability : String) (granted : Bool)
  | clipboardPolicy (device : String) (flag : ClipboardFlag) (enabled : Bool)
  | notificationsPolicy (device : String) (setting : NotificationSetting)
deriving DecidableEq

inductive Enforcement where
  | lookup
  | shutdown (id : Nat)
  | drop
  | clear
deriving DecidableEq

inductive Stage (Fp : Type) where
  | started
  | resolved (fp : Fp)
  | updating (fp : Fp) (updated : NotificationPolicy) (described : String)
  | enforcing (fp : Fp) (rest : List Fp) (place : Enforcement) (answer : Response)
  | renegotiating (fp : Fp)
  | deciding (fp : Fp) (handle : Option (Nat × List String))
  | answered (about : Option Fp) (response : Response)
deriving DecidableEq

/-- A request of the control socket. `mark` is how often the peer had been paired when
an unpair revoked it. -/
structure Request (Fp : Type) where
  command : Command
  stage : Stage Fp := .started
  mark : Nat := 0
deriving DecidableEq

/-- `pairings` lists the peers of the pairings completed so far. -/
structure Daemon (Fp : Type) [LinearOrder Fp] where
  store : Store Fp
  sessions : Fp → Option Nat := fun _ => none
  requested : Fp → Option Nat := fun _ => none
  connections : List (Connection Fp) := []
  requests : List (Request Fp) := []
  pairings : List Fp := []

inductive Action (Fp ε : Type) where
  | accept (fp : Fp) (device : Device) (advertised : List String) (version : Nat)
  | lookup (i : Nat)
  | abandon (i : Nat)
  | storePeer (i : Nat) (pairedAtUnix : Int) (write : Except ε Unit)
  | reread (i : Nat)
  | establish (i : Nat)
  | clear (i : Nat)
  | register (i : Nat)
  | finish (i : Nat)
  | unregister (i : Nat)
  | request (command : Command)
  | proceed (i : Nat) (write : Except ε Unit)

variable {Fp ε : Type} [LinearOrder Fp]

namespace Daemon

def setPhase (i : Nat) (phase : Phase) (s : Daemon Fp) : Daemon Fp :=
  { s with connections := s.connections.modify i ({ · with phase := phase }) }

def shutdown (i : Nat) (s : Daemon Fp) : Daemon Fp :=
  { s with connections := s.connections.modify i ({ · with asked := true }) }

def shutdownAny (i : Option Nat) (s : Daemon Fp) : Daemon Fp :=
  match i with
  | some i => s.shutdown i
  | none => s

def handleOf (s : Daemon Fp) (fp : Fp) : Option (Nat × List String) :=
  (s.sessions fp).map (fun i => (i, (s.connections[i]?).elim [] (·.phase.negotiated)))

def effective (supported granted : List String) : List String := supported.filter (· ∈ granted)

def lookup (x : Config Fp ε) (i : Nat) (c : Connection Fp) (s : Daemon Fp) : Daemon Fp :=
  match s.store.lookupPeer c.fingerprint with
  | .trusted _ _ granted => s.setPhase i (.admitted (effective (x.negotiate c.advertised) granted))
  | .unknown | .revoked => s.setPhase i .pairing

def storePeer (x : Config Fp ε) (i : Nat) (c : Connection Fp) (pairedAtUnix : Int)
    (write : Except ε Unit) (s : Daemon Fp) : Daemon Fp :=
  match s.store.storePeer x c.device c.fingerprint (x.negotiate c.advertised) c.version pairedAtUnix
    write with
  | (.ok (), store) =>
    { s with store := store, pairings := s.pairings ++ [c.fingerprint] }.setPhase i .stored
  | (.error _, store) => { s with store := store }.setPhase i .closed

def reread (x : Config Fp ε) (i : Nat) (c : Connection Fp) (s : Daemon Fp) : Daemon Fp :=
  match s.store.lookupPeer c.fingerprint with
  | .trusted _ _ granted =>
    s.setPhase i (.connecting (effective (x.negotiate c.advertised) granted))
  | .unknown | .revoked => s.setPhase i (.connecting [])

/-- `register_session` once its request is cleared: the session displaced is shut down. -/
def register (i : Nat) (fp : Fp) (negotiated : List String) (s : Daemon Fp) : Daemon Fp :=
  ({ s with sessions := update s.sessions fp (some i) }.setPhase i
    (.running negotiated)).shutdownAny
    (s.sessions fp)

def unregister (i : Nat) (fp : Fp) (s : Daemon Fp) : Daemon Fp :=
  (if s.sessions fp = some i then { s with sessions := update s.sessions fp none }
    else s).setPhase i .closed

section Updates

variable (x : Config Fp ε) (i : Nat) (c : Connection Fp) (s : Daemon Fp)

theorem lookup_eq : ∃ phase, s.lookup x i c = s.setPhase i phase := by
  unfold lookup
  split <;> exact ⟨_, rfl⟩

theorem reread_eq : ∃ phase, s.reread x i c = s.setPhase i phase := by
  unfold reread
  split <;> exact ⟨_, rfl⟩

theorem storePeer_eq (pairedAtUnix : Int) (write) :
    ∃ store pairings phase, s.storePeer x i c pairedAtUnix write = { s with
      store := store, pairings := pairings }.setPhase i phase := by
  unfold storePeer
  split <;> exact ⟨_, _, _, rfl⟩

theorem register_eq (fp) (negotiated : List String) :
    ∃ connections, s.register i fp negotiated = { s with
      sessions := update s.sessions fp (some i), connections := connections } := by
  unfold register shutdownAny
  split <;> exact ⟨_, rfl⟩

theorem unregister_eq (fp) :
    ∃ sessions, s.unregister i fp = { s with sessions := sessions }.setPhase i .closed := by
  unfold unregister
  split <;> exact ⟨_, rfl⟩

variable {i c s}

theorem setPhase_self (hc : s.connections[i]? = some c) (phase : Phase) :
    (s.setPhase i phase).connections[i]? = some { c with phase := phase } :=
  getElem?_modify_self hc _

theorem register_running (hc : s.connections[i]? = some c) (negotiated) :
    ∃ c', (s.register i c.fingerprint negotiated).connections[i]? = some c' ∧
      c'.fingerprint = c.fingerprint ∧ c'.phase = .running negotiated := by
  have hself := getElem?_modify_self hc ({ · with phase := .running negotiated })
  unfold register shutdownAny
  cases s.sessions c.fingerprint with
  | none => exact ⟨_, hself, rfl, rfl⟩
  | some old =>
    refine ⟨_, getElem?_modify_of_eq_some hself old _, ?_⟩
    split <;> exact ⟨rfl, rfl⟩

end Updates

end Daemon

abbrev Section (Fp : Type) [LinearOrder Fp] := Daemon Fp × Request Fp

namespace Request

variable (x : Config Fp ε) (s : Daemon Fp) (r : Request Fp) (write : Except ε Unit)

def enter (stage : Stage Fp) : Section Fp := (s, { r with stage := stage })

def answer (about : Option Fp) (response : Response) : Section Fp :=
  enter s r (.answered about response)

def withStore (store : Store Fp) : Daemon Fp := { s with store := store }

def resolve (device : String) : Section Fp :=
  match s.store.resolveDevice x device with
  | .ok fp => enter s r (.resolved fp)
  | .error message => answer s r none (.error message)

section

variable (fp : Fp)

def unpair : Section Fp :=
  match s.store.revokePeer fp write with
  | (.ok true, store) =>
    enter (withStore s store) { r with mark := s.pairings.count fp }
      (.enforcing fp [] .lookup (.ok s!"revoked {x.toDisplayShort fp}"))
  | (.ok false, store) => answer (withStore s store) r (some fp) .noSuchDevice
  | (.error e, store) =>
    answer (withStore s store) r (some fp) (.error s!"failed to persist revocation: {x.describe e}")

def hideRevoked : Section Fp :=
  let short := x.toDisplayShort fp
  match s.store.hideRevokedPeer fp write with
  | (.ok .isHidden, store) =>
    enter (withStore s store) r
      (.enforcing fp [] .lookup (.ok s!"removed {short} from the list; it stays revoked"))
  | (.ok .alreadyHidden, store) =>
    answer (withStore s store) r (some fp) (.ok s!"{short} was already off the list")
  | (.ok .notRevoked, store) =>
    answer (withStore s store) r (some fp)
      (.error "that device is still paired; revoke it before removing it from the list")
  | (.ok .notFound, store) => answer (withStore s store) r (some fp) .noSuchDevice
  | (.error e, store) =>
    answer (withStore s store) r (some fp) (.error s!"failed to persist the change: {x.describe e}")

def hideAllRevoked : Section Fp :=
  match s.store.hideAllRevokedPeers write with
  | (.ok [], store) => answer (withStore s store) r none (.ok "no revoked devices to remove")
  | (.ok (fp :: rest), store) =>
    enter (withStore s store) r (.enforcing fp rest .lookup
      (.ok s!"removed {rest.length + 1} revoked device(s) from the list; they stay revoked"))
  | (.error e, store) =>
    answer (withStore s store) r none (.error s!"failed to persist the change: {x.describe e}")

def grant (capability : String) (granted : Bool) : Section Fp :=
  if !x.supports capability then
    answer s r (some fp) (.error s!"this daemon does not implement '{capability}'")
  else match s.store.grantSection x fp capability granted write with
    | (.ok (), store) => enter (withStore s store) r (.renegotiating fp)
    | (.error response, store) => answer (withStore s store) r (some fp) response

def clipboardPolicy (device : String) (fp : Fp) (flag : ClipboardFlag) (enabled : Bool) :
    Section Fp :=
  match s.store.clipboardSection x fp flag enabled write with
  | (.ok granted, store) =>
    let caveat := if granted then "" else
      "\nNote: clipboard.v1 is not granted for this device, so clipboard policy has no effect " ++
        s!"yet. Run: pliwee grant {device} clipboard.v1"
    answer (withStore s store) r (some fp)
      (.ok s!"clipboard {flag.display} is now {onOff enabled} for {x.toDisplayShort fp}{caveat}")
  | (.error response, store) => answer (withStore s store) r (some fp) response

/-- The first lock of `do_notifications_policy`: the policy is read and changed in hand. -/
def readPolicy (setting : NotificationSetting) : Section Fp :=
  match s.store.trustedPeer fp with
  | none => answer s r (some fp) .notPaired
  | some p =>
    match setting.update x.normalize p.notificationPolicy with
    | .ok (updated, described) => enter s r (.updating fp updated described)
    | .error message => answer s r (some fp) (.error message)

/-- Its second lock: whatever the record has become, the policy in hand is written. -/
def writePolicy (updated : NotificationPolicy) (described : String) : Section Fp :=
  match s.store.notificationsSection x fp updated write with
  | (.ok (), store) =>
    answer (withStore s store) r (some fp) (.ok s!"{x.toDisplayShort fp} {described}")
  | (.error response, store) => answer (withStore s store) r (some fp) response

/-- One section of `enforce_revocation`; after the last one the next peer is taken. -/
def enforce (rest : List Fp) (response : Response) : Enforcement → Section Fp
  | .lookup =>
    match s.sessions fp with
    | some id => enter s r (.enforcing fp rest (.shutdown id) response)
    | none => enter s r (.enforcing fp rest .drop response)
  | .shutdown id => enter (s.shutdown id) r (.enforcing fp rest .drop response)
  | .drop =>
    enter { s with sessions := update s.sessions fp none } r (.enforcing fp rest .clear response)
  | .clear =>
    let s := { s with requested := update s.requested fp none }
    match rest with
    | [] => answer s r (some fp) response
    | next :: rest => enter s r (.enforcing next rest .lookup response)

/-- `on_grant_changed` and, on its decision, the shutdown of the session looked up. -/
def decideGrant (capability : String) (granted : Bool) (handle : Option (Nat × List String)) :
    Section Fp :=
  let decision := Renegotiation.decide granted capability handle (s.requested fp)
  let verb := if granted then "granted" else "withdrew"
  let message := s!"{verb} {capability} for {x.toDisplayShort fp}"
  match decision, handle with
  | .reconnect, some (id, _) =>
    answer ({ s with requested := update s.requested fp (some id) }.shutdown id) r (some fp)
      (.ok s!"{message} (reconnecting the device so it takes effect now)")
  | _, _ => answer s r (some fp) (.ok message)

end

def withdraws : Bool :=
  match r.command with
  | .unpair _ | .hideRevoked _ | .hideAllRevoked => true
  | _ => false

def proceed : Option (Section Fp) :=
  match r.stage, r.command with
  | .started, .unpair device | .started, .grant device _ _ | .started, .clipboardPolicy device _ _
  | .started, .notificationsPolicy device _ => some (r.resolve x s device)
  | .started, .hideRevoked fingerprint =>
    match x.fromHex fingerprint with
    | some fp => some (enter s r (.resolved fp))
    | none => some (answer s r none (.error "that is not a device fingerprint"))
  | .started, .hideAllRevoked => some (hideAllRevoked x s r write)
  | .resolved fp, .unpair _ => some (unpair x s r write fp)
  | .resolved fp, .hideRevoked _ => some (hideRevoked x s r write fp)
  | .resolved fp, .grant _ capability granted => some (grant x s r write fp capability granted)
  | .resolved fp, .clipboardPolicy device flag enabled =>
    some (clipboardPolicy x s r write device fp flag enabled)
  | .resolved fp, .notificationsPolicy _ setting => some (readPolicy x s r fp setting)
  | .updating fp updated described, .notificationsPolicy _ _ =>
    some (writePolicy x s r write fp updated described)
  | .enforcing fp rest place response, _ =>
    if r.withdraws then some (enforce s r fp rest response place) else none
  | .renegotiating fp, .grant _ _ _ => some (enter s r (.deciding fp (s.handleOf fp)))
  | .deciding fp handle, .grant _ capability granted =>
    some (decideGrant x s r fp capability granted handle)
  | _, _ => none

def hides (r : Request Fp) : Bool :=
  match r.command with
  | .hideRevoked _ | .hideAllRevoked => true
  | _ => false

def isEarly (r : Request Fp) : Bool :=
  match r.stage with
  | .started | .resolved _ => true
  | _ => false

inductive Handles : Daemon Fp → Request Fp → Prop
  | resolved (fp : Fp) : r.stage = .started → Handles s { r with stage := .resolved fp }
  | answered (about : Option Fp) (response : Response) : r.isEarly →
      response.isOk = false ∨ r.hides →
      Handles s { r with stage := .answered about response }
  | revoked (device : String) (fp : Fp) (answer : Response) : r.command = .unpair device →
      r.stage = .resolved fp → write = .ok () → (∃ p, s.store.peers.get fp = some p) →
      Handles { s with store := (s.store.revokePeer fp write).2 }
        { r with mark := s.pairings.count fp, stage := .enforcing fp [] .lookup answer }
  | revocationFailed (device : String) (fp : Fp) (response : Response) : r.command = .unpair
    device → r.stage = .resolved fp → response.isOk = false →
    Handles { s with store := (s.store.revokePeer fp write).2 } { r with
    stage := .answered (some fp) response }
  | hid (fp : Fp) (answer : Response) : r.isEarly → r.hides → write = .ok () →
      s.store.hideOutcome fp = .isHidden →
      Handles { s with store := (s.store.hideRevokedPeer fp write).2 }
        { r with stage := .enforcing fp [] .lookup answer }
  | hidAll (fp : Fp) (rest : List Fp) (answer : Response) : r.isEarly → r.hides →
      write = .ok () →
      s.store.revokedListedPeers.map TrustedPeer.fingerprint = fp :: rest →
      Handles { s with store := (s.store.hideAllRevokedPeers write).2 }
        { r with stage := .enforcing fp rest .lookup answer }
  | granted (device : String) (fp : Fp) (capability : String) (granted : Bool)
    (p : TrustedPeer Fp) : r.command = .grant device capability granted → r.stage = .resolved fp →
    write = .ok () → s.store.trustedPeer fp = some p →
    Handles { s with store := (s.store.setCapabilityGrant fp capability granted write).2 }
        { r with stage := .renegotiating fp }
  | grantFailed (device : String) (fp : Fp) (capability : String) (granted : Bool)
      (p : TrustedPeer Fp) (e : ε) (response : Response) :
      r.command = .grant device capability granted → r.stage = .resolved fp → write = .error e →
      s.store.trustedPeer fp = some p → response.isOk = false →
      Handles { s with store := (s.store.setCapabilityGrant fp capability granted write).2 }
        { r with stage := .answered (some fp) response }
  | clipboardPolicy (device : String) (fp : Fp) (flag : ClipboardFlag) (enabled : Bool)
      (p : TrustedPeer Fp) (response : Response) :
      r.command = .clipboardPolicy device flag enabled → r.stage = .resolved fp →
      s.store.trustedPeer fp = some p →
      Handles { s with
          store := (s.store.setClipboardPolicy fp (flag.set enabled p.clipboardPolicy) write).2 }
        { r with stage := .answered (some fp) response }
  | policyRead (device : String) (fp : Fp) (setting : NotificationSetting) (p : TrustedPeer Fp)
      (updated : NotificationPolicy) (described : String) :
      r.command = .notificationsPolicy device setting → r.stage = .resolved fp →
      s.store.trustedPeer fp = some p → setting.update x.normalize p.notificationPolicy =
      .ok (updated, described) → Handles s { r with stage := .updating fp updated described }
  | policyWritten (device : String) (setting : NotificationSetting) (fp : Fp)
    (updated : NotificationPolicy)
      (described : String) (response : Response) :
      r.command = .notificationsPolicy device setting → r.stage = .updating fp updated described →
      (response.isOk ↔ write = .ok ()) →
      Handles { s with store := (s.store.setNotificationPolicy fp updated write).2 }
        { r with stage := .answered (some fp) response }
  | found (fp : Fp) (rest : List Fp) (response : Response) (id : Nat) :
      r.stage = .enforcing fp rest .lookup response → s.sessions fp = some id →
      Handles s { r with stage := .enforcing fp rest (.shutdown id) response }
  | notFound (fp : Fp) (rest : List Fp) (response : Response) :
      r.stage = .enforcing fp rest .lookup response → s.sessions fp = none →
      Handles s { r with stage := .enforcing fp rest .drop response }
  | shutdown (fp : Fp) (rest : List Fp) (response : Response) (id : Nat) :
      r.stage = .enforcing fp rest (.shutdown id) response →
      Handles (s.shutdown id) { r with stage := .enforcing fp rest .drop response }
  | dropped (fp : Fp) (rest : List Fp) (response : Response) :
      r.stage = .enforcing fp rest .drop response →
      Handles { s with sessions := update s.sessions fp none }
        { r with stage := .enforcing fp rest .clear response }
  | cleared (fp : Fp) (response : Response) : r.withdraws →
    r.stage = .enforcing fp [] .clear response →
    Handles { s with requested := update s.requested fp none }
        { r with stage := .answered (some fp) response }
  | next (fp fp' : Fp) (rest : List Fp) (response : Response) :
      r.stage = .enforcing fp (fp' :: rest) .clear response →
      Handles { s with requested := update s.requested fp none }
        { r with stage := .enforcing fp' rest .lookup response }
  | looked (device : String) (fp : Fp) (capability : String) (granted : Bool) :
      r.command = .grant device capability granted → r.stage = .renegotiating fp →
      Handles s { r with stage := .deciding fp (s.handleOf fp) }
  | left (device : String) (fp : Fp) (capability : String) (granted : Bool)
      (handle : Option (Nat × List String)) (response : Response) :
      r.command = .grant device capability granted → r.stage = .deciding fp handle →
      Renegotiation.decide granted capability handle (s.requested fp) ≠ .reconnect →
      Handles s { r with stage := .answered (some fp) response }
  | reconnected (device : String) (fp : Fp) (capability : String) (id : Nat)
    (negotiated : List String)
      (response : Response) :
      r.command = .grant device capability true → r.stage = .deciding fp (some (id, negotiated)) →
      Handles ({ s with requested := update s.requested fp (some id) }.shutdown id)
        { r with stage := .answered (some fp) response }

variable {x s r write}

theorem resolve_handles (device) (hstg : r.stage = .started) :
    Handles x s r write (r.resolve x s device).1 (r.resolve x s device).2 := by
  unfold resolve
  split
  · exact .resolved _ hstg
  · exact .answered _ _ (by simp [isEarly, hstg]) (.inl rfl)

variable {fp : Fp} {granted : Bool} {capability device : String}

theorem unpair_handles (hcomm : r.command = .unpair device) (hstg : r.stage = .resolved fp) :
    Handles x s r write (unpair x s r write fp).1 (unpair x s r write fp).2 := by
  have hsome : ∀ store, s.store.revokePeer fp write = (.ok true, store) →
      write = .ok () ∧ ∃ p, s.store.peers.get fp = some p := by
    intro store h
    unfold Store.revokePeer at h
    cases hget : s.store.peers.get fp with
    | none =>
      rw [hget] at h
      cases h
    | some p =>
      rw [hget] at h
      cases write with
      | ok => exact ⟨rfl, p, rfl⟩
      | error => cases h
  unfold unpair
  split
  · rename_i store h
    obtain ⟨hw, hp⟩ := hsome store h
    have hstore : store = (s.store.revokePeer fp write).2 := by rw [h]
    subst hstore
    exact .revoked device fp _ hcomm hstg hw hp
  · rename_i store h
    have hstore : store = (s.store.revokePeer fp write).2 := by rw [h]
    subst hstore
    exact .revocationFailed device fp _ hcomm hstg rfl
  rename_i e store h
  have hstore : store = (s.store.revokePeer fp write).2 := by rw [h]
  subst hstore
  exact .revocationFailed device fp _ hcomm hstg rfl

theorem hideRevoked_handles (hearly : r.isEarly) (hhides : r.hides) :
    Handles x s r write (hideRevoked x s r write fp).1 (hideRevoked x s r write fp).2 := by
  unfold hideRevoked
  rcases s.store.hideRevokedPeer_cases fp write with ⟨houtc, hw, hres⟩ | ⟨hstore, hres⟩
  · have hspl : s.store.hideRevokedPeer fp write = (.ok .isHidden,
        (s.store.hideRevokedPeer fp write).2) :=
      Prod.ext hres rfl
    generalize hst : (s.store.hideRevokedPeer fp write).2 = store at hspl
    rw [hspl]
    subst hst
    exact .hid fp _ hearly hhides hw houtc
  · generalize s.store.hideRevokedPeer fp write = result at hstore hres
    obtain ⟨outcome, store⟩ := result
    obtain rfl : store = s.store := hstore
    match outcome with
    | .ok .isHidden => exact absurd rfl hres
    | .ok .alreadyHidden | .ok .notRevoked | .ok .notFound | .error e =>
      exact .answered _ _ hearly (.inr hhides)

theorem hideAllRevoked_handles (hearly : r.isEarly) (hhides : r.hides) :
    Handles x s r write (hideAllRevoked x s r write).1 (hideAllRevoked x s r write).2 := by
  unfold hideAllRevoked
  rcases s.store.hideAllRevokedPeers_cases write with ⟨hw, hres⟩ | ⟨hstore, hres⟩
  · have hspl : s.store.hideAllRevokedPeers write =
        (.ok (s.store.revokedListedPeers.map TrustedPeer.fingerprint),
        (s.store.hideAllRevokedPeers write).2) :=
      Prod.ext hres rfl
    cases htarg : s.store.revokedListedPeers.map TrustedPeer.fingerprint with
    | nil =>
      have hsame : (s.store.hideAllRevokedPeers write).2 = s.store :=
        by simp [Store.hideAllRevokedPeers, htarg]
      rw [htarg, hsame] at hspl
      rw [hspl]
      exact .answered _ _ hearly (.inr hhides)
    | cons fp rest =>
      rw [htarg] at hspl
      generalize hst : (s.store.hideAllRevokedPeers write).2 = store at hspl
      rw [hspl]
      subst hst
      exact .hidAll fp rest _ hearly hhides hw htarg
  · generalize s.store.hideAllRevokedPeers write = result at hstore hres
    obtain ⟨outcome, store⟩ := result
    obtain rfl : store = s.store := hstore
    rcases outcome with _ | (_ | ⟨fp, rest⟩)
    · exact .answered _ _ hearly (.inr hhides)
    · exact .answered _ _ hearly (.inr hhides)
    · exact absurd rfl (hres fp rest)

theorem grant_handles (hcomm : r.command = .grant device capability granted)
    (hstg : r.stage = .resolved fp) :
    Handles x s r write (grant x s r write fp capability granted).1
      (grant x s r write fp capability granted).2 := by
  have hearly : r.isEarly := by simp [isEarly, hstg]
  unfold grant
  split
  · exact .answered _ _ hearly (.inl rfl)
  unfold Store.grantSection
  cases htrus : s.store.trustedPeer fp with
  | none => exact .answered _ _ hearly (.inl rfl)
  | some p =>
    cases write with
    | ok => exact .granted device fp capability granted p hcomm hstg rfl htrus
    | error e =>
      exact .grantFailed device fp capability granted p e _ hcomm hstg rfl htrus rfl

theorem clipboardPolicy_handles {flag enabled}
    (hcomm : r.command = .clipboardPolicy device flag enabled) (hstg : r.stage = .resolved fp) :
    Handles x s r write (clipboardPolicy x s r write device fp flag enabled).1
      (clipboardPolicy x s r write device fp flag enabled).2 := by
  have hearly : r.isEarly := by simp [isEarly, hstg]
  unfold clipboardPolicy Store.clipboardSection
  cases htrus : s.store.trustedPeer fp with
  | none => exact .answered _ _ hearly (.inl rfl)
  | some p =>
    cases write with
    | _ => exact .clipboardPolicy device fp flag enabled p _ hcomm hstg htrus

variable {setting : NotificationSetting}

theorem readPolicy_handles (hcomm : r.command = .notificationsPolicy device setting)
    (hstg : r.stage = .resolved fp) :
    Handles x s r write (readPolicy x s r fp setting).1 (readPolicy x s r fp setting).2 := by
  have hearly : r.isEarly := by simp [isEarly, hstg]
  unfold readPolicy
  cases htrus : s.store.trustedPeer fp with
  | none => exact .answered _ _ hearly (.inl rfl)
  | some p =>
    dsimp only
    split
    · exact .policyRead device fp setting p _ _ hcomm hstg htrus ‹_›
    · exact .answered _ _ hearly (.inl rfl)

theorem writePolicy_handles {updated described}
    (hcomm : r.command = .notificationsPolicy device setting)
    (hstg : r.stage = .updating fp updated described) :
    Handles x s r write (writePolicy x s r write fp updated described).1
      (writePolicy x s r write fp updated described).2 := by
  cases write with
  | ok =>
    exact .policyWritten device setting fp updated described _ hcomm hstg (iff_of_true rfl rfl)
  | error =>
    refine .policyWritten device setting fp updated described _ hcomm hstg (iff_of_false ?_ nofun)
    exact Bool.false_ne_true

theorem enforce_handles {rest place response} (hwith : r.withdraws)
    (hstg : r.stage = .enforcing fp rest place response) :
    Handles x s r write (enforce s r fp rest response place).1
      (enforce s r fp rest response place).2 := by
  cases place with
  | lookup =>
    unfold enforce
    cases hsess : s.sessions fp with
    | some id => exact .found fp rest response id hstg hsess
    | none => exact .notFound fp rest response hstg hsess
  | shutdown id => exact .shutdown fp rest response id hstg
  | drop => exact .dropped fp rest response hstg
  | clear =>
    cases rest with
    | nil => exact .cleared fp response hwith hstg
    | cons fp' rest => exact .next fp fp' rest response hstg

variable {handle : Option (Nat × List String)}

omit [LinearOrder Fp] in
theorem granted_of_reconnect {requested}
    (h : Renegotiation.decide granted capability handle requested = .reconnect) :
    granted ∧ ∃ id negotiated, handle = some (id, negotiated) ∧ capability ∉ negotiated := by
  unfold Renegotiation.decide at h
  cases granted with
  | false => cases h
  | true =>
    cases handle with
    | none => cases h
    | some session =>
      obtain ⟨id, negotiated⟩ := session
      by_cases hmem : capability ∈ negotiated
      · simp [hmem] at h
      · exact ⟨rfl, id, negotiated, rfl, hmem⟩

theorem decideGrant_handles (hcomm : r.command = .grant device capability granted)
    (hstg : r.stage = .deciding fp handle) :
    Handles x s r write (decideGrant x s r fp capability granted handle).1
      (decideGrant x s r fp capability granted handle).2 := by
  unfold decideGrant
  by_cases hdec : Renegotiation.decide granted capability handle (s.requested fp) = .reconnect
  · obtain ⟨rfl, id, negotiated, rfl, -⟩ := granted_of_reconnect hdec
    rw [hdec]
    exact .reconnected device fp capability id negotiated _ hcomm hstg
  dsimp only
  split
  · exact absurd ‹_› hdec
  · exact .left device fp capability granted _ _ hcomm hstg hdec

theorem proceed_cases {u} (h : r.proceed x s write = some u) : Handles x s r write u.1 u.2 := by
  unfold proceed at h
  split at h
  case h_1 hstg _ => exact some.inj h ▸ resolve_handles _ hstg
  case h_2 hstg _ => exact some.inj h ▸ resolve_handles _ hstg
  case h_3 hstg _ => exact some.inj h ▸ resolve_handles _ hstg
  case h_4 hstg _ => exact some.inj h ▸ resolve_handles _ hstg
  case h_5 hstg hcomm =>
    split at h
    · exact some.inj h ▸ .resolved _ hstg
    · exact some.inj h ▸ .answered _ _ (by simp [isEarly, hstg]) (.inl rfl)
  case h_6 hstg hcomm =>
    exact some.inj h ▸ hideAllRevoked_handles (by simp [isEarly, hstg]) (by simp [hides, hcomm])
  case h_7 hstg hcomm => exact some.inj h ▸ unpair_handles hcomm hstg
  case h_8 hstg hcomm =>
    exact some.inj h ▸ hideRevoked_handles (by simp [isEarly, hstg]) (by simp [hides, hcomm])
  case h_9 hstg hcomm => exact some.inj h ▸ grant_handles hcomm hstg
  case h_10 hstg hcomm => exact some.inj h ▸ clipboardPolicy_handles hcomm hstg
  case h_11 hstg hcomm => exact some.inj h ▸ readPolicy_handles hcomm hstg
  case h_12 hstg hcomm => exact some.inj h ▸ writePolicy_handles hcomm hstg
  case h_13 hstg =>
    obtain ⟨hwith, h⟩ := ite_none_right_eq_some.mp h
    exact some.inj h ▸ enforce_handles hwith hstg
  case h_14 hstg hcomm => exact some.inj h ▸ .looked _ _ _ _ hcomm hstg
  case h_15 hstg hcomm => exact some.inj h ▸ decideGrant_handles hcomm hstg
  case h_16 => cases h

end Request

namespace Daemon

/-- Lets connection `i` go on if `f` says how it goes on from its phase. -/
def onConnection (s : Daemon Fp) (i : Nat) (f : Connection Fp → Option (Daemon Fp)) :
    Option (Daemon Fp) :=
  (s.connections[i]?).bind f

def step (x : Config Fp ε) (s : Daemon Fp) : Action Fp ε → Option (Daemon Fp)
  | .accept fp device advertised version =>
    some { s with
      connections := s.connections ++ [⟨fp, device, advertised, version, .accepted, false⟩] }
  | .lookup i =>
    s.onConnection i (fun c => if c.phase = .accepted then some (s.lookup x i c) else none)
  | .abandon i =>
    s.onConnection i (fun c => if c.phase.isHandshake then some (s.setPhase i .closed) else none)
  | .storePeer i pairedAtUnix write =>
    s.onConnection i (fun c =>
      if c.phase = .pairing then some (s.storePeer x i c pairedAtUnix write) else none)
  | .reread i =>
    s.onConnection i (fun c => if c.phase = .stored then some (s.reread x i c) else none)
  | .establish i => s.onConnection i (fun c =>
    match c.phase with
    | .admitted negotiated => some (s.setPhase i (.connecting negotiated))
    | _ => none)
  | .clear i => s.onConnection i (fun c =>
    match c.phase with
    | .connecting negotiated =>
      some ({ s with requested := update s.requested c.fingerprint none }.setPhase i
        (.registering negotiated))
    | _ => none)
  | .register i => s.onConnection i (fun c =>
    match c.phase with
    | .registering negotiated => some (s.register i c.fingerprint negotiated)
    | _ => none)
  | .finish i => s.onConnection i (fun c =>
    match c.phase with
    | .running negotiated => some (s.setPhase i (.ending negotiated))
    | _ => none)
  | .unregister i => s.onConnection i (fun c =>
    match c.phase with
    | .ending _ => some (s.unregister i c.fingerprint)
    | _ => none)
  | .request command => some { s with requests := s.requests ++ [⟨command, .started, 0⟩] }
  | .proceed i write =>
    (s.requests[i]?).bind (fun r =>
      (r.proceed x s write).map (fun t => { t.1 with requests := t.1.requests.set i t.2 }))

inductive Steps (x : Config Fp ε) (s : Daemon Fp) : Action Fp ε → Daemon Fp → Prop
  | accept (fp : Fp) (device : Device) (advertised : List String) (version : Nat) :
      Steps x s (.accept fp device advertised version)
        { s with
          connections := s.connections ++ [⟨fp, device, advertised, version, .accepted, false⟩] }
  | lookup (i : Nat) (c : Connection Fp) : s.connections[i]? = some c → c.phase = .accepted →
      Steps x s (.lookup i) (s.lookup x i c)
  | abandon (i : Nat) (c : Connection Fp) : s.connections[i]? = some c → c.phase.isHandshake →
      Steps x s (.abandon i) (s.setPhase i .closed)
  | storePeer (i : Nat) (c : Connection Fp) (pairedAtUnix : Int) (write : Except ε Unit) :
      s.connections[i]? = some c → c.phase = .pairing →
      Steps x s (.storePeer i pairedAtUnix write) (s.storePeer x i c pairedAtUnix write)
  | reread (i : Nat) (c : Connection Fp) : s.connections[i]? = some c → c.phase = .stored →
      Steps x s (.reread i) (s.reread x i c)
  | establish (i : Nat) (c : Connection Fp) (negotiated : List String) : s.connections[i]? =
    some c → c.phase = .admitted negotiated →
    Steps x s (.establish i) (s.setPhase i (.connecting negotiated))
  | clear (i : Nat) (c : Connection Fp) (negotiated : List String) : s.connections[i]? = some c →
      c.phase = .connecting negotiated → Steps x s (.clear i)
        ({ s with requested := update s.requested c.fingerprint none }.setPhase i
          (.registering negotiated))
  | register (i : Nat) (c : Connection Fp) (negotiated : List String) : s.connections[i]? = some c →
      c.phase = .registering negotiated →
      Steps x s (.register i) (s.register i c.fingerprint negotiated)
  | finish (i : Nat) (c : Connection Fp) (negotiated : List String) : s.connections[i]? = some c →
      c.phase = .running negotiated → Steps x s (.finish i) (s.setPhase i (.ending negotiated))
  | unregister (i : Nat) (c : Connection Fp) (negotiated : List String) : s.connections[i]? =
    some c → c.phase = .ending negotiated → Steps x s (.unregister i) (s.unregister i c.fingerprint)
  | request (command : Command) :
      Steps x s (.request command) { s with requests := s.requests ++ [⟨command, .started, 0⟩] }
  | proceed (i : Nat) (r : Request Fp) (write : Except ε Unit) (t : Daemon Fp)
      (r' : Request Fp) : s.requests[i]? = some r → r.Handles x s write t r' →
      Steps x s (.proceed i write) { t with requests := t.requests.set i r' }

variable {x : Config Fp ε} {s t : Daemon Fp} {a : Action Fp ε}

theorem onConnection_cases {i} {f : Connection Fp → Option (Daemon Fp)}
    (h : s.onConnection i f = some t) : ∃ c, s.connections[i]? = some c ∧ f c = some t :=
  bind_eq_some_iff.mp h

theorem step_cases (h : s.step x a = some t) : Steps x s a t := by
  cases a with
  | accept fp device advertised version => exact some.inj h ▸ .accept fp device advertised version
  | request command => exact some.inj h ▸ .request command
  | proceed i write =>
    obtain ⟨r, hr, h⟩ := bind_eq_some_iff.mp h
    obtain ⟨u, hu, rfl⟩ := map_eq_some_iff.mp h
    exact .proceed i r write u.1 u.2 hr (Request.proceed_cases hu)
  | lookup i =>
    obtain ⟨c, hc, h⟩ := onConnection_cases h
    obtain ⟨hph, h⟩ := ite_none_right_eq_some.mp h
    exact some.inj h ▸ .lookup i c hc hph
  | abandon i =>
    obtain ⟨c, hc, h⟩ := onConnection_cases h
    obtain ⟨hph, h⟩ := ite_none_right_eq_some.mp h
    exact some.inj h ▸ .abandon i c hc hph
  | storePeer i pairedAtUnix write =>
    obtain ⟨c, hc, h⟩ := onConnection_cases h
    obtain ⟨hph, h⟩ := ite_none_right_eq_some.mp h
    exact some.inj h ▸ .storePeer i c pairedAtUnix write hc hph
  | reread i =>
    obtain ⟨c, hc, h⟩ := onConnection_cases h
    obtain ⟨hph, h⟩ := ite_none_right_eq_some.mp h
    exact some.inj h ▸ .reread i c hc hph
  | establish i =>
    obtain ⟨c, hc, h⟩ := onConnection_cases h
    split at h
    · exact some.inj h ▸ .establish i c _ hc ‹_›
    · cases h
  | clear i =>
    obtain ⟨c, hc, h⟩ := onConnection_cases h
    split at h
    · exact some.inj h ▸ .clear i c _ hc ‹_›
    · cases h
  | register i =>
    obtain ⟨c, hc, h⟩ := onConnection_cases h
    split at h
    · exact some.inj h ▸ .register i c _ hc ‹_›
    · cases h
  | finish i =>
    obtain ⟨c, hc, h⟩ := onConnection_cases h
    split at h
    · exact some.inj h ▸ .finish i c _ hc ‹_›
    · cases h
  | unregister i =>
    obtain ⟨c, hc, h⟩ := onConnection_cases h
    split at h
    · exact some.inj h ▸ .unregister i c _ hc ‹_›
    · cases h

theorem step_requests (h : s.step x a = some t) :
    (t.requests = s.requests ∧ ∀ i write, a ≠ .proceed i write) ∨
      (∃ command, a = .request command ∧ t.requests = s.requests ++ [⟨command, .started, 0⟩]) ∨
      ∃ i r write u r', a = .proceed i write ∧ s.requests[i]? = some r ∧ r.Handles x s write u r' ∧
      t = { u with requests := s.requests.set i r' } := by
  cases step_cases h with
  | accept | abandon | establish | clear | finish => exact .inl ⟨rfl, nofun⟩
  | lookup i c =>
    obtain ⟨_, hu⟩ := lookup_eq x i c s
    exact .inl ⟨by rw [hu]; rfl, nofun⟩
  | storePeer i c time write =>
    obtain ⟨_, _, _, hu⟩ := storePeer_eq x i c s time write
    exact .inl ⟨by rw [hu]; rfl, nofun⟩
  | reread i c =>
    obtain ⟨_, hu⟩ := reread_eq x i c s
    exact .inl ⟨by rw [hu]; rfl, nofun⟩
  | register i c negotiated =>
    obtain ⟨_, hu⟩ := register_eq i s c.fingerprint negotiated
    exact .inl ⟨by rw [hu], nofun⟩
  | unregister i c =>
    obtain ⟨_, hu⟩ := unregister_eq i s c.fingerprint
    exact .inl ⟨by rw [hu]; rfl, nofun⟩
  | request command => exact .inr (.inl ⟨command, rfl, rfl⟩)
  | proceed i r write u r' hr hh =>
    have hsame : u.requests = s.requests := by cases hh <;> rfl
    exact .inr (.inr ⟨i, r, write, u, r', rfl, hr, hh, by rw [hsame]⟩)

end Daemon

end OmniBridge.Desktop
