import Mathlib.Data.Finset.Sort

/-! The portable half of the desktop's notification sink: roles and their epochs,
the policy of a peer, the upsert message and the snapshot bracket. A notification
identity is opaque here and only compared. -/

namespace OmniBridge.Sink

def u32Max : Nat := 2 ^ 32 - 1
def u64Max : Nat := 2 ^ 64 - 1

def bump (ceiling n : Nat) : Nat := min (n + 1) ceiling

inductive Role where
  | source | sink | dismissTarget | dismissReporter
deriving DecidableEq

namespace Role

def fromWire : Int → Option Role
  | 1 => some .source
  | 2 => some .sink
  | 3 => some .dismissTarget
  | 4 => some .dismissReporter
  | _ => none

def toWire : Role → Int
  | .source => 1
  | .sink => 2
  | .dismissTarget => 3
  | .dismissReporter => 4

def inOrder : List Role := [.source, .sink, .dismissTarget, .dismissReporter]

end Role

structure NotificationRoles where
  roles : List Int
  epoch : Nat
deriving DecidableEq

inductive RolesRejection where
  | unsetEpoch
  | staleEpoch (last got : Nat)
deriving DecidableEq

structure PeerRoles where
  roles : Finset Role := ∅
  epoch : Nat := 0
deriving DecidableEq

namespace PeerRoles

def has (r : PeerRoles) (role : Role) : Bool := role ∈ r.roles

def apply (r : PeerRoles) (announcement : NotificationRoles) : Except RolesRejection PeerRoles :=
  if announcement.epoch = 0 then .error .unsetEpoch
  else if announcement.epoch ≤ r.epoch then .error (.staleEpoch r.epoch announcement.epoch)
  else .ok ⟨(announcement.roles.filterMap Role.fromWire).toFinset, announcement.epoch⟩

end PeerRoles

structure LocalRoles where
  announced : Option (Finset Role) := none
  epoch : Nat := 0
deriving DecidableEq

namespace LocalRoles

def hasAnnounced (r : LocalRoles) (role : Role) : Bool :=
  r.announced.any (fun roles => role ∈ roles)

def reset : LocalRoles := {}

def desired (serverAvailable dismissReporting : Bool) : Finset Role :=
  if !serverAvailable then ∅
  else if dismissReporting then {.sink, .dismissReporter}
  else {.sink}

def wire (roles : Finset Role) : List Int :=
  (Role.inOrder.filter (fun r => r ∈ roles)).map Role.toWire

def announce (r : LocalRoles) (serverAvailable dismissReporting : Bool) :
    LocalRoles × Option NotificationRoles :=
  if r.announced = some (desired serverAvailable dismissReporting) then (r, none)
  else
    (⟨some (desired serverAvailable dismissReporting), bump u32Max r.epoch⟩,
      some ⟨wire (desired serverAvailable dismissReporting), bump u32Max r.epoch⟩)

variable {serverAvailable dismissReporting : Bool} {r : LocalRoles}

theorem announce_of_same (h : r.announced = some (desired serverAvailable dismissReporting)) :
    r.announce serverAvailable dismissReporting = (r, none) :=
  if_pos h

theorem announce_of_changed (h : r.announced ≠ some (desired serverAvailable dismissReporting)) :
    r.announce serverAvailable dismissReporting =
      (⟨some (desired serverAvailable dismissReporting), bump u32Max r.epoch⟩,
      some ⟨wire (desired serverAvailable dismissReporting), bump u32Max r.epoch⟩) :=
  if_neg h

theorem announce_announced (r : LocalRoles) (serverAvailable dismissReporting) :
    (r.announce serverAvailable dismissReporting).1.announced =
      some (desired serverAvailable dismissReporting) := by
  by_cases h : r.announced = some (desired serverAvailable dismissReporting)
  · rw [announce_of_same h, h]
  · rw [announce_of_changed h]

end LocalRoles

inductive Privacy where
  | isPublic | isPrivate | isSecret
deriving DecidableEq

def privacyOrDefault : Int → Privacy
  | 0 => .isPrivate
  | 1 => .isPublic
  | 2 => .isPrivate
  | _ => .isSecret

inductive Urgency where
  | low | normal
deriving DecidableEq

/-- Only a low importance is quieter; no importance is louder than normal. -/
def urgencyFor : Int → Urgency
  | 1 => .low
  | _ => .normal

structure NotificationUpsert where
  originDeviceId : String := ""
  appId : String := ""
  appLabel : String := ""
  title : String := ""
  body : String := ""
  importance : Int := 0
  privacy : Int := 0
  redacted : Bool := false
  contentHash : List UInt8 := []
deriving DecidableEq

inductive LockPolicy where
  | full | appOnly | suppress
deriving DecidableEq

namespace LockPolicy

def asStr : LockPolicy → String
  | .full => "full"
  | .appOnly => "app-only"
  | .suppress => "suppress"

def parse (normalize : String → String) (value : String) : Option LockPolicy :=
  match normalize value with
  | "full" => some .full
  | "app-only" | "app_only" | "apponly" => some .appOnly
  | "suppress" | "none" => some .suppress
  | _ => none

end LockPolicy

structure NotificationPolicy where
  allowMirror : Bool := true
  whenSinkLocked : LockPolicy := .appOnly
  allowDismissSync : Bool := false
deriving DecidableEq

namespace NotificationPolicy

def denied : NotificationPolicy := ⟨false, .suppress, false⟩

def isDenied (p : NotificationPolicy) : Bool := !p.allowMirror

def maySyncDismissals (p : NotificationPolicy) : Bool := p.allowMirror && p.allowDismissSync

end NotificationPolicy

inductive Presentation where
  | full | appOnly | suppress
deriving DecidableEq

namespace Presentation

def resolve (policy : NotificationPolicy) (locked : Bool) : Presentation :=
  if !locked then .full
  else match policy.whenSinkLocked with
    | .full => .full
    | .appOnly => .appOnly
    | .suppress => .suppress

def isReduced (p : Presentation) : Bool := p = .appOnly

end Presentation

inductive Phase where
  | phaseUnspecified | phaseBegin | phaseEnd
deriving DecidableEq

structure SyncMarker where
  syncId : List UInt8
  phase : Phase
deriving DecidableEq

inductive SnapshotRejection where
  | endWithoutBegin | wrongSyncId
deriving DecidableEq

section Snapshot

variable {Id : Type}

inductive SnapshotStep (Id : Type) where
  | opened | recorded | live
  | complete (named : Finset Id)
  | restarted
  | ignored (why : SnapshotRejection)

structure OpenSnapshot (Id : Type) where
  syncId : List UInt8
  named : Finset Id
deriving DecidableEq

abbrev Snapshot (Id : Type) := Option (OpenSnapshot Id)

namespace Snapshot

def marker (s : Snapshot Id) (m : SyncMarker) : Snapshot Id × SnapshotStep Id :=
  match m.phase with
  | .phaseBegin =>
    (some ⟨m.syncId, ∅⟩, if s.isSome then .restarted else .opened)
  | .phaseEnd =>
    match s with
    | none => (none, .ignored .endWithoutBegin)
    | some o =>
      if o.syncId = m.syncId then (none, .complete o.named)
      -- a mismatched END is put back, so that the right one still completes it
      else (some o, .ignored .wrongSyncId)
  | .phaseUnspecified => (s, .ignored .endWithoutBegin)

def upsert [DecidableEq Id] (s : Snapshot Id) (id : Id) : Snapshot Id × SnapshotStep Id :=
  match s with
  | some o => (some { o with named := insert id o.named }, .recorded)
  | none => (none, .live)

def abandon : Snapshot Id := none

variable {s : Snapshot Id} {m : SyncMarker}

theorem marker_complete {named} (h : (marker s m).2 = .complete named) :
    m.phase = .phaseEnd ∧ s = some ⟨m.syncId, named⟩ := by
  unfold marker at h
  cases hp : m.phase with
  | phaseUnspecified => simp [hp] at h
  | phaseBegin =>
    simp only [hp] at h
    split at h <;> cases h
  | phaseEnd =>
    cases s with
    | none => simp [hp] at h
    | some o =>
      simp only [hp] at h
      split at h
      · rename_i heq
        obtain rfl : o.named = named := by simpa using h
        exact ⟨rfl, by rw [← heq]⟩
      · cases h

theorem marker_unchanged (hph : m.phase ≠ .phaseBegin)
    (h : ∀ named, (marker s m).2 ≠ .complete named) : (marker s m).1 = s := by
  unfold marker at h ⊢
  cases hp : m.phase with
  | phaseBegin => exact absurd hp hph
  | phaseUnspecified => rfl
  | phaseEnd =>
    cases s with
    | none => rfl
    | some o =>
      by_cases hid : o.syncId = m.syncId
      · simp [hp, hid] at h
      · simp [hid]

end Snapshot

end Snapshot

end OmniBridge.Sink
