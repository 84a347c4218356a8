import OmniBridge.SortedMap
import OmniBridge.SinkMessages
import Mathlib.Data.List.MinMax
import Mathlib.Data.Prod.Lex

/-! What the desktop is showing for one peer: a table of mirrors by notification
identity, with a ceiling. -/

namespace OmniBridge.Sink

open SortedMap

def MAX_MIRRORS_PER_PEER : Nat := 200

abbrev ServerId := Nat

structure MirrorEntry where
  serverId : Option ServerId
  contentHash : List UInt8
  appName : String
  urgency : Urgency
  reduced : Bool
  originDeviceId : String
  seq : Nat
deriving DecidableEq

structure MirrorTable (Id : Type) [LinearOrder Id] where
  entries : SortedMap Id MirrorEntry := .empty
  nextSeq : Nat := 0
  evicted : Nat := 0
deriving DecidableEq

namespace MirrorTable

variable {Id : Type} [LinearOrder Id]

def get (t : MirrorTable Id) (id : Id) : Option MirrorEntry := t.entries.get id

section

variable (t : MirrorTable Id)

def oldest : Option (Id × MirrorEntry) :=
  t.entries.entries.argmin (·.2.seq)

def evictIfFull : MirrorTable Id × Option (Id × MirrorEntry) :=
  if t.entries.size < MAX_MIRRORS_PER_PEER then (t, none)
  else match t.oldest with
    | none => (t, none)
    | some (id, entry) =>
      ({ t with entries := t.entries.erase id, evicted := bump u64Max t.evicted }, some (id, entry))

/-- Replacing an identity needs no slot; a new one may evict the oldest. -/
def insert (t : MirrorTable Id) (id : Id) (serverId : Option ServerId) (contentHash : List UInt8)
    (appName : String) (urgency : Urgency) (reduced : Bool) (originDeviceId : String) :
    MirrorTable Id × Option (Id × MirrorEntry) :=
  let room := if t.entries.contains id then (t, none) else t.evictIfFull
  ({ room.1 with
      entries := room.1.entries.insert id
        ⟨serverId, contentHash, appName, urgency, reduced, originDeviceId, room.1.nextSeq⟩
      nextSeq := bump u64Max room.1.nextSeq }, room.2)

def remove (id : Id) : MirrorTable Id × Option MirrorEntry :=
  ({ t with entries := t.entries.erase id }, t.get id)

def forgetServerId (serverId : ServerId) : MirrorTable Id × Option (Id × MirrorEntry) :=
  match t.entries.entries.find? (fun p => p.2.serverId = some serverId) with
  | none => (t, none)
  | some (id, entry) => ({ t with entries := t.entries.erase id }, some (id, entry))

def invalidateServerIds : MirrorTable Id :=
  { t with entries := t.entries.mapWithKey (fun _ entry => { entry with serverId := none }) }

def iter : List (Id × MirrorEntry) :=
  t.entries.entries.insertionSort (fun p q => p.2.seq ≤ q.2.seq)

def notNamedIn (named : Finset Id) : List Id :=
  t.entries.keys.filter (fun id => id ∉ named)

def drain : MirrorTable Id × List (Id × MirrorEntry) :=
  ({ t with entries := .empty }, t.entries.entries)

def modify (t : MirrorTable Id) (id : Id) (f : MirrorEntry → MirrorEntry) : MirrorTable Id :=
  { t with entries := t.entries.modify id f }

@[simp]
theorem get_remove_self (id) : (t.remove id).1.get id = none :=
  get_erase_self _ _

end

variable {id other : Id} {t : MirrorTable Id}

theorem get_remove_of_ne (h : other ≠ id) (t : MirrorTable Id) :
    (t.remove id).1.get other = t.get other :=
  get_erase_of_ne h _

theorem get_remove_eq_some {entry} (h : (t.remove id).1.get other = some entry) :
    t.get other = some entry ∧ other ≠ id := by
  by_cases hid : other = id
  · simp [hid] at h
  · exact ⟨by rwa [get_remove_of_ne hid] at h, hid⟩

@[simp]
theorem get_drain (t : MirrorTable Id) (id) : t.drain.1.get id = none := get_empty _

theorem get_invalidateServerIds (t : MirrorTable Id) (id) :
    t.invalidateServerIds.get id = (t.get id).map ({ · with serverId := none }) :=
  get_mapWithKey _ _ _

theorem get_modify_self (t : MirrorTable Id) (id) (f : MirrorEntry → MirrorEntry) :
    (t.modify id f).get id = (t.get id).map f :=
  SortedMap.get_modify_self _ _ _

theorem get_modify_of_ne (h : other ≠ id) (f : MirrorEntry → MirrorEntry) (t : MirrorTable Id) :
    (t.modify id f).get other = t.get other :=
  SortedMap.get_modify_of_ne h f _

theorem mem_iter {entry} : (id, entry) ∈ t.iter ↔ t.get id = some entry := by
  rw [iter, List.mem_insertionSort]
  exact get_eq_some_iff.symm

theorem mem_notNamedIn {named} :
    id ∈ t.notNamedIn named ↔ (∃ entry, t.get id = some entry) ∧ id ∉ named := by
  rw [notNamedIn, List.mem_filter, mem_keys, decide_eq_true_eq]
  rfl

theorem forgetServerId_cases (t : MirrorTable Id) (serverId : ServerId) :
    (t.forgetServerId serverId = (t, none) ∧ ∀ id entry, t.get id = some entry →
      entry.serverId ≠ some serverId) ∨ ∃ id entry, t.get id = some entry ∧
      entry.serverId = some serverId ∧
      t.forgetServerId serverId = ((t.remove id).1, some (id, entry)) := by
  unfold forgetServerId
  cases hf : t.entries.entries.find? (fun p => p.2.serverId = some serverId) with
  | none =>
    rw [List.find?_eq_none] at hf
    refine .inl ⟨rfl, fun id entry hget => ?_⟩
    have hmem : (id, entry) ∈ t.entries.entries := get_eq_some_iff.mp hget
    simpa using hf _ hmem
  | some p =>
    have hmem := List.mem_of_find?_eq_some hf
    exact .inr ⟨p.1, p.2, get_eq_some_iff.mpr hmem, by simpa using List.find?_some hf, rfl⟩

variable {serverId : Option ServerId} {contentHash : List UInt8} {appName : String}
  {urgency : Urgency} {reduced : Bool} {originDeviceId : String}

theorem insert_cases (t : MirrorTable Id) (id : Id) :
    ((∃ old, t.get id = some old) ∨ t.entries.size < MAX_MIRRORS_PER_PEER) ∧
      t.insert id serverId contentHash appName urgency reduced originDeviceId =
      ({ t with
          entries := t.entries.insert id ⟨serverId, contentHash, appName, urgency, reduced,
            originDeviceId, t.nextSeq⟩
          nextSeq := bump u64Max t.nextSeq }, none) ∨
    (t.get id = none ∧ MAX_MIRRORS_PER_PEER ≤ t.entries.size) ∧ ∃ out old, t.get out = some old ∧
      (∀ other e, t.get other = some e → old.seq ≤ e.seq) ∧
      t.insert id serverId contentHash appName urgency reduced originDeviceId =
      (⟨(t.entries.erase out).insert id ⟨serverId, contentHash, appName, urgency, reduced,
      originDeviceId, t.nextSeq⟩, bump u64Max t.nextSeq, bump u64Max t.evicted⟩,
      some (out, old)) := by
  unfold insert evictIfFull
  cases hget : t.get id with
  | some old =>
    have hin : t.entries.contains id := Option.isSome_iff_exists.mpr ⟨old, hget⟩
    rw [if_pos hin]
    exact .inl ⟨.inl ⟨old, rfl⟩, rfl⟩
  | none =>
    have hnew : ¬ t.entries.contains id := by
      rw [contains, show t.entries.get id = none from hget]
      simp
    rw [if_neg hnew]
    by_cases hlt : t.entries.size < MAX_MIRRORS_PER_PEER
    · rw [if_pos hlt]
      exact .inl ⟨.inr hlt, rfl⟩
    rw [if_neg hlt]
    cases ho : t.oldest with
    | none => simp [size, List.argmin_eq_none.mp ho, MAX_MIRRORS_PER_PEER] at hlt
    | some p =>
      refine .inr ⟨⟨rfl, Nat.le_of_not_lt hlt⟩, p.1, p.2,
        get_eq_some_iff.mpr (List.argmin_mem ho), ?_, rfl⟩
      exact fun other e he => List.le_of_mem_argmin (f := fun p : Id × MirrorEntry => p.2.seq)
        (get_eq_some_iff.mp he) ho

theorem get_insert {t' evicted}
    (h : t.insert id serverId contentHash appName urgency reduced originDeviceId = (t', evicted)) :
    (∃ seq, t'.get id = some ⟨serverId, contentHash, appName, urgency, reduced, originDeviceId,
      seq⟩) ∧ (∀ other, other ≠ id → t'.get other = if evicted.map Prod.fst = some other then none
      else t.get other) ∧ ∀ p ∈ evicted, p.1 ≠ id ∧ t.get p.1 = some p.2 := by
  rcases insert_cases t id with ⟨-, heq⟩ | ⟨⟨hnew, -⟩, out, old, hout, -, heq⟩
  · obtain ⟨rfl, rfl⟩ := Prod.mk.inj (heq.symm.trans h)
    exact ⟨⟨_, get_insert_self _ _ _⟩, fun other hne => get_insert_of_ne hne _ _, nofun⟩
  obtain ⟨rfl, rfl⟩ := Prod.mk.inj (heq.symm.trans h)
  refine ⟨⟨_, get_insert_self _ _ _⟩, fun other hne => ?_, ?_⟩
  · refine (get_insert_of_ne hne _ _).trans ((get_erase _ _ _).trans ?_)
    simp only [Option.map_some, Option.some.injEq, eq_comm]
    rfl
  · rintro _ ⟨⟩
    refine ⟨?_, hout⟩
    rintro rfl
    cases hout.symm.trans hnew

end MirrorTable

end OmniBridge.Sink
