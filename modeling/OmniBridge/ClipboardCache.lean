import OmniBridge.Bounded

/-! The two bounded caches of the clipboard: handled event ids, and the digests
of clips this device wrote on a peer's behalf. Instants are milliseconds of the
monotonic clock. -/

namespace OmniBridge.Clipboard

open List Option

def EVENT_CACHE_ENTRIES : Nat := 256
def EVENT_CACHE_TTL : Nat := 300000
def SUPPRESSION_ENTRIES : Nat := 64
def SUPPRESSION_TTL : Nat := 10000

structure EventCache where
  entries : List (List UInt8 × Nat) := []
  capacity : Nat := EVENT_CACHE_ENTRIES
  ttl : Nat := EVENT_CACHE_TTL

namespace EventCache

def expire (now : Nat) (c : EventCache) : EventCache :=
  { c with entries := c.entries.dropWhile (fun e => c.ttl ≤ now - e.2) }

def admitEvent (now : Nat) (eventId : List UInt8) (c : EventCache) : Bool × EventCache :=
  let c := c.expire now
  if c.entries.any (fun e => e.1 == eventId) then (false, c)
  else (true, { c with entries := keepLast c.capacity (c.entries ++ [(eventId, now)]) })

end EventCache

structure Suppressed (D : Type) where
  hash : D
  armedAt : Nat
  originDeviceId : String
deriving DecidableEq

structure SuppressionCache (D : Type) where
  entries : List (Suppressed D) := []
  capacity : Nat := SUPPRESSION_ENTRIES
  ttl : Nat := SUPPRESSION_TTL

namespace SuppressionCache

variable {D : Type}

def expired (now : Nat) (c : SuppressionCache D) (e : Suppressed D) : Bool :=
  c.ttl ≤ now - e.armedAt

def expire (now : Nat) (c : SuppressionCache D) : SuppressionCache D :=
  { c with entries := c.entries.dropWhile (c.expired now) }

def arm (now : Nat) (hash : D) (origin : String) (c : SuppressionCache D) : SuppressionCache D :=
  let c := c.expire now
  { c with entries := keepLast c.capacity (c.entries ++ [⟨hash, now, origin⟩]) }

def take [DecidableEq D] (now : Nat) (hash : D) (c : SuppressionCache D) :
    Option String × SuppressionCache D :=
  let c := c.expire now
  ((c.entries.find? (fun e => e.hash == hash)).map Suppressed.originDeviceId,
    { c with entries := c.entries.eraseP (fun e => e.hash == hash) })

def armed [DecidableEq D] (hash : D) (c : SuppressionCache D) : Nat :=
  c.entries.countP (fun e => e.hash == hash)

def Fresh (now : Nat) (c : SuppressionCache D) : Prop := ∀ e ∈ c.entries, c.expired now e = false

instance (now : Nat) (c : SuppressionCache D) : Decidable (c.Fresh now) :=
  inferInstanceAs (Decidable (∀ e ∈ c.entries, c.expired now e = false))

variable {now : Nat} {c : SuppressionCache D}

theorem expire_of_fresh (h : c.Fresh now) : c.expire now = c := by
  have hd : c.entries.dropWhile (c.expired now) = c.entries := by
    cases hc : c.entries with
    | nil => rfl
    | cons e =>
      have he := h e (by simp [hc])
      simp [he]
  simp only [expire, hd]

/-- The entry that the next `arm` pushes out, when the cache is full. -/
def oldest (c : SuppressionCache D) : Option (Suppressed D) :=
  if c.entries.length < c.capacity then none else c.entries.head?

structure Bounded (c : SuppressionCache D) : Prop where
  length_le : c.entries.length ≤ c.capacity
  capacity_pos : 0 < c.capacity

theorem Bounded.arm (h : c.Bounded) (hash) (origin : String) : (c.arm now hash origin).Bounded :=
  ⟨length_keepLast_le _ _, h.capacity_pos⟩

variable [DecidableEq D]

theorem armed_take (hf : c.Fresh now) (hash) :
    (c.take now hash).2.armed hash = c.armed hash - 1 := by
  simp only [take, expire_of_fresh hf, armed, countP_eraseP]

theorem armed_take_of_ne (hf : c.Fresh now) {hash other} (hne : other ≠ hash) :
    (c.take now hash).2.armed other = c.armed other := by
  simp only [take, expire_of_fresh hf, armed]
  apply countP_eraseP_of_disjoint
  intro e he
  have hh : e.hash = hash := by simpa using he
  simp [hh, hne.symm]

theorem take_eq_none (hf : c.Fresh now) {hash} (h : (c.take now hash).1 = none) :
    c.armed hash = 0 := by
  simp only [take, expire_of_fresh hf, map_eq_none_iff, find?_eq_none] at h
  exact countP_eq_zero.mpr h

theorem Bounded.take (h : c.Bounded) (hash) : (c.take now hash).2.Bounded := by
  refine ⟨?_, h.capacity_pos⟩
  have hl : (c.entries.dropWhile (c.expired now)).length ≤ c.entries.length :=
    (dropWhile_sublist _).length_le
  have he := (eraseP_sublist (p := fun e => e.hash == hash)
    (l := c.entries.dropWhile (c.expired now))).length_le
  exact Nat.le_trans he (Nat.le_trans hl h.length_le)

theorem armed_arm (hb : c.Bounded) (hf : c.Fresh now) (hash other : D) (origin) :
    (c.arm now hash origin).armed other +
      (c.oldest.elim 0 (fun e => if e.hash = other then 1 else 0)) = c.armed other +
      (if hash = other then 1 else 0) := by
  simp only [arm, expire_of_fresh hf, armed, oldest]
  by_cases hroom : c.entries.length < c.capacity
  · rw [keepLast_of_length_le (by simp only [length_append, length_singleton]; omega)]
    simp [hroom, countP_cons]
  have hlen : c.entries.length = c.capacity := Nat.le_antisymm hb.length_le (Nat.le_of_not_lt hroom)
  cases hc : c.entries with
  | nil =>
    have hpos := hb.capacity_pos
    simp [hc] at hlen
    omega
  | cons e es =>
    have hk : (es ++ [⟨hash, now, origin⟩] : List (Suppressed D)).length = c.capacity :=
      by simpa [hc] using hlen
    have hfull : ¬ (e :: es).length < c.capacity := by rw [← hc]; exact hroom
    rw [cons_append, keepLast_cons_of_length_eq hk, if_neg hfull]
    simp only [countP_append, countP_cons, countP_nil, head?_cons, elim_some, beq_iff_eq]
    omega

end SuppressionCache

end OmniBridge.Clipboard
