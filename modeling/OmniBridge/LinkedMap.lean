import Mathlib.Data.Finset.Sort

/-! A map kept as a list of pairs in insertion order, where a key that is put
again moves to the end. -/

namespace OmniBridge

abbrev Linked (κ ν : Type) := List (κ × ν)

namespace Linked

variable {κ ν : Type} [DecidableEq κ]

def get (k : κ) (m : Linked κ ν) : Option ν := (m.find? (·.1 = k)).map Prod.snd

def remove (k : κ) (m : Linked κ ν) : Linked κ ν := m.filter (·.1 ≠ k)

def putLast (k : κ) (v : ν) (m : Linked κ ν) : Linked κ ν := remove k m ++ [(k, v)]

theorem get_append (k : κ) (m m' : Linked κ ν) : get k (m ++ m') = (get k m).or (get k m') := by
  unfold get
  rw [List.find?_append]
  cases m.find? (·.1 = k) <;> rfl

theorem get_remove_self (k : κ) (m : Linked κ ν) : get k (remove k m) = none := by
  induction m with
  | nil => rfl
  | cons p m ih =>
    by_cases hp : p.1 = k
    · simpa [remove, hp] using ih
    · simp_all [remove, get]

variable {k l : κ} {m : Linked κ ν}

theorem get_remove_of_ne (h : l ≠ k) (m : Linked κ ν) : get l (remove k m) = get l m := by
  induction m with
  | nil => rfl
  | cons p =>
    by_cases hp : p.1 = k
    · have hl : p.1 ≠ l := fun hpl => h (hpl.symm.trans hp)
      simp_all [remove, get]
    · by_cases hl : p.1 = l
      all_goals simp_all [remove, get]

theorem get_putLast_self (k : κ) (v : ν) (m : Linked κ ν) : get k (putLast k v m) = some v := by
  rw [putLast, get_append, get_remove_self]
  simp [get]

theorem get_putLast_of_ne (h : l ≠ k) (v : ν) (m : Linked κ ν) :
    get l (putLast k v m) = get l m := by
  rw [putLast, get_append, get_remove_of_ne h]
  have hnone : get l [(k, v)] = none := by simp [get, h.symm]
  rw [hnone, Option.or_none]

def keys (m : Linked κ ν) : List κ := m.map Prod.fst

theorem keys_remove (k : κ) (m : Linked κ ν) :
    keys (remove k m) = (keys m).filter (fun l => l ≠ k) := by
  unfold keys remove
  rw [List.filter_map]
  rfl

theorem keys_putLast (k : κ) (v : ν) (m : Linked κ ν) :
    keys (putLast k v m) = (keys m).filter (fun l => l ≠ k) ++ [k] := by
  rw [← keys_remove]
  simp [keys, putLast]

theorem nodup_keys_putLast (h : (keys m).Nodup) (k : κ) (v : ν) : (keys (putLast k v m)).Nodup := by
  rw [keys_putLast]
  refine List.nodup_append.mpr ⟨h.filter _, List.nodup_singleton k, ?_⟩
  intro l hl j hj
  rw [List.mem_singleton.mp hj]
  simpa using (List.mem_filter.mp hl).2

theorem mem_keys_putLast {v} (h : l ∈ keys (putLast k v m)) : l ∈ keys m ∨ l = k := by
  rw [keys_putLast] at h
  rcases List.mem_append.mp h with h | h
  · exact .inl (List.mem_of_mem_filter h)
  · exact .inr (List.mem_singleton.mp h)

omit [DecidableEq κ] in
theorem length_le_of_keys_subset (h : (keys m).Nodup) {l} (hl : keys m ⊆ l) :
    m.length ≤ l.length := by
  have hle := (h.subperm hl).length_le
  simpa [keys] using hle

theorem length_putLast_le (h : (keys m).Nodup) {l} (hl : keys m ⊆ l) (hk : k ∈ l) (v : ν) :
    (putLast k v m).length ≤ l.length := by
  refine length_le_of_keys_subset (nodup_keys_putLast h k v) ?_
  intro j hj
  rcases mem_keys_putLast hj with hold | rfl
  · exact hl hold
  · exact hk

end Linked

end OmniBridge
