import Mathlib.Data.Finset.Sort

/-! A finite map kept as a list of pairs in the order of its keys, each key once. -/

namespace OmniBridge

open List

structure SortedMap (κ ν : Type*) [LinearOrder κ] where
  entries : List (κ × ν)
  sorted : entries.Pairwise (fun p q => p.1 < q.1)
deriving DecidableEq

namespace SortedMap

variable {κ ν μ : Type*} [LinearOrder κ]

def empty : SortedMap κ ν := ⟨[], List.Pairwise.nil⟩

instance : Inhabited (SortedMap κ ν) := ⟨empty⟩

section

variable (m : SortedMap κ ν)

variable (k : κ)

def get : Option ν :=
  (m.entries.find? (·.1 = k)).map Prod.snd

def contains : Bool := (m.get k).isSome

def keys : List κ := m.entries.map Prod.fst

def size : Nat := m.entries.length

def filter (p : κ × ν → Bool) (m : SortedMap κ ν) : SortedMap κ ν :=
  ⟨m.entries.filter p, m.sorted.filter p⟩

def erase (m : SortedMap κ ν) : SortedMap κ ν := m.filter (·.1 ≠ k)

def mapWithKey (f : κ → ν → μ) (m : SortedMap κ ν) : SortedMap κ μ :=
  ⟨m.entries.map (fun p => (p.1, f p.1 p.2)), m.sorted.map _ (fun _ _ h => h)⟩

def modify (f : ν → ν) (m : SortedMap κ ν) : SortedMap κ ν :=
  m.mapWithKey (fun l v => if l = k then f v else v)

theorem sorted_insert (v : ν) (m : SortedMap κ ν) :
    (m.entries.filter (·.1 < k) ++ (k, v) :: m.entries.filter (fun p => k < p.1)).Pairwise
      (fun p q => p.1 < q.1) := by
  rw [pairwise_append, pairwise_cons]
  refine ⟨m.sorted.filter _, ⟨?_, m.sorted.filter _⟩, ?_⟩
  · intro q hq
    simpa using (mem_filter.mp hq).2
  · intro p hp q hq
    have hpk : p.1 < k := by simpa using (mem_filter.mp hp).2
    rcases mem_cons.mp hq with rfl | hq
    · exact hpk
    · have hkq : k < q.1 := by simpa using (mem_filter.mp hq).2
      exact hpk.trans hkq

def insert (v : ν) (m : SortedMap κ ν) : SortedMap κ ν := ⟨_, m.sorted_insert k v⟩

theorem nodup_keys : m.keys.Nodup := by
  unfold keys
  rw [List.Nodup, pairwise_map]
  exact m.sorted.imp (·.ne)

end

variable {k l : κ} {v : ν} {m : SortedMap κ ν}

theorem mem_entries_unique {w} (hv : (k, v) ∈ m.entries) (hw : (k, w) ∈ m.entries) : v = w := by
  have h := inj_on_of_nodup_map m.nodup_keys hv hw rfl
  exact congrArg Prod.snd h

theorem get_eq_some_iff : m.get k = some v ↔ (k, v) ∈ m.entries := by
  unfold get
  constructor
  · intro h
    obtain ⟨p, hp, hv⟩ := Option.map_eq_some_iff.mp h
    have hk : p.1 = k := by simpa using find?_some hp
    obtain rfl : p = (k, v) := Prod.ext hk hv
    exact mem_of_find?_eq_some hp
  · intro h
    cases hf : m.entries.find? (·.1 = k) with
    | none =>
      rw [find?_eq_none] at hf
      simpa using hf (k, v) h
    | some p =>
      have hk : p.1 = k := by simpa using find?_some hf
      have hp : (k, p.2) ∈ m.entries := hk ▸ mem_of_find?_eq_some hf
      exact congrArg some (mem_entries_unique hp h)

theorem get_eq_none_iff : m.get k = none ↔ k ∉ m.keys := by
  rw [Option.eq_none_iff_forall_ne_some]
  simp only [ne_eq, get_eq_some_iff, keys, mem_map, Prod.exists, exists_and_right, exists_eq_right,
    not_exists]

theorem mem_keys : k ∈ m.keys ↔ ∃ v, m.get k = some v := by
  simp only [get_eq_some_iff, keys, mem_map, Prod.exists, exists_and_right, exists_eq_right]

theorem contains_iff : m.contains k ↔ k ∈ m.keys := by
  rw [contains, Option.isSome_iff_exists, mem_keys]

theorem get_congr {m' : SortedMap κ μ} {k'} {f : ν → μ}
    (h : ∀ w, (k', w) ∈ m'.entries ↔ ∃ v, (k, v) ∈ m.entries ∧ f v = w) :
    m'.get k' = (m.get k).map f := by
  refine Option.ext (fun w => ?_)
  rw [get_eq_some_iff, Option.map_eq_some_iff, h]
  simp only [get_eq_some_iff]

@[simp]
theorem get_empty (k : κ) : (empty : SortedMap κ ν).get k = none := rfl

theorem get_filter {p : κ × ν → Bool} :
    (m.filter p).get k = (m.get k).filter (fun v => p (k, v)) := by
  refine Option.ext (fun w => ?_)
  rw [Option.filter_eq_some_iff, get_eq_some_iff, get_eq_some_iff, filter, mem_filter]

theorem get_erase_self (m : SortedMap κ ν) (k : κ) : (m.erase k).get k = none := by
  rw [erase, get_filter]
  cases m.get k <;> simp

theorem get_erase_of_ne (h : l ≠ k) (m : SortedMap κ ν) : (m.erase k).get l = m.get l := by
  rw [erase, get_filter]
  cases m.get l <;> simp [h]

theorem get_erase (m : SortedMap κ ν) (k l : κ) :
    (m.erase k).get l = if l = k then none else m.get l := by
  by_cases h : l = k
  · rw [if_pos h, h, get_erase_self]
  · rw [if_neg h, get_erase_of_ne h]

section

variable (f : κ → ν → μ)

theorem get_mapWithKey (m : SortedMap κ ν) (k : κ) :
    (m.mapWithKey f).get k = (m.get k).map (f k) := by
  refine get_congr (fun w => ?_)
  simp only [mapWithKey, mem_map, Prod.exists, Prod.mk.injEq]
  constructor
  · rintro ⟨l, v, hv, rfl, rfl⟩
    exact ⟨v, hv, rfl⟩
  · rintro ⟨v, hv, rfl⟩
    exact ⟨k, v, hv, rfl, rfl⟩

theorem get_modify_self (m : SortedMap κ ν) (k : κ) (f : ν → ν) :
    (m.modify k f).get k = (m.get k).map f := by
  simp [modify, get_mapWithKey]

theorem get_modify_of_ne (h : l ≠ k) (f : ν → ν) (m : SortedMap κ ν) :
    (m.modify k f).get l = m.get l := by
  simp [modify, get_mapWithKey, h]

theorem mem_insert_entries {p} :
    p ∈ (m.insert k v).entries ↔ p = (k, v) ∨ p ∈ m.entries ∧ p.1 ≠ k := by
  simp only [insert, mem_append, mem_cons, mem_filter, decide_eq_true_eq, ne_eq]
  constructor
  · rintro (⟨hp, hlt⟩ | rfl | ⟨hp, hlt⟩)
    · exact .inr ⟨hp, hlt.ne⟩
    · exact .inl rfl
    · exact .inr ⟨hp, hlt.ne'⟩
  · rintro (rfl | ⟨hp, hne⟩)
    · exact .inr (.inl rfl)
    · rcases lt_or_gt_of_ne hne with hlt | hlt
      · exact .inl ⟨hp, hlt⟩
      · exact .inr (.inr ⟨hp, hlt⟩)

theorem get_insert_self (m : SortedMap κ ν) (k : κ) (v : ν) : (m.insert k v).get k = some v :=
  get_eq_some_iff.mpr (mem_insert_entries.mpr (.inl rfl))

theorem get_insert_of_ne (h : l ≠ k) (v : ν) (m : SortedMap κ ν) :
    (m.insert k v).get l = m.get l := by
  refine Option.ext (fun w => ?_)
  rw [get_eq_some_iff, get_eq_some_iff, mem_insert_entries]
  constructor
  · rintro (heq | ⟨hw, -⟩)
    · exact absurd (congrArg Prod.fst heq) h
    · exact hw
  · exact fun hw => .inr ⟨hw, h⟩

theorem get_insert (m : SortedMap κ ν) (k l : κ) (v : ν) :
    (m.insert k v).get l = if l = k then some v else m.get l := by
  by_cases h : l = k
  · rw [if_pos h, h, get_insert_self]
  · rw [if_neg h, get_insert_of_ne h]

theorem ext_entries {m' : SortedMap κ ν} (h : m.entries = m'.entries) : m = m' := by
  cases m
  cases m'
  cases h
  rfl

theorem ext_get {m' : SortedMap κ ν} (h : ∀ k, m.get k = m'.get k) : m = m' := by
  have hmem : ∀ p, p ∈ m.entries ↔ p ∈ m'.entries := by
    rintro ⟨k, v⟩
    rw [← get_eq_some_iff, ← get_eq_some_iff, h]
  have hm : m.entries.Nodup := m.nodup_keys.of_map _
  have hm' : m'.entries.Nodup := m'.nodup_keys.of_map _
  have hperm : m.entries.Perm m'.entries := (perm_ext_iff_of_nodup hm hm').mpr hmem
  exact ext_entries (hperm.eq_of_pairwise (fun p q _ _ hpq hqp => absurd hpq hqp.asymm) m.sorted
    m'.sorted)

theorem insert_eq_self_iff : m.insert k v = m ↔ m.get k = some v := by
  constructor
  · intro h
    rw [← h, get_insert_self]
  · intro h
    refine ext_get (fun l => ?_)
    rw [get_insert]
    split
    · rename_i hl
      rw [hl, h]
    · rfl

theorem modify_eq_self_iff {f : ν → ν} : m.modify k f = m ↔ ∀ v ∈ m.get k, f v = v := by
  constructor
  · intro h v hv
    have hget := m.get_modify_self k f
    rw [h, Option.mem_def.mp hv] at hget
    exact (Option.some.inj hget).symm
  · intro h
    refine ext_get (fun l => ?_)
    by_cases hl : l = k
    · subst hl
      rw [get_modify_self]
      cases hv : m.get l with
      | none => rfl
      | some v => exact congrArg some (h v hv)
    · exact get_modify_of_ne hl f m

theorem keys_mapWithKey (m : SortedMap κ ν) : (m.mapWithKey f).keys = m.keys := by
  simp [keys, mapWithKey]

theorem mapWithKey_insert (m : SortedMap κ ν) (k : κ) (v : ν) :
    (m.insert k v).mapWithKey f = (m.mapWithKey f).insert k (f k v) := by
  refine ext_get (fun l => ?_)
  rw [get_mapWithKey, get_insert, get_insert, get_mapWithKey]
  by_cases hl : l = k
  all_goals simp [hl]

theorem mapWithKey_filter (m : SortedMap κ ν) (p : κ → Bool) :
    (m.filter (fun q => p q.1)).mapWithKey f = (m.mapWithKey f).filter (fun q => p q.1) := by
  refine ext_get (fun l => ?_)
  rw [get_mapWithKey, get_filter, get_filter, get_mapWithKey]
  cases m.get l <;> cases hp : p l <;> simp [hp, Option.filter]

end

theorem mem_keys_filter {p : κ × ν → Bool} (h : k ∈ (m.filter p).keys) : k ∈ m.keys := by
  obtain ⟨q, hq, rfl⟩ := mem_map.mp h
  exact mem_map.mpr ⟨q, (mem_filter.mp hq).1, rfl⟩

theorem mem_keys_erase (h : l ∈ (m.erase k).keys) : l ≠ k ∧ l ∈ m.keys := by
  refine ⟨?_, mem_keys_filter h⟩
  rintro rfl
  exact get_eq_none_iff.mp (get_erase_self m l) h

theorem mem_keys_insert (h : l ∈ (m.insert k v).keys) : l = k ∨ l ∈ m.keys := by
  by_cases hl : l = k
  · exact .inl hl
  · obtain ⟨w, hw⟩ := mem_keys.mp h
    rw [get_insert_of_ne hl] at hw
    exact .inr (mem_keys.mpr ⟨w, hw⟩)

theorem erase_comm (m : SortedMap κ ν) (k l : κ) : (m.erase k).erase l = (m.erase l).erase k := by
  refine ext_get (fun j => ?_)
  simp only [get_erase]
  split_ifs <;> rfl

theorem erase_insert_comm (h : k ≠ l) (m : SortedMap κ ν) (v : ν) :
    (m.insert k v).erase l = (m.erase l).insert k v := by
  refine ext_get (fun j => ?_)
  simp only [get_erase, get_insert]
  split_ifs <;> simp_all

theorem insert_comm (h : k ≠ l) (m : SortedMap κ ν) (v w : ν) :
    (m.insert k v).insert l w = (m.insert l w).insert k v := by
  refine ext_get (fun j => ?_)
  simp only [get_insert]
  split_ifs <;> simp_all

theorem nodup_entries (m : SortedMap κ ν) : m.entries.Nodup := m.nodup_keys.of_map _

theorem mem_erase_entries {p} : p ∈ (m.erase k).entries ↔ p ∈ m.entries ∧ p.1 ≠ k := by
  simp [erase, filter]

section

variable (m) (k)

theorem erase_erase : (m.erase k).erase k = m.erase k := by
  refine ext_get (fun j => ?_)
  simp only [get_erase]
  split_ifs <;> rfl

theorem erase_insert (v : ν) : (m.insert k v).erase k = m.erase k := by
  refine ext_get (fun j => ?_)
  simp only [get_erase, get_insert]
  split_ifs <;> rfl

theorem insert_erase (v : ν) : (m.erase k).insert k v = m.insert k v := by
  refine ext_get (fun j => ?_)
  simp only [get_erase, get_insert]
  split_ifs <;> rfl

theorem insert_insert (v w : ν) : (m.insert k v).insert k w = m.insert k w := by
  refine ext_get (fun j => ?_)
  simp only [get_insert]
  split_ifs <;> rfl

theorem perm_insert (v : ν) : (m.insert k v).entries.Perm ((k, v) :: (m.erase k).entries) := by
  have hnot : (k, v) ∉ (m.erase k).entries := fun hmem => (mem_erase_entries.mp hmem).2 rfl
  refine (perm_ext_iff_of_nodup (nodup_entries _) (nodup_cons.mpr ⟨hnot, nodup_entries _⟩)).mpr ?_
  intro p
  rw [mem_insert_entries, mem_cons, mem_erase_entries]

theorem perm_erase :
    m.entries.Perm ((m.get k).toList.map (fun v => (k, v)) ++ (m.erase k).entries) := by
  cases hget : m.get k with
  | none =>
    have hall : m.entries.filter (·.1 ≠ k) = m.entries := by
      refine filter_eq_self.mpr ?_
      intro p hp
      have hne : p.1 ≠ k := by
        rintro rfl
        exact get_eq_none_iff.mp hget (mem_map_of_mem hp)
      simpa using hne
    exact (List.Perm.of_eq hall.symm)
  | some v =>
    have hnot : (k, v) ∉ (m.erase k).entries := fun hmem => (mem_erase_entries.mp hmem).2 rfl
    refine (perm_ext_iff_of_nodup (nodup_entries _) (nodup_cons.mpr ⟨hnot, nodup_entries _⟩)).mpr ?_
    rintro ⟨l, w⟩
    rw [mem_cons, mem_erase_entries]
    constructor
    · intro hmem
      by_cases hl : l = k
      · subst hl
        exact .inl (by rw [mem_entries_unique hmem (get_eq_some_iff.mp hget)])
      · exact .inr ⟨hmem, hl⟩
    · rintro (heq | hmem)
      · exact heq ▸ get_eq_some_iff.mp hget
      · exact hmem.1

theorem countP_insert (v : ν) (p : κ × ν → Bool) :
    (m.insert k v).entries.countP p + (m.get k).toList.countP (fun w => p (k, w)) = m.entries.countP
      p + if p (k, v) then 1 else 0 := by
  have herase := (m.perm_erase k).countP_eq p
  have hins := (m.perm_insert k v).countP_eq p
  rw [countP_append, countP_map, Function.comp_def] at herase
  rw [countP_cons] at hins
  omega

end

theorem countP_modify (m : SortedMap κ ν) (k : κ) (f : ν → ν) (p : κ × ν → Bool) :
    (m.modify k f).entries.countP p = m.entries.countP
      (fun q => p (q.1, if q.1 = k then f q.2 else q.2)) := by
  rw [modify, mapWithKey, countP_map, Function.comp_def]

theorem perm_filter_keys {l} (hl : l ⊆ m.entries) (hnodup : l.Nodup) :
    (m.entries.filter (fun p => (l.map Prod.fst).contains p.1)).Perm l := by
  refine (perm_ext_iff_of_nodup ((nodup_entries m).filter _) hnodup).mpr ?_
  rintro ⟨k, v⟩
  simp only [mem_filter, contains_iff_mem, mem_map]
  constructor
  · rintro ⟨hmem, ⟨l, w⟩, hw, rfl⟩
    rw [mem_entries_unique hmem (hl hw)]
    exact hw
  · exact fun hmem => ⟨hl hmem, (k, v), hmem, rfl⟩

end SortedMap

end OmniBridge
