import Mathlib.Data.Finset.Sort

/-! Cells of a list addressed by their index: a cell is changed in place, a new
cell goes to the end, and no cell moves. -/

namespace OmniBridge

open List Option

variable {α : Type*}

variable {a b : α} {i j : Nat} {l : List α}

theorem getElem?_modify_of_eq_some (h : l[j]? = some a) (i) (f : α → α) :
    (l.modify i f)[j]? = some (if i = j then f a else a) := by
  rw [getElem?_modify, h]
  rfl

theorem getElem?_modify_self (h : l[i]? = some a) (f : α → α) :
    (l.modify i f)[i]? = some (f a) := by
  rw [getElem?_modify_of_eq_some h, if_pos rfl]

theorem getElem?_modify_eq_some {f : α → α} (h : (l.modify i f)[j]? = some b) :
    ∃ a, l[j]? = some a ∧ b = if i = j then f a else a := by
  cases hj : l[j]? with
  | none =>
    rw [getElem?_modify, hj] at h
    cases h
  | some a =>
    rw [getElem?_modify_of_eq_some hj] at h
    exact ⟨a, rfl, (some.inj h).symm⟩

theorem modify_cases {f : α → α} (ha : l[i]? = some a) (h : (l.modify i f)[j]? = some b) :
    j = i ∧ b = f a ∨ j ≠ i ∧ l[j]? = some b := by
  obtain ⟨c, hc, rfl⟩ := getElem?_modify_eq_some h
  by_cases hij : i = j
  · subst hij
    rw [if_pos rfl, mem_unique ha hc]
    exact .inl ⟨rfl, rfl⟩
  · rw [if_neg hij]
    exact .inr ⟨Ne.symm hij, hc⟩

theorem forall_mem_concat {P : α → Prop} (h : ∀ b ∈ l, P b) (ha : P a) : ∀ b ∈ l ++ [a], P b :=
  forall_mem_append.mpr ⟨h, forall_mem_singleton.mpr ha⟩

theorem forall_mem_set {P : α → Prop} (h : ∀ b ∈ l, P b) (ha : P a) : ∀ b ∈ l.set i a, P b := by
  intro b hb
  rcases mem_or_eq_of_mem_set hb with hb | rfl
  · exact h b hb
  · exact ha

theorem getElem?_concat_of_eq_some (h : l[i]? = some b) (a : α) : (l ++ [a])[i]? = some b := by
  obtain ⟨hi, -⟩ := List.getElem?_eq_some_iff.mp h
  rw [getElem?_append_left hi, h]

theorem getElem?_concat_eq_some (h : (l ++ [a])[i]? = some b) :
    l[i]? = some b ∨ i = l.length ∧ b = a := by
  by_cases hi : i < l.length
  · rw [getElem?_append_left hi] at h
    exact .inl h
  rw [getElem?_append_right (Nat.le_of_not_lt hi)] at h
  have hzero : i - l.length = 0 := by
    by_contra hne
    rw [getElem?_eq_none (by simp only [length_singleton]; omega)] at h
    cases h
  rw [hzero] at h
  exact .inr ⟨by omega, (some.inj h).symm⟩

theorem forall_getElem?_concat {P : Nat → α → Prop} (h : ∀ i b, l[i]? = some b → P i b)
    (ha : P l.length a) : ∀ i b, (l ++ [a])[i]? = some b → P i b := by
  intro i b hb
  rcases getElem?_concat_eq_some hb with hb | ⟨rfl, rfl⟩
  · exact h i b hb
  · exact ha

theorem countP_set_add (h : l[i]? = some a) (p : α → Bool) (b : α) :
    (l.set i b).countP p + (if p a then 1 else 0) = l.countP p + (if p b then 1 else 0) := by
  obtain ⟨hi, rfl⟩ := List.getElem?_eq_some_iff.mp h
  have hle := boole_getElem_le_countP (p := p) hi
  rw [countP_set hi]
  omega

theorem countP_eraseIdx (p : α → Bool) (h : l[i]? = some a) :
    l.countP p = (l.eraseIdx i).countP p + (if p a then 1 else 0) := by
  obtain ⟨hi, rfl⟩ := List.getElem?_eq_some_iff.mp h
  have hspl := congrArg (countP p) (take_append_drop i l)
  rw [countP_append, drop_eq_getElem_cons hi, countP_cons] at hspl
  rw [eraseIdx_eq_take_drop_succ, countP_append]
  omega

theorem eq_false_of_countP_le_one {p : α → Bool} (h : l.countP p ≤ 1) (hij : i ≠ j)
    (hi : l[i]? = some a) (hj : l[j]? = some b) (ha : p a) : p b = false := by
  have hcount := countP_eraseIdx p hi
  rw [if_pos ha] at hcount
  have hzero : (l.eraseIdx i).countP p = 0 := by omega
  exact Bool.eq_false_iff.mpr
    (countP_eq_zero.mp hzero b (mem_eraseIdx_iff_getElem?.mpr ⟨j, hij.symm, hj⟩))

theorem eq_of_countP_le_one {p : α → Bool} (h : l.countP p ≤ 1) (ha : a ∈ l) (hb : b ∈ l)
    (hpa : p a) (hpb : p b) : b = a := by
  obtain ⟨i, hi⟩ := mem_iff_getElem?.mp ha
  obtain ⟨j, hj⟩ := mem_iff_getElem?.mp hb
  by_cases hij : i = j
  · subst hij
    exact mem_unique hj hi
  · cases (eq_false_of_countP_le_one h hij hi hj hpa).symm.trans hpb

theorem getLast?_set (h : l[i]? = some a) (b : α) :
    (l.set i b).getLast? = if i + 1 = l.length then some b else l.getLast? := by
  obtain ⟨_, -⟩ := List.getElem?_eq_some_iff.mp h
  rw [getLast?_eq_getElem?, getLast?_eq_getElem?, length_set, getElem?_set]
  by_cases hlast : i + 1 = l.length
  · rw [if_pos (by omega), if_pos (by omega), if_pos hlast]
  · rw [if_neg (by omega), if_neg hlast]

theorem getLast?_of_set {c} (h : l[i]? = some a) (hlast : (l.set i b).getLast? = some c)
    (hne : c ≠ b) : i + 1 ≠ l.length ∧ l.getLast? = some c := by
  rw [getLast?_set h] at hlast
  split at hlast
  · exact absurd (some.inj hlast).symm hne
  · exact ⟨‹_›, hlast⟩

theorem filterMap_set_perm {β : Type*} (f : α → Option β) (h : l[i]? = some a) (b : α) :
    ((f a).toList ++ (l.set i b).filterMap f).Perm ((f b).toList ++ l.filterMap f) := by
  induction l generalizing i with
  | nil => simp at h
  | cons c l ih =>
    cases i with
    | zero =>
      obtain rfl : c = a := by simpa using h
      rw [set_cons_zero, filterMap_cons, filterMap_cons]
      cases f c <;> cases f b <;> first | exact .refl _ | exact .swap ..
    | succ =>
      have hh := ih (by simpa using h)
      rw [set_cons_succ, filterMap_cons, filterMap_cons]
      cases f c with
      | none => exact hh
      | some d => exact perm_middle.trans ((hh.cons d).trans perm_middle.symm)

end OmniBridge
