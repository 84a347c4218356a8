import Mathlib.Data.Finset.Sort

/-! A list bounded by dropping its oldest entries, and how many entries of one
kind survive the bound. -/

namespace OmniBridge

open List Option

variable {α : Type*}

def keepLast (n : Nat) (l : List α) : List α := l.drop (l.length - n)

variable {l : List α} {n : Nat}

theorem keepLast_of_length_le (h : l.length ≤ n) : keepLast n l = l := by
  simp [keepLast, Nat.sub_eq_zero_of_le h]

theorem length_keepLast_le (n : Nat) (l : List α) : (keepLast n l).length ≤ n := by
  simp only [keepLast, length_drop]
  omega

theorem keepLast_sublist (n : Nat) (l : List α) : (keepLast n l).Sublist l := drop_sublist _ _

theorem keepLast_append_keepLast (n : Nat) (l m : List α) :
    keepLast n (keepLast n l ++ m) = keepLast n (l ++ m) := by
  simp only [keepLast, drop_append, length_append, length_drop, drop_drop]
  congr 2 <;> omega

variable {a : α}

theorem keepLast_cons_of_length_eq (h : l.length = n) : keepLast n (a :: l) = l := by
  simp [keepLast, h]

theorem eraseP_of_dropWhile {p : α → Bool} {l behind} (h : l.dropWhile p = a :: behind) :
    ∃ front, l = front ++ a :: behind ∧ l.eraseP (fun b => !p b) = front ++ behind ∧
      l.any (fun b => !p b) := by
  induction l with
  | nil => cases h
  | cons b l ih =>
    cases hb : p b with
    | true =>
      rw [dropWhile_cons_of_pos hb] at h
      obtain ⟨front, hl, herase, hany⟩ := ih h
      refine ⟨b :: front, by rw [hl]; rfl, ?_, by simp [hany]⟩
      rw [eraseP_cons_of_neg (by simp [hb]), herase]
      rfl
    | false =>
      rw [dropWhile_cons_of_neg (by simp [hb])] at h
      obtain ⟨rfl, rfl⟩ := cons.inj h
      exact ⟨[], rfl, eraseP_cons_of_pos (by simp [hb]), by simp [hb]⟩

theorem countP_eraseP (p : α → Bool) (l : List α) : (l.eraseP p).countP p = l.countP p - 1 := by
  induction l with
  | nil => rfl
  | cons a l ih =>
    by_cases ha : p a
    · simp [ha]
    · simp [ha, ih]

theorem countP_eraseP_of_disjoint {p q : α → Bool} (hpq : ∀ a, p a → q a = false) (l : List α) :
    (l.eraseP p).countP q = l.countP q := by
  induction l with
  | nil => rfl
  | cons a l ih =>
    by_cases ha : p a
    · simp [ha, hpq a ha]
    · simp [ha, ih, countP_cons]

end OmniBridge
