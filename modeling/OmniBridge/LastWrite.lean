import Mathlib.Data.Finset.Sort

/-! Folds in which an element either leaves the value alone or overwrites it: the
value at the end is that of the last element that overwrites. -/

namespace OmniBridge

variable {α β : Type*} {f : β → α → β}

theorem foldl_filter_of_neutral {p : α → Bool} {l : List α}
    (h : ∀ a ∈ l, p a = false → ∀ b, f b a = b) (b : β) : (l.filter p).foldl f b = l.foldl f b := by
  induction l generalizing b with
  | nil => rfl
  | cons a l ih =>
    have hl : ∀ c ∈ l, p c = false → ∀ b, f b c = b := fun c hc => h c (List.mem_cons_of_mem a hc)
    cases hp : p a with
    | true =>
      rw [List.filter_cons_of_pos hp]
      exact ih hl (f b a)
    | false =>
      rw [List.filter_cons_of_neg (by simp [hp]), List.foldl_cons, h a List.mem_cons_self hp b]
      exact ih hl b

theorem foldl_eq_of_overwrites {l : List α} {a} (ha : a ∈ l) (h : ∀ b c, f b a = f c a) (b c : β) :
    l.foldl f b = l.foldl f c := by
  induction l generalizing b c with
  | nil => cases ha
  | cons d l ih =>
    rcases List.mem_cons.mp ha with rfl | hl
    · rw [List.foldl_cons, List.foldl_cons, h b c]
    · exact ih hl (f b d) (f c d)

end OmniBridge
