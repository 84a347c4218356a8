import Mathlib.Data.Finset.Sort

/-! Rewriting a sequence of operations without changing what it does. Operations that
commute may trade places, and one that absorbs another makes it superfluous; what a
sequence does is compared up to a relation that every operation respects. -/

namespace OmniBridge

section Rewrite

variable {σ α : Type*} (apply : σ → α → σ) (R : σ → σ → Prop)

def Commutes (a b : α) : Prop := ∀ s, apply (apply s a) b = apply (apply s b) a

def Absorbs (a b : α) : Prop := ∀ s, R (apply s b) (apply (apply s a) b)

variable {apply R}

theorem foldl_respects (happly : ∀ s t a, R s t → R (apply s a) (apply t a)) (as : List α) {s t}
    (h : R s t) : R (as.foldl apply s) (as.foldl apply t) := by
  induction as generalizing s t with
  | nil => exact h
  | cons a _ ih => exact ih (happly s t a h)

theorem foldl_commutes {as : List α} {a} (h : ∀ b ∈ as, Commutes apply a b) (s : σ) :
    apply (as.foldl apply s) a = as.foldl apply (apply s a) := by
  induction as generalizing s with
  | nil => rfl
  | cons b as ih =>
    have hrest : ∀ c ∈ as, Commutes apply a c := fun c hc => h c (List.mem_cons_of_mem _ hc)
    calc apply (as.foldl apply (apply s b)) a
        = as.foldl apply (apply (apply s b) a) := ih hrest _
      _ = as.foldl apply (apply (apply s a) b) := by rw [h b List.mem_cons_self s]

theorem foldl_replaced (happly : ∀ s t a, R s t → R (apply s a) (apply t a)) {front back : List α}
    {a b} (habs : Absorbs apply R a b) (hback : ∀ c ∈ back, Commutes apply b c) (s : σ) :
    R ((front ++ b :: back).foldl apply s) (apply ((front ++ a :: back).foldl apply s) b) := by
  rw [List.foldl_append, List.foldl_append, List.foldl_cons, List.foldl_cons, foldl_commutes hback]
  exact foldl_respects happly back (habs _)

theorem foldl_superseded {front back : List α} {a b} (habs : Absorbs apply R a b)
    (hback : ∀ c ∈ back, Commutes apply a c) (s : σ) :
    R ((front ++ back ++ [b]).foldl apply s) (apply ((front ++ a :: back).foldl apply s) b) := by
  have hfront : (front ++ a :: back).foldl apply s = back.foldl apply
      (apply (front.foldl apply s) a) := List.foldl_append
  rw [hfront, ← foldl_commutes hback, List.foldl_append, List.foldl_append]
  exact habs _

end Rewrite

end OmniBridge
