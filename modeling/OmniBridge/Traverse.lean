import Mathlib.Data.Finset.Sort

/-! A loop over a list that updates its elements one by one and carries a value
along. -/

namespace OmniBridge

variable {α γ : Type*}

def each (f : γ → α → γ × α) : γ → List α → γ × List α
  | c, [] => (c, [])
  | c, a :: l =>
    let rest := each f (f c a).1 l
    (rest.1, (f c a).2 :: rest.2)

variable {f : γ → α → γ × α}

theorem each_forall₂ {R : α → α → Prop} (h : ∀ c a, R a (f c a).2) (c : γ) (l) :
    List.Forall₂ R l (each f c l).2 := by
  induction l generalizing c with
  | nil => exact .nil
  | cons a l ih => exact .cons (h c a) (ih _)

theorem each_fst {I : γ → Prop} (h : ∀ c a, I c → I (f c a).1) {c} (hc : I c) (l) :
    I (each f c l).1 := by
  induction l generalizing c with
  | nil => exact hc
  | cons a l ih => exact ih (h c a hc)

theorem each_rule {I : γ → Prop} {P : α → Prop} {Q : γ → α → Prop}
    (hstep : ∀ c a, I c → P a → I (f c a).1 ∧ Q (f c a).1 (f c a).2)
    (hkeep : ∀ c a b, I c → P a → Q c b → Q (f c a).1 b) {c l} (hc : I c) (hl : ∀ a ∈ l, P a) :
    I (each f c l).1 ∧ (∀ b ∈ (each f c l).2, Q (each f c l).1 b) ∧ ∀ b, Q c b →
      Q (each f c l).1 b := by
  induction l generalizing c with
  | nil => exact ⟨hc, nofun, fun _ hb => hb⟩
  | cons a l ih =>
    have ha := hl a List.mem_cons_self
    obtain ⟨hinv, hq⟩ := hstep c a hc ha
    obtain ⟨hrest, helem, hmono⟩ := ih hinv (fun b hb => hl b (List.mem_cons_of_mem a hb))
    refine ⟨hrest, ?_, fun b hb => hmono b (hkeep c a b hc ha hb)⟩
    intro b hb
    rcases List.mem_cons.mp hb with rfl | hb
    · exact hmono _ hq
    · exact helem b hb

end OmniBridge
