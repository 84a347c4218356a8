import Mathlib.Data.Finset.Sort

/-! Runs of a partial step function. A run is a list of labels, each enabled in
the state it is taken in; an invariant of the steps that meet a condition is an
invariant of the runs whose steps all meet it. -/

namespace OmniBridge

open List Option

section Run

variable {σ α : Type*} (step : σ → α → Option σ)

def run : σ → List α → Option σ
  | s, [] => some s
  | s, a :: as => (step s a).bind (fun t => run t as)

/-- Every step of the run is taken in a state where `ok` holds of it. -/
def Meets (ok : σ → α → Prop) : σ → List α → Prop
  | _, [] => True
  | s, a :: as => ok s a ∧ ∀ t ∈ step s a, Meets ok t as

instance Meets.decidable (ok : σ → α → Prop) [∀ s a, Decidable (ok s a)] (s : σ) (as : List α) :
    Decidable (Meets step ok s as) :=
  match as with
  | [] => isTrue trivial
  | a :: as =>
    match hs : step s a with
    | none => decidable_of_iff (ok s a) (by simp [Meets, hs])
    | some t =>
      have := Meets.decidable ok t as
      decidable_of_iff (ok s a ∧ Meets step ok t as) (by simp [Meets, hs])

variable {s t : σ} {as : List α} {ok ok' : σ → α → Prop}

theorem run_cons_eq_some {a} (h : run step s (a :: as) = some t) :
    ∃ u, step s a = some u ∧ run step u as = some t := by
  simpa only [run, bind_eq_some_iff] using h

theorem run_append {bs} (h : run step s as = some t) : run step s (as ++ bs) = run step t bs := by
  induction as generalizing s with
  | nil =>
    obtain rfl : s = t := by simpa [run] using h
    rfl
  | cons a _ ih =>
    obtain ⟨u, hu, ht⟩ := run_cons_eq_some step h
    simp only [cons_append, run, hu, bind_some, ih ht]

theorem run_invariant {ok : σ → α → Prop} {Inv : σ → Prop}
    (hstep : ∀ s a t, ok s a → step s a = some t → Inv s → Inv t) {as s t}
    (hrun : run step s as = some t) (hok : Meets step ok s as) (hs : Inv s) : Inv t := by
  induction as generalizing s with
  | nil =>
    obtain rfl : s = t := by simpa [run] using hrun
    exact hs
  | cons a _ ih =>
    obtain ⟨u, hu, ht⟩ := run_cons_eq_some step hrun
    exact ih ht (hok.2 u hu) (hstep s a u hok.1 hu hs)

theorem Meets.of_forall (h : ∀ s a, ok s a) (s : σ) (as) : Meets step ok s as := by
  induction as generalizing s with
  | nil => trivial
  | cons a _ ih => exact ⟨h s a, fun t _ => ih t⟩

theorem run_preserves {Inv : σ → Prop} (hstep : ∀ s a t, step s a = some t → Inv s → Inv t)
    (hrun : run step s as = some t) (hs : Inv s) : Inv t :=
  run_invariant step (fun s a t _ => hstep s a t) hrun
    (Meets.of_forall step (fun _ _ => trivial) s as) hs

theorem Meets.imp (h : ∀ s a, ok s a → ok' s a) (hok : Meets step ok s as) :
    Meets step ok' s as := by
  induction as generalizing s with
  | nil => trivial
  | cons a _ ih => exact ⟨h s a hok.1, fun t ht => ih (hok.2 t ht)⟩

theorem Meets.and (h : Meets step ok s as) (h' : Meets step ok' s as) :
    Meets step (fun s a => ok s a ∧ ok' s a) s as := by
  induction as generalizing s with
  | nil => trivial
  | cons a _ ih => exact ⟨⟨h.1, h'.1⟩, fun t ht => ih (h.2 t ht) (h'.2 t ht)⟩

theorem Meets.of_append {bs} (h : Meets step ok s (as ++ bs)) (hrun : run step s as = some t) :
    Meets step ok s as ∧ Meets step ok t bs := by
  induction as generalizing s with
  | nil =>
    obtain rfl : s = t := by simpa [run] using hrun
    exact ⟨trivial, h⟩
  | cons a _ ih =>
    obtain ⟨u, hu, ht⟩ := run_cons_eq_some step hrun
    obtain ⟨has, hbs⟩ := ih (h.2 u hu) ht
    refine ⟨⟨h.1, ?_⟩, hbs⟩
    intro v hv
    exact some.inj (hu.symm.trans hv) ▸ has

theorem Meets.last {a} (h : Meets step ok s (as ++ [a])) (hrun : run step s as = some t) : ok t a :=
  (h.of_append step hrun).2.1

theorem meets_congr (Inv : σ → Prop) (hinv : ∀ s a t, Inv s → step s a = some t → Inv t)
    (h : ∀ s a, Inv s → (ok s a ↔ ok' s a)) (hs : Inv s) :
    Meets step ok s as ↔ Meets step ok' s as := by
  induction as generalizing s with
  | nil => exact Iff.rfl
  | cons a _ ih =>
    refine and_congr (h s a hs) ?_
    constructor
    · exact fun hall t ht => (ih (hinv s a t hs ht)).mp (hall t ht)
    · exact fun hall t ht => (ih (hinv s a t hs ht)).mpr (hall t ht)

def Always (P : σ → Prop) : σ → List α → Prop
  | s, [] => P s
  | s, a :: as => P s ∧ ∀ t ∈ step s a, Always P t as

theorem Always.head {P : σ → Prop} (h : Always step P s as) : P s := by
  cases as with
  | nil => exact h
  | cons => exact h.1

theorem Always.last {P : σ → Prop} (h : Always step P s as) (hrun : run step s as = some t) :
    P t := by
  induction as generalizing s with
  | nil =>
    obtain rfl : s = t := by simpa [run] using hrun
    exact h
  | cons a _ ih =>
    obtain ⟨u, hu, ht⟩ := run_cons_eq_some step hrun
    exact ih (h.2 u hu) ht

theorem always_iff_meets_of_meets {dom ok : σ → α → Prop} {Inv P : σ → Prop}
    (hinv : ∀ s a t, dom s a → Inv s → step s a = some t → Inv t)
    (hstep : ∀ s a t, dom s a → Inv s → P s → step s a = some t → (P t ↔ ok s a)) {as s t}
    (hrun : run step s as = some t) (hdom : Meets step dom s as) (hs : Inv s) (hp : P s) :
    Always step P s as ↔ Meets step ok s as := by
  induction as generalizing s with
  | nil => exact iff_of_true hp trivial
  | cons a _ ih =>
    obtain ⟨u, hu, ht⟩ := run_cons_eq_some step hrun
    have hkeep := hstep s a u hdom.1 hs hp hu
    have hui := hinv s a u hdom.1 hs hu
    have hrest := hdom.2 u hu
    constructor
    · intro h
      have hall := h.2 u hu
      have hpu := hall.head
      refine ⟨hkeep.mp hpu, ?_⟩
      intro v hv
      obtain rfl := mem_unique hu hv
      exact (ih ht hrest hui hpu).mp hall
    · intro h
      have hpu := hkeep.mpr h.1
      refine ⟨hp, ?_⟩
      intro v hv
      obtain rfl := mem_unique hu hv
      exact (ih ht hrest hui hpu).mpr (h.2 u hu)

theorem always_iff_meets {ok : σ → α → Prop} {Inv P : σ → Prop}
    (hinv : ∀ s a t, Inv s → step s a = some t → Inv t)
    (hstep : ∀ s a t, Inv s → P s → step s a = some t → (P t ↔ ok s a)) {as s t}
    (hrun : run step s as = some t) (hs : Inv s) (hp : P s) :
    Always step P s as ↔ Meets step ok s as :=
  always_iff_meets_of_meets step (fun s a t _ => hinv s a t) (fun s a t _ => hstep s a t) hrun
    (Meets.of_forall step (fun _ _ => trivial) s as) hs hp

theorem run_simulates {τ β : Type*} {step' : τ → β → Option τ} {R : σ → τ → Prop}
    (hstep : ∀ s a t u, ok s a → step s a = some t → R s u → ∃ bs v, run step' u bs = some v ∧
      R t v) {u} (hrun : run step s as = some t) (hok : Meets step ok s as) (hs : R s u) :
    ∃ bs v, run step' u bs = some v ∧ R t v := by
  induction as generalizing s u with
  | nil =>
    obtain rfl : s = t := by simpa [run] using hrun
    exact ⟨[], u, rfl, hs⟩
  | cons a _ ih =>
    obtain ⟨s', hs', ht⟩ := run_cons_eq_some step hrun
    obtain ⟨bs, _, hu', hr⟩ := hstep s a s' u hok.1 hs' hs
    obtain ⟨bs', v, hv, hrt⟩ := ih ht (hok.2 s' hs') hr
    exact ⟨bs ++ bs', v, (run_append step' hu').trans hv, hrt⟩

section Found

variable {ρ : Type*} {o : Option σ}

theorem exists_of_any {P : σ → Prop} [DecidablePred P] (h : o.any P) : ∃ s, o = some s ∧ P s := by
  obtain ⟨s, hs, hp⟩ := (any_eq_true _ _).mp h
  exact ⟨s, hs, of_decide_eq_true hp⟩

theorem exists_of_any₂ {g : σ → Option ρ} {P : σ → ρ → Prop} [∀ s r, Decidable (P s r)]
    (h : o.any (fun s => (g s).any (P s))) : ∃ s r, o = some s ∧ g s = some r ∧ P s r := by
  obtain ⟨s, hs, hany⟩ := (any_eq_true _ _).mp h
  obtain ⟨r, hr⟩ := exists_of_any hany
  exact ⟨s, r, hs, hr⟩

theorem exists_some_imp {P Q : σ → Prop} (h : ∃ s, o = some s ∧ P s)
    (himp : ∀ s, o = some s → P s → Q s) : ∃ s, o = some s ∧ Q s := by
  obtain ⟨s, hs, hp⟩ := h
  exact ⟨s, hs, himp s hs hp⟩

theorem exists_some_imp₂ {g : σ → Option ρ} {P Q : σ → ρ → Prop}
    (h : ∃ s r, o = some s ∧ g s = some r ∧ P s r)
    (himp : ∀ s r, o = some s → g s = some r → P s r → Q s r) :
    ∃ s r, o = some s ∧ g s = some r ∧ Q s r := by
  obtain ⟨s, r, hs, hr, hp⟩ := h
  exact ⟨s, r, hs, hr, himp s r hs hr hp⟩

end Found

section Emitted

variable {β : Type*} {s t : σ} {as : List α}

def emitted (emit : σ → α → List β) : σ → List α → List β
  | _, [] => []
  | s, a :: as => emit s a ++ (step s a).elim [] (fun t => emitted emit t as)

theorem emitted_cons {emit : σ → α → List β} {a} (h : step s a = some t) :
    emitted step emit s (a :: as) = emit s a ++ emitted step emit t as := by
  simp only [emitted, h, elim_some]

theorem emitted_append {emit : σ → α → List β} {bs} (hrun : run step s as = some t) :
    emitted step emit s (as ++ bs) = emitted step emit s as ++ emitted step emit t bs := by
  induction as generalizing s with
  | nil =>
    obtain rfl : s = t := by simpa [run] using hrun
    rfl
  | cons a _ ih =>
    obtain ⟨u, hu, ht⟩ := run_cons_eq_some step hrun
    rw [cons_append, emitted_cons step hu, emitted_cons step hu, ih ht, append_assoc]

theorem emitted_filterMap {γ : Type*} (emit : σ → α → List β) (f : β → Option γ) (s : σ) (as) :
    emitted step (fun s a => (emit s a).filterMap f) s as = (emitted step emit s as).filterMap
      f := by
  induction as generalizing s with
  | nil => rfl
  | cons a _ ih =>
    rw [emitted, emitted, filterMap_append]
    cases step s a with
    | none => rfl
    | some => rw [elim_some, elim_some, ih]

theorem emitted_invariant {emit : σ → α → List β} {P : List β → σ → Prop}
    (hstep : ∀ past s a t, step s a = some t → P past s → P (past ++ emit s a) t)
    (hrun : run step s as = some t) {past} (hs : P past s) :
    P (past ++ emitted step emit s as) t := by
  induction as generalizing s past with
  | nil =>
    obtain rfl : s = t := by simpa [run] using hrun
    simpa [emitted] using hs
  | cons a _ ih =>
    obtain ⟨u, hu, ht⟩ := run_cons_eq_some step hrun
    have htail := ih ht (hstep past s a u hu hs)
    rwa [append_assoc, ← emitted_cons step hu] at htail

variable {held : σ → List β} {ins outs : σ → α → List β}

theorem emitted_conserved {R : List β → List β → Prop} (hrefl : ∀ l, R l l)
    (htrans : ∀ l m n, R l m → R m n → R l n)
    (happend : ∀ l m x y, R l m → R (x ++ (l ++ y)) (x ++ (m ++ y)))
    (hstep : ∀ s a t, step s a = some t → R (outs s a ++ held t) (held s ++ ins s a))
    (hrun : run step s as = some t) :
    R (emitted step outs s as ++ held t) (held s ++ emitted step ins s as) := by
  induction as generalizing s with
  | nil =>
    obtain rfl : s = t := by simpa [run] using hrun
    simpa [emitted] using hrefl (held s)
  | cons a as ih =>
    obtain ⟨u, hu, ht⟩ := run_cons_eq_some step hrun
    have hhead := happend _ _ [] (emitted step ins u as) (hstep s a u hu)
    have htail := happend _ _ (outs s a) [] (ih ht)
    rw [append_nil, append_nil] at htail
    rw [nil_append, nil_append, append_assoc, append_assoc] at hhead
    rw [emitted_cons step hu, emitted_cons step hu, append_assoc]
    exact htrans _ _ _ htail hhead

theorem emitted_fifo (hstep : ∀ s a t, step s a = some t → outs s a ++ held t = held s ++ ins s a)
    (hrun : run step s as = some t) :
    emitted step outs s as ++ held t = held s ++ emitted step ins s as :=
  emitted_conserved step (fun _ => rfl) (fun _ _ _ => Eq.trans) (fun _ _ _ _ h => by rw [h]) hstep
    hrun

theorem emitted_sublist
    (hstep : ∀ s a t, step s a = some t → (outs s a ++ held t).Sublist (held s ++ ins s a))
    (hrun : run step s as = some t) :
    (emitted step outs s as ++ held t).Sublist (held s ++ emitted step ins s as) :=
  emitted_conserved step List.Sublist.refl (fun _ _ _ => List.Sublist.trans)
    (fun _ _ x y h => (List.Sublist.refl x).append (h.append (List.Sublist.refl y))) hstep hrun

end Emitted

end Run

end OmniBridge
