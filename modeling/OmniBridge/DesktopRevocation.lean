import OmniBridge.DesktopSessions

/-! Whether an unpair ends the sessions of the peer. The enforcement looks up the
session, asks it to end and takes it out of the map in separate steps, and a
handshake reads the trust of the peer long before its session is in the map. -/

namespace OmniBridge.Desktop

open List Option Request

variable {Fp ε : Type} [LinearOrder Fp]

namespace Request

def isUnpair (r : Request Fp) : Bool :=
  match r.command with
  | .unpair _ => true
  | _ => false

def looksUp (fp : Fp) (r : Request Fp) : Bool :=
  match r.stage with
  | .enforcing l _ .lookup _ => l = fp
  | _ => false

def pending (fp : Fp) (r : Request Fp) : Bool :=
  match r.stage with
  | .enforcing _ rest .clear _ => fp ∈ rest
  | .enforcing l rest _ _ => l = fp ∨ fp ∈ rest
  | _ => false

def revokes (fp : Fp) (r : Request Fp) : Bool :=
  r.isUnpair && match r.stage with
    | .enforcing l rest _ _ => l = fp ∨ fp ∈ rest
    | .answered about response => about = some fp ∧ response.isOk
    | _ => false

def done (fp : Fp) (n : Nat) (r : Request Fp) : Bool :=
  r.revokes fp && !r.pending fp && r.mark = n

variable {fp : Fp} {n : Nat} {r : Request Fp} {place : Enforcement} {answer : Response}
  {rest : List Fp} {l : Fp}

theorem pending_enforcing (hstg : r.stage = .enforcing l rest place answer)
    (hplace : place ≠ .clear) : r.pending fp ↔ l = fp ∨ fp ∈ rest := by
  cases place with
  | clear => exact absurd rfl hplace
  | _ => simp [pending, hstg]

theorem not_pending_of_done (h : r.done fp n) : r.pending fp = false := by
  simp only [done, Bool.and_eq_true, Bool.not_eq_true'] at h
  exact h.1.2

theorem done_enforcing (hstg : r.stage = .enforcing l rest place answer) (h : r.done fp n) :
    l = fp ∧ place = .clear := by
  have hnone := not_pending_of_done h
  have hplace : place = .clear := by
    by_contra hplace
    simp only [done, revokes, hstg, Bool.and_eq_true, decide_eq_true_eq] at h
    have hpend := (pending_enforcing hstg hplace).mpr h.1.1.2
    rw [hnone] at hpend
    cases hpend
  subst hplace
  have hrest : fp ∉ rest := by simpa [pending, hstg] using hnone
  simp only [done, revokes, hstg, Bool.and_eq_true, decide_eq_true_eq] at h
  exact ⟨h.1.1.2.resolve_right hrest, rfl⟩

inductive Guarded (s u : Daemon Fp) (r r' : Request Fp) (fp : Fp) (n : Nat) : Prop
  | pending : r.pending fp → r'.pending fp → Guarded s u r r' fp n
  | dropped (rest : List Fp) (response : Response) : r.stage = .enforcing fp rest .drop response →
      u.sessions fp = none → Guarded s u r r' fp n
  | done : r.done fp n → Guarded s u r r' fp n
  | hidden : ¬ s.Trusts fp → r'.pending fp → Guarded s u r r' fp n
  | revoked (device : String) : r.command = .unpair device → r.stage = .resolved fp →
    r'.pending fp → Guarded s u r r' fp n

variable {write : Except ε Unit} {x : Config Fp ε} {s u : Daemon Fp} {r' : Request Fp}

theorem guarded_of_handles (h : r.Handles x s write u r') (hguard : r'.pending fp ∨ r'.done fp n) :
    Guarded s u r r' fp n := by
  have hlive : (∀ p ∈ s.store.peers.get fp, p.revoked) → ¬ s.Trusts fp := by
    rw [Daemon.trusts_iff]
    rintro hrevoked ⟨p, hp, hlive⟩
    rw [hrevoked p hp] at hlive
    cases hlive
  -- before the session is out of the map nothing is done
  have hbef : ∀ {l rest place answer}, r'.stage = .enforcing l rest place answer →
      place ≠ .clear → r'.pending fp := by
    intro l _ _ _ hstg hplace
    exact hguard.resolve_right (fun hdone => hplace (done_enforcing hstg hdone).2)
  cases h with
  | resolved | granted | policyRead | looked => simp [pending, done, revokes] at hguard
  | answered _ _ _ hok =>
    rcases hok with hok | hok
    · simp [pending, done, revokes, hok] at hguard
    · cases hcomm : r.command <;> simp [pending, done, revokes, isUnpair, hides,
        hcomm] at hguard hok
  | revoked device l _ hcomm hstg =>
    have hpend := hbef rfl (by decide)
    obtain rfl : l = fp := by simpa using (pending_enforcing rfl (by decide)).mp hpend
    exact .revoked device hcomm hstg hpend
  | revocationFailed _ l _ _ _ hok => simp [pending, done, revokes, hok] at hguard
  | hid l _ _ _ _ houtc =>
    have hpend := hbef rfl (by decide)
    obtain rfl : l = fp := by simpa using (pending_enforcing rfl (by decide)).mp hpend
    exact .hidden (hlive (Store.revoked_of_hideOutcome houtc)) hpend
  | hidAll l rest _ _ _ _ htarg =>
    have hpend := hbef rfl (by decide)
    have hmem : fp ∈ l :: rest :=
      mem_cons.mpr (((pending_enforcing rfl (by decide)).mp hpend).imp_left Eq.symm)
    rw [← htarg] at hmem
    exact .hidden (hlive (Store.revoked_of_mem_targets hmem)) hpend
  | grantFailed _ _ _ _ _ _ _ hcomm | clipboardPolicy _ _ _ _ _ _ hcomm
  | policyWritten _ _ _ _ _ _ hcomm | left _ _ _ _ _ _ hcomm
  | reconnected _ _ _ _ _ _ hcomm =>
    simp [pending, done, revokes, isUnpair, hcomm] at hguard
  | found _ _ _ _ hstg | notFound _ _ _ hstg | shutdown _ _ _ _ hstg =>
    have hpend := hbef rfl (by simp)
    exact .pending ((pending_enforcing hstg (by simp)).mpr
      ((pending_enforcing rfl (by simp)).mp hpend)) hpend
  | dropped l rest response hstg =>
    rcases hguard with hguard | hguard
    · have hmem : fp ∈ rest := by simpa [pending] using hguard
      exact .pending ((pending_enforcing hstg (by simp)).mpr (.inr hmem)) hguard
    · obtain ⟨rfl, -⟩ := done_enforcing rfl hguard
      exact .dropped rest response hstg (by simp)
  | cleared l response _ hstg =>
    rcases hguard with hguard | hguard
    · simp [pending] at hguard
    · have hparts : (r.isUnpair ∧ l = fp ∧ response.isOk) ∧ r.mark = n := by
        simpa [done, revokes, pending, isUnpair] using hguard
      exact .done (by simp [done, revokes, pending, hstg, hparts])
  | next l _ _ _ hstg =>
    have hpend := hbef rfl (by decide)
    have hmem := (pending_enforcing rfl (by decide)).mp hpend
    refine .pending ?_ hpend
    simp only [pending, hstg, mem_cons, decide_eq_true_eq]
    exact hmem.imp_left Eq.symm

theorem mark_of_handles (h : r.Handles x s write u r') (hrevok : r'.revokes fp) :
    r'.mark = s.pairings.count fp ∨ r.revokes fp = true ∧ r'.mark = r.mark := by
  cases h with
  | revoked _ l _ hcomm =>
    obtain rfl : l = fp := by simpa [revokes, isUnpair, hcomm] using hrevok
    exact .inl rfl
  | answered _ _ _ hok =>
    rcases hok with hok | hok
    · simp [revokes, hok] at hrevok
    · cases hcomm : r.command <;> simp [revokes, isUnpair, hides, hcomm] at hrevok hok
  | revocationFailed _ l _ _ _ hok => simp [revokes, hok] at hrevok
  | hid _ _ _ hhides | hidAll _ _ _ _ hhides =>
    cases hcomm : r.command <;> simp [revokes, isUnpair, hides, hcomm] at hrevok hhides
  | found _ _ _ _ hstg | notFound _ _ _ hstg | shutdown _ _ _ _ hstg | dropped _ _ _ hstg =>
    exact .inr ⟨by simpa [revokes, isUnpair, hstg] using hrevok, rfl⟩
  | cleared l response _ hstg =>
    have hparts : r.isUnpair ∧ l = fp ∧ response.isOk := by simpa [revokes, isUnpair] using hrevok
    exact .inr ⟨by simp [revokes, hstg, hparts], rfl⟩
  | next l l' rest _ hstg =>
    have hparts : r.isUnpair ∧ (l' = fp ∨ fp ∈ rest) := by simpa [revokes, isUnpair] using hrevok
    refine .inr ⟨?_, rfl⟩
    simp only [revokes, hstg, hparts.1, mem_cons, Bool.true_and, decide_eq_true_eq]
    exact .inr (hparts.2.imp_left Eq.symm)
  | resolved | granted | policyRead | looked => simp [revokes] at hrevok
  | grantFailed _ _ _ _ _ _ _ hcomm | clipboardPolicy _ _ _ _ _ _ hcomm
  | policyWritten _ _ _ _ _ _ hcomm | left _ _ _ _ _ _ hcomm
  | reconnected _ _ _ _ _ _ hcomm =>
    simp [revokes, isUnpair, hcomm] at hrevok

end Request

namespace Daemon

variable {x : Config Fp ε} {s t : Daemon Fp} {a : Action Fp ε} {fp : Fp}

def Quiet (fp : Fp) (s : Daemon Fp) : Prop :=
  ∀ c ∈ s.connections, c.fingerprint = fp → c.phase.isArriving = false

theorem step_quiet (htrust : ¬ s.Trusts fp) (hpairs : ∀ write, s.pairs a ≠ some (fp, write))
    (hs : s.Quiet fp) (h : s.step x a = some t) : t.Quiet fp := by
  intro c' hmem hfp
  obtain ⟨j, hc'⟩ := mem_iff_getElem?.mp hmem
  rcases step_connection h hc' with hacc | ⟨c, hc, hev⟩
  · rw [hacc]
    rfl
  have hcfp : c.fingerprint = fp := hev.fingerprint.symm.trans hfp
  have hold := hs c (mem_of_getElem? hc) hcfp
  have hmoves := hev.phase
  generalize c'.phase = phase at hmoves
  cases hmoves with
  | stays => exact hold
  | admitted deviceId deviceName granted _ _ htrus =>
    exact absurd ⟨deviceId, deviceName, granted, hcfp ▸ htrus⟩ htrust
  | stored _ hp => exact absurd (hcfp ▸ hp) (hpairs _)
  | reread _ _ _ hph | unread hph | connecting _ hph | registering _ hph =>
    simp [hph, Phase.isArriving] at hold
  | _ => rfl

theorem step_sessions_of_quiet (hs : s.Quiet fp) (h : s.step x a = some t) :
    t.sessions fp = s.sessions fp ∨ t.sessions fp = none := by
  cases step_registers fp h with
  | kept hsame => exact .inl hsame
  | registered i c _ _ hc hfp hph =>
    have hold := hs c (mem_of_getElem? hc) hfp
    simp [hph, Phase.isArriving] at hold
  | removed _ _ _ _ _ _ _ hnone | dropped _ _ _ _ _ _ _ _ hnone => exact .inr hnone

theorem step_pairings (fp) (h : s.step x a = some t) :
    s.pairs a ≠ some (fp, .ok ()) ∧ t.pairings.count fp = s.pairings.count fp ∨
      s.pairs a = some (fp, .ok ()) ∧ t.pairings.count fp = s.pairings.count fp + 1 := by
  cases step_cases h with
  | storePeer i c _ write hc =>
    cases write with
    | error => exact .inl ⟨by simp [pairs, hc], rfl⟩
    | ok =>
      by_cases hfp : c.fingerprint = fp
      · right
        subst hfp
        refine ⟨by simp [pairs, hc], ?_⟩
        change (s.pairings ++ [c.fingerprint]).count c.fingerprint = _
        simp
      · refine .inl ⟨by simp [pairs, hc, hfp], ?_⟩
        change (s.pairings ++ [c.fingerprint]).count fp = _
        simp [hfp]
  | accept | abandon | establish | clear | finish | request => exact .inl ⟨by rintro ⟨⟩, rfl⟩
  | lookup i c =>
    obtain ⟨_, hu⟩ := lookup_eq x i c s
    exact .inl ⟨by rintro ⟨⟩, by rw [hu]; rfl⟩
  | reread i c =>
    obtain ⟨_, hu⟩ := reread_eq x i c s
    exact .inl ⟨by rintro ⟨⟩, by rw [hu]; rfl⟩
  | register i c negotiated =>
    obtain ⟨_, hu⟩ := register_eq i s c.fingerprint negotiated
    exact .inl ⟨by rintro ⟨⟩, by rw [hu]⟩
  | unregister i c =>
    obtain ⟨_, hu⟩ := unregister_eq i s c.fingerprint
    exact .inl ⟨by rintro ⟨⟩, by rw [hu]; rfl⟩
  | proceed i r _ u _ _ hh => exact .inl ⟨by rintro ⟨⟩, by cases hh <;> rfl⟩

/-- No handshake of the peer is arriving when its session is looked up; the peer is not
stored while its session is still to be taken down, and, once that is done, only
with success. -/
def Undisturbed (fp : Fp) (s : Daemon Fp) : Action Fp ε → Prop
  | .storePeer i _ write => ∀ c ∈ s.connections[i]?, c.fingerprint = fp → ∀ r ∈ s.requests,
      r.pending fp = false ∧ (write.isOk = false → r.done fp (s.pairings.count fp) = false)
  | .proceed i _ => ∀ r ∈ s.requests[i]?, r.looksUp fp → s.Quiet fp
  | _ => True

structure Enforced (fp : Fp) (s : Daemon Fp) : Prop where
  mapped : s.Mapped
  marked : ∀ r ∈ s.requests, r.revokes fp → r.mark ≤ s.pairings.count fp
  untrusted : ∀ r ∈ s.requests, r.pending fp ∨ r.done fp (s.pairings.count fp) → ¬ s.Trusts fp
  looked : ∀ r ∈ s.requests, ∀ rest id response, r.stage = .enforcing fp rest (.shutdown id)
    response → s.Quiet fp ∧ ∀ j, s.sessions fp = some j → j = id
  shut : ∀ r ∈ s.requests, ∀ rest response, r.stage = .enforcing fp rest .drop response →
    s.Quiet fp ∧ ∀ j c, s.sessions fp = some j → s.connections[j]? = some c → c.asked
  gone : ∀ r ∈ s.requests, r.done fp (s.pairings.count fp) → s.Quiet fp ∧ s.sessions fp = none
  registered : ∀ j c negotiated, s.connections[j]? = some c → c.fingerprint = fp →
    c.phase = .running negotiated → c.asked ∨ s.sessions fp = some j

theorem step_marked (hs : Enforced fp s) (h : s.step x a = some t) :
    ∀ r ∈ t.requests, r.revokes fp → r.mark ≤ t.pairings.count fp := by
  have hcount : s.pairings.count fp ≤ t.pairings.count fp := by
    rcases step_pairings fp h with ⟨-, hsame⟩ | ⟨-, hmore⟩ <;> omega
  intro r' hr' hrevok
  rcases step_request h hr' with hold | ⟨_, rfl⟩ | ⟨i, r, _, u, rfl, hr, hh, -⟩
  · exact (hs.marked r' hold hrevok).trans hcount
  · simp [revokes] at hrevok
  rcases mark_of_handles hh hrevok with _ | ⟨hrev, _⟩
  · omega
  · have hle := hs.marked r (mem_of_getElem? hr) hrev
    omega

variable {r : Request Fp}

theorem step_unpaired (hs : Enforced fp s) (hok : Undisturbed fp s a) (h : s.step x a = some t)
    (hr : r ∈ s.requests) (hguard : r.pending fp ∨ r.done fp (t.pairings.count fp)) :
    (∀ write, s.pairs a ≠ some (fp, write)) ∧ t.pairings.count fp = s.pairings.count fp := by
  have hcount := step_pairings fp h
  have hpairs : ∀ write, s.pairs a ≠ some (fp, write) := by
    intro _ hpairs
    cases a with
    | storePeer i _ w =>
      obtain ⟨c, hc, heq⟩ := map_eq_some_iff.mp hpairs
      obtain ⟨rfl, rfl⟩ := Prod.mk.inj heq
      obtain ⟨hpend, hdone⟩ := hok c hc rfl r hr
      have hd := hguard.resolve_left (by simp [hpend])
      cases w with
      | error =>
        rcases hcount with ⟨-, hcount⟩ | ⟨hp, -⟩
        · rw [hcount, hdone rfl] at hd
          cases hd
        · rw [hpairs] at hp
          cases hp
      | ok =>
        have hrevok : r.revokes c.fingerprint ∧ r.mark = t.pairings.count c.fingerprint := by
          simp only [done, Bool.and_eq_true, decide_eq_true_eq] at hd
          exact ⟨hd.1.1, hd.2⟩
        have hle := hs.marked r hr hrevok.1
        rcases hcount with ⟨hne, -⟩ | ⟨-, _⟩
        · exact hne hpairs
        · omega
    | _ => cases hpairs
  exact ⟨hpairs, (hcount.resolve_right (fun hmore => hpairs _ hmore.1)).2⟩

theorem not_trusts_of_step (hpairs : ∀ write, s.pairs a ≠ some (fp, write))
    (h : s.step x a = some t) (hs : ¬ s.Trusts fp) : ¬ t.Trusts fp :=
  (step_untrusted_iff (hpairs _) hs h).mpr (fun _ => hpairs _)

section

variable (hs : Enforced fp s) (hok : Undisturbed fp s a) (h : s.step x a = some t)
include hs hok h

theorem step_guarded :
    ∀ r ∈ t.requests, r.pending fp ∨ r.done fp (t.pairings.count fp) → ¬ t.Trusts fp := by
  intro r' hr' hguard
  rcases step_request h hr' with hold | ⟨_, rfl⟩ | ⟨i, r, write, u, rfl, hr, hh, _⟩
  · obtain ⟨hpairs, hcount⟩ := step_unpaired hs hok h hold hguard
    rw [hcount] at hguard
    exact not_trusts_of_step hpairs h (hs.untrusted r' hold hguard)
  · simp [pending, done, revokes] at hguard
  have hmem := mem_of_getElem? hr
  have hpairs : ∀ w, s.pairs (.proceed i write) ≠ some (fp, w) := fun _ => nofun
  have hcount := ((step_pairings fp h).resolve_right nofun).2
  rw [hcount] at hguard
  cases guarded_of_handles hh hguard with
  | pending hp => exact not_trusts_of_step hpairs h (hs.untrusted r hmem (.inl hp))
  | dropped _ _ hstg =>
    have hp := (pending_enforcing hstg (by decide)).mpr (.inl rfl)
    exact not_trusts_of_step hpairs h (hs.untrusted r hmem (.inl hp))
  | done hdone => exact not_trusts_of_step hpairs h (hs.untrusted r hmem (.inr hdone))
  | hidden htrust => exact not_trusts_of_step hpairs h htrust
  | revoked _ hcomm hstg => exact untrusted_of_unpair hr hcomm hstg h

theorem step_calm (hr : r ∈ s.requests) (hguard : r.pending fp ∨ r.done fp (t.pairings.count fp))
    (hq : s.Quiet fp) : t.Quiet fp ∧ (t.sessions fp = s.sessions fp ∨ t.sessions fp = none) := by
  obtain ⟨hpairs, hcount⟩ := step_unpaired hs hok h hr hguard
  rw [hcount] at hguard
  exact ⟨step_quiet (hs.untrusted r hr hguard) hpairs hq h, step_sessions_of_quiet hq h⟩

theorem step_looked :
    ∀ r ∈ t.requests, ∀ rest id response, r.stage = .enforcing fp rest (.shutdown id) response →
      t.Quiet fp ∧ ∀ j, t.sessions fp = some j → j = id := by
  intro r' hr' rest id response hstg
  rcases step_request h hr' with hold | ⟨_, rfl⟩ | ⟨i, r, _, u, rfl, hr, hh, rfl⟩
  · obtain ⟨hq, hid⟩ := hs.looked r' hold rest id response hstg
    have hpend := (pending_enforcing hstg (by simp)).mpr (.inl rfl)
    obtain ⟨hqt, hsess⟩ := step_calm hs hok h hold (.inl hpend) hq
    refine ⟨hqt, fun j hj => ?_⟩
    rcases hsess with hsame | hnone
    · exact hid j (hsame ▸ hj)
    · rw [hnone] at hj
      cases hj
  · cases hstg
  · cases hh with
    | found l _ _ _ hst hsession =>
      cases hstg
      refine ⟨hok r hr (by simp [looksUp, hst]), fun j hj => ?_⟩
      exact mem_unique hj hsession
    | _ => cases hstg

theorem step_shut :
    ∀ r ∈ t.requests, ∀ rest response, r.stage = .enforcing fp rest .drop response → t.Quiet fp ∧
      ∀ j c, t.sessions fp = some j → t.connections[j]? = some c → c.asked := by
  intro r' hr' rest response hstg
  rcases step_request h hr' with hold | ⟨_, rfl⟩ | ⟨i, r, _, u, rfl, hr, hh, rfl⟩
  · obtain ⟨hq, hask⟩ := hs.shut r' hold rest response hstg
    have hpend := (pending_enforcing hstg (by simp)).mpr (.inl rfl)
    obtain ⟨hqt, hsess⟩ := step_calm hs hok h hold (.inl hpend) hq
    refine ⟨hqt, fun j c' hj hc' => ?_⟩
    rcases hsess with hsame | hnone
    · obtain ⟨c, -, hc, -⟩ := hs.mapped fp j (hsame ▸ hj)
      obtain ⟨d, hd, hev⟩ := step_evolves h hc
      obtain rfl := mem_unique hd hc'
      exact hev.asked (hask j c (hsame ▸ hj) hc)
    · rw [hnone] at hj
      cases hj
  · cases hstg
  · cases hh with
    | notFound l _ _ hst hsession =>
      cases hstg
      refine ⟨hok r hr (by simp [looksUp, hst]), fun j c hj => ?_⟩
      rw [hsession] at hj
      cases hj
    | shutdown l _ _ id hst =>
      cases hstg
      have hmem := mem_of_getElem? hr
      obtain ⟨hq, hid⟩ := hs.looked r hmem rest id response hst
      have hpend := (pending_enforcing hst (by simp)).mpr (.inl rfl)
      refine ⟨(step_calm hs hok h hmem (.inl hpend) hq).1, fun j c hj hc => ?_⟩
      obtain rfl := hid j hj
      exact shutdown_asked hc
    | _ => cases hstg

theorem step_gone :
    ∀ r ∈ t.requests, r.done fp (t.pairings.count fp) → t.Quiet fp ∧ t.sessions fp = none := by
  intro r' hr' hdone
  rcases step_request h hr' with hold | ⟨_, rfl⟩ | ⟨i, r, _, u, rfl, hr, hh, hu⟩
  · have hcount := (step_unpaired hs hok h hold (.inr hdone)).2
    obtain ⟨hq, hnone⟩ := hs.gone r' hold (hcount ▸ hdone)
    obtain ⟨hqt, hsess⟩ := step_calm hs hok h hold (.inr hdone) hq
    exact ⟨hqt, hsess.elim (fun hsame => hsame.trans hnone) id⟩
  · simp [done, revokes] at hdone
  have hmem := mem_of_getElem? hr
  have hcount := ((step_pairings fp h).resolve_right nofun).2
  have hfalse : r'.pending fp → False := fun hp => by
    rw [not_pending_of_done hdone] at hp
    cases hp
  cases guarded_of_handles hh (.inr hdone) with
  | pending _ hp' | hidden _ hp' | revoked _ _ _ hp' => exact (hfalse hp').elim
  | dropped rest response hstg hnone =>
    have hpend := (pending_enforcing hstg (by decide)).mpr (.inl rfl)
    refine ⟨(step_calm hs hok h hmem (.inl hpend) (hs.shut r hmem rest response hstg).1).1, ?_⟩
    rw [hu]
    exact hnone
  | done hd =>
    obtain ⟨hq, hnone⟩ := hs.gone r hmem (hcount ▸ hd)
    obtain ⟨hqt, hsess⟩ := step_calm hs hok h hmem (.inr hd) hq
    exact ⟨hqt, hsess.elim (fun hsame => hsame.trans hnone) id⟩

end

theorem step_registered (hs : Enforced fp s) (h : s.step x a = some t) :
    ∀ j c negotiated, t.connections[j]? = some c → c.fingerprint = fp →
      c.phase = .running negotiated → c.asked ∨ t.sessions fp = some j := by
  intro j c' negotiated hc' hfp hrunn
  rcases step_connection h hc' with hacc | ⟨c, hc, hev⟩
  · rw [hacc] at hrunn
    cases hrunn
  have hcfp : c.fingerprint = fp := hev.fingerprint.symm.trans hfp
  have hmoves := hev.phase
  rw [hrunn] at hmoves
  rcases hmoves.to_running with hold | ⟨hph, ha⟩
  · rcases hs.registered j c negotiated hc hcfp hold with hask | hreg
    · exact .inl (hev.asked hask)
    cases step_registers fp h with
    | kept hsame => exact .inr (hsame.trans hreg)
    | registered i b n _ _ _ _ _ _ hask => exact .inl (hask j hreg c' hc')
    | removed i b n _ hb hend hbreg =>
      obtain rfl := mem_unique hbreg hreg
      obtain rfl := mem_unique hb hc
      rw [hold] at hend
      cases hend
    | dropped i r _ rest response _ hr hstg =>
      have hask := (hs.shut r (mem_of_getElem? hr) rest response hstg).2 j c hreg hc
      exact .inl (hev.asked hask)
  · subst ha
    cases step_registers fp h with
    | kept _ hkeep => exact absurd rfl (hkeep j c hc hcfp).1
    | registered i b n ha _ _ _ hnew =>
      obtain rfl := Action.register.inj ha
      exact .inr hnew
    | removed _ _ _ ha | dropped _ _ _ _ _ ha => cases ha

theorem step_enforced (hok : Undisturbed fp s a) (h : s.step x a = some t) (hs : Enforced fp s) :
    Enforced fp t where
  mapped := step_mapped h hs.mapped
  marked := step_marked hs h
  untrusted := step_guarded hs hok h
  looked := step_looked hs hok h
  shut := step_shut hs hok h
  gone := step_gone hs hok h
  registered := step_registered hs h

/-- Once an unpair was answered with success and until the peer is paired again, no session
of the peer is in the map, and none goes on without having been asked to end. -/
def Ended (fp : Fp) (s : Daemon Fp) : Prop :=
  ∀ r ∈ s.requests, ∀ device response, r.command = .unpair device →
    r.stage = .answered (some fp) response → response.isOk → r.mark = s.pairings.count fp →
    s.sessions fp = none ∧ ∀ c ∈ s.connections, c.fingerprint = fp → c.phase.isLive → c.asked

/-- Revocation ends the sessions of the peer in every run whose steps are undisturbed. -/
theorem unpair_ends_sessions {store : Store Fp} {as : List (Action Fp ε)}
    (hrun : run (step x) (starting store) as = some t)
    (hok : Meets (step x) (Undisturbed fp) (starting store) as) : t.Ended fp := by
  have hs : Enforced fp t :=
    run_invariant (step x) (fun _ _ _ => step_enforced) hrun hok
      (by constructor <;> simp [starting, Mapped])
  intro r hr _ _ hcomm hstg hisOk hmark
  have hdone : r.done fp (t.pairings.count fp) := by
    simp [done, revokes, isUnpair, pending, hcomm, hstg, hisOk, hmark]
  obtain ⟨hq, hnone⟩ := hs.gone r hr hdone
  refine ⟨hnone, fun c hc hfp hlive => ?_⟩
  have harr := hq c hc hfp
  cases hph : c.phase with
  | running negotiated =>
    obtain ⟨j, hj⟩ := mem_iff_getElem?.mp hc
    refine (hs.registered j c negotiated hj hfp hph).resolve_right ?_
    rw [hnone]
    exact nofun
  | _ => simp_all [Phase.isArriving, Phase.isLive]

instance (fp : Fp) (s : Daemon Fp) : Decidable (s.Quiet fp) :=
  inferInstanceAs (Decidable (∀ c ∈ s.connections, _))

instance (fp : Fp) (s : Daemon Fp) (a : Action Fp ε) : Decidable (s.Undisturbed fp a) := by
  unfold Undisturbed
  induction a using Action.casesOn <;> infer_instance

def unpairConnected : List (Action Nat Unit) :=
  connected ++ [Action.request (.unpair "phone"), .proceed 0 (.ok ()), .proceed 0 (.ok ()),
    .proceed 0 (.ok ()), .proceed 0 (.ok ()), .proceed 0 (.ok ()), .proceed 0 (.ok ())]

theorem unpair_ends_sessions_connected :
    ∃ t, run (step sampleConfig) (starting ⟨.empty, []⟩) unpairConnected = some t ∧
      (t.requests[0]?).map Request.stage = some (.answered (some 7) (.ok "revoked 0007")) ∧
      t.connections.map Connection.asked = [true] ∧ t.Ended 7 :=
  ⟨_, rfl, by decide, by decide,
    @unpair_ends_sessions _ _ _ sampleConfig _ 7 ⟨.empty, []⟩ unpairConnected rfl (by decide)⟩

/-- The phone connects again and is found trusted; then it is unpaired, the unpair is
answered with success, and the handshake goes on into the map of sessions. -/
theorem unpaired_session_registered :
    ∃ t, run (step sampleConfig) (starting ⟨.empty, []⟩)
        (pairing ++ [.accept 7 ⟨"phone", "Phone", 1⟩ ["battery.v1", "notifications.v1"] 1,
          .lookup 1, .request (.unpair "phone"), .proceed 0 (.ok ()), .proceed 0 (.ok ()),
          .proceed 0 (.ok ()), .proceed 0 (.ok ()), .proceed 0 (.ok ()), .establish 1, .clear 1,
          .register 1]) = some t ∧
      (t.requests[0]?).map Request.stage = some (.answered (some 7) (.ok "revoked 0007")) ∧
      t.pairings.count 7 = 1 ∧ (t.requests[0]?).map mark = some 1 ∧ t.sessions 7 = some 1 ∧
      (t.connections[1]?).map Connection.asked = some false ∧ ¬ t.Ended 7 := by
  refine ⟨_, rfl, by decide, by decide, by decide, by decide, by decide, ?_⟩
  intro h
  have hended := h _ mem_cons_self "phone" _ rfl rfl rfl rfl
  cases hended.1

end Daemon

end OmniBridge.Desktop
