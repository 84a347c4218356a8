import OmniBridge.Slots
import OmniBridge.PhoneFiles

/-! Received bytes and published downloads. A task that took the transfer's one
challenge is the only writer of its entry, so the digest it checked is the digest
of the entry. -/

namespace OmniBridge.Files

open List Option

variable {Peer : Type}

def Job.isReceiving : Job Peer → Bool
  | .stream (.receiving ..) => true
  | _ => false

def Task.atChallenge (t : Task Peer) : Bool :=
  match t.job with
  | .stream (.transport _) => true
  | _ => false

namespace System

/-- Sizes and digests of the transfers, and the transfers of the entries, are never rewritten. -/
structure Extends (s t : System Peer) : Prop where
  transfers : ∀ (r : Nat) tr, s.transfers[r]? = some tr →
    ∃ tr', t.transfers[r]? = some tr' ∧ tr'.sizeBytes = tr.sizeBytes ∧
      tr'.sha256 = tr.sha256
  entries : ∀ (k : Nat) e, s.entries[k]? = some e →
    ∃ e', t.entries[k]? = some e' ∧ e'.transfer = e.transfer

variable (sha256 : List UInt8 → List UInt8)

def StageOk (s : System Peer) (t : Task Peer) : Prop :=
  match t.job with
  | .approval (.opened k) => ∃ e, s.entries[k]? = some e ∧ e.transfer = t.transfer
  | .stream .launched | .stream (.transport _) => t.entry = none
  | .stream (.challenge _ challenge) | .stream (.taken _ challenge) =>
    t.entry = none ∧ (challenge.isSome → t.took)
  | .stream .dialled => t.entry = none ∧ t.took
  | .stream (.receiving k read _) => t.entry = some k ∧ t.wrote = read ∧
    ∃ tr, s.transfers[t.transfer]? = some tr ∧ read.length ≤ tr.sizeBytes
  | .stream (.received k read) | .stream (.verifying k read) => t.entry = some k ∧ t.wrote = read ∧
    ∃ tr, s.transfers[t.transfer]? = some tr ∧ read.length = tr.sizeBytes
  | .stream (.verified k read) => t.entry = some k ∧ t.wrote = read ∧
    ∃ tr, s.transfers[t.transfer]? = some tr ∧ read.length = tr.sizeBytes ∧
      sha256 read = tr.sha256
  | _ => True

def Verified (s : System Peer) (k : Nat) (e : Entry) : Prop :=
  (∃ tr, s.transfers[e.transfer]? = some tr ∧ e.written.length = tr.sizeBytes ∧
    sha256 e.written = tr.sha256) ∧
  ∃ (i : Nat) (t : Task Peer), s.tasks[i]? = some t ∧ t.entry = some k ∧ t.job.isReceiving = false

structure Confined (s : System Peer) : Prop where
  unique : ∀ (i j : Nat) t u, s.tasks[i]? = some t → s.tasks[j]? = some u →
    t.took → u.took → t.transfer = u.transfer → i = j
  stages : ∀ (i : Nat) t, s.tasks[i]? = some t → s.StageOk sha256 t
  owner : ∀ (i k : Nat) t, s.tasks[i]? = some t → t.entry = some k → t.took ∧
    ∃ e, s.entries[k]? = some e ∧ e.transfer = t.transfer ∧ e.written = t.wrote
  unopened : ∀ (i : Nat) t, s.tasks[i]? = some t → t.entry = none → t.wrote = []
  writers : ∀ (k : Nat) e, s.entries[k]? = some e → ∀ i ∈ e.writers,
    ∃ t, s.tasks[i]? = some t ∧ t.entry = some k
  unwritten : ∀ (k : Nat) e, s.entries[k]? = some e → e.writers = [] → e.written = []
  published : ∀ (k : Nat) e, s.entries[k]? = some e → e.published →
    s.Verified sha256 k e
  pending : ∀ (r k : Nat) tr, s.transfers[r]? = some tr → tr.pending = some k →
    ∃ e, s.entries[k]? = some e ∧ e.transfer = r

variable {sha256}

variable {i k r : Nat} {input : Input} {job : Job Peer} {t : Task Peer} {call : FinishCall}
  {s s' : System Peer} {tr : Transfer Peer} {f : Transfer Peer → Transfer Peer}

theorem StageOk.mono (hext : s.Extends s') (h : s.StageOk sha256 t) : s'.StageOk sha256 t := by
  have hlength {n : Nat} (R : Nat → Nat → Prop)
      (hs : ∃ tr, s.transfers[t.transfer]? = some tr ∧ R n tr.sizeBytes) :
      ∃ tr, s'.transfers[t.transfer]? = some tr ∧ R n tr.sizeBytes := by
    obtain ⟨tr, htr, hlen⟩ := hs
    obtain ⟨tr', htr', hsize, -⟩ := hext.transfers _ tr htr
    exact ⟨tr', htr', hsize ▸ hlen⟩
  unfold StageOk at h ⊢
  split at h
  case h_2 | h_3 | h_4 | h_5 | h_6 => exact h
  case h_8 | h_9 => exact ⟨h.1, h.2.1, hlength (· = ·) h.2.2⟩
  · obtain ⟨e, he, htr⟩ := h
    obtain ⟨e', he', heq⟩ := hext.entries _ e he
    exact ⟨e', he', heq.trans htr⟩
  · exact ⟨h.1, h.2.1, hlength (· ≤ ·) h.2.2⟩
  · obtain ⟨hentry, hwrote, tr, htr, hlen, hsha⟩ := h
    obtain ⟨tr', htr', hsize, heq⟩ := hext.transfers _ tr htr
    exact ⟨hentry, hwrote, tr', htr', hsize ▸ hlen, heq ▸ hsha⟩
  · trivial

theorem Extends.modifyTransfer (s : System Peer) (r) (hsize : ∀ tr, (f tr).sizeBytes = tr.sizeBytes)
    (hsha : ∀ tr, (f tr).sha256 = tr.sha256) : s.Extends (s.modifyTransfer r f) := by
  refine ⟨?_, fun k e he => ⟨e, he, rfl⟩⟩
  intro _ tr htr
  refine ⟨_, getElem?_modify_of_eq_some htr r f, ?_, ?_⟩
  · split
    · exact hsize tr
    · rfl
  · split
    · exact hsha tr
    · rfl

theorem Extends.modifyEntry (s : System Peer) (k) {f : Entry → Entry}
    (hf : ∀ e, (f e).transfer = e.transfer) : s.Extends (s.modifyEntry k f) := by
  refine ⟨fun r tr htr => ⟨tr, htr, rfl, rfl⟩, ?_⟩
  intro _ e he
  refine ⟨_, getElem?_modify_of_eq_some he k f, ?_⟩
  split
  · exact hf e
  · rfl

theorem Verified.mono (hext : s.Extends s') {e e'} (htran : e'.transfer = e.transfer)
    (hwrit : e'.written = e.written)
    (htasks : ∀ (i : Nat) t, s.tasks[i]? = some t → t.entry = some k → t.job.isReceiving = false →
      ∃ (j : Nat) (u : Task Peer), s'.tasks[j]? = some u ∧ u.entry = some k ∧
      u.job.isReceiving = false) (h : s.Verified sha256 k e) : s'.Verified sha256 k e' := by
  obtain ⟨⟨tr, htr, hlen, hsha⟩, i, t, ht, hentry, hjob⟩ := h
  obtain ⟨tr', htr', hsize, heq⟩ := hext.transfers _ tr htr
  refine ⟨⟨tr', htran ▸ htr', ?_, ?_⟩, htasks i t ht hentry hjob⟩
  · rw [hwrit, hlen, hsize]
  · rw [hwrit, hsha, heq]

section

variable (h : s.Confined sha256)
include h

theorem Confined.modifyTransfer (r : Nat) (hsize : ∀ tr, (f tr).sizeBytes = tr.sizeBytes)
    (hsha : ∀ tr, (f tr).sha256 = tr.sha256)
    (hpend : ∀ tr (k : Nat), s.transfers[r]? = some tr → (f tr).pending = some k →
      ∃ e, s.entries[k]? = some e ∧ e.transfer = r) : (s.modifyTransfer r f).Confined sha256 := by
  have hext := Extends.modifyTransfer s r hsize hsha
  refine { h with
    stages := fun i t ht => (h.stages i t ht).mono hext, published := ?_, pending := ?_ }
  · intro k e he hp
    exact (h.published k e he hp).mono hext rfl rfl (fun i t ht hk hj => ⟨i, t, ht, hk, hj⟩)
  · intro r' k _ htr' hk
    obtain ⟨tr, htr, rfl⟩ := getElem?_modify_eq_some htr'
    by_cases hr : r = r'
    · subst hr
      rw [if_pos rfl] at hk
      exact hpend tr k htr hk
    · rw [if_neg hr] at hk
      exact h.pending r' k tr htr hk

theorem Confined.keepPending (r : Nat)
    (hf : ∀ tr, (f tr).sizeBytes = tr.sizeBytes ∧ (f tr).sha256 = tr.sha256 ∧
      (f tr).pending = tr.pending) : (s.modifyTransfer r f).Confined sha256 :=
  h.modifyTransfer r (fun tr => (hf tr).1) (fun tr => (hf tr).2.1)
    (fun tr k htr hk => h.pending r k tr htr ((hf tr).2.2 ▸ hk))

theorem Confined.dropPending (r : Nat) :
    (s.modifyTransfer r ({ · with pending := none })).Confined sha256 :=
  h.modifyTransfer r (fun _ => rfl) (fun _ => rfl) (fun _ _ _ hk => by cases hk)

theorem Confined.insert (hpend : tr.pending = none) : (s.insert tr).Confined sha256 := by
  have hext : s.Extends (s.insert tr) :=
    ⟨fun r tr' htr => ⟨tr', getElem?_concat_of_eq_some htr tr, rfl, rfl⟩, fun k e he =>
      ⟨e, he, rfl⟩⟩
  refine { h with
    stages := fun i t ht => (h.stages i t ht).mono hext, published := ?_, pending := ?_ }
  · intro k e he hp
    exact (h.published k e he hp).mono hext rfl rfl (fun i t ht hk hj => ⟨i, t, ht, hk, hj⟩)
  · intro r k tr' htr' hk
    rcases getElem?_concat_eq_some htr' with htr | ⟨-, rfl⟩
    · exact h.pending r k tr' htr hk
    · rw [hpend] at hk
      cases hk

theorem Confined.appendEntry (r : Nat) :
    Confined sha256 { s with entries := s.entries ++ [{ transfer := r }] } := by
  have hext : s.Extends { s with entries := s.entries ++ [{ transfer := r }] } :=
    ⟨fun r tr htr => ⟨tr, htr, rfl, rfl⟩, fun k e he => ⟨e, getElem?_concat_of_eq_some he _, rfl⟩⟩
  constructor
  · exact h.unique
  · exact fun i t ht => (h.stages i t ht).mono hext
  · intro i k t ht hk
    obtain ⟨htook, e, he, htr, hw⟩ := h.owner i k t ht hk
    exact ⟨htook, e, getElem?_concat_of_eq_some he _, htr, hw⟩
  · exact h.unopened
  · exact forall_getElem?_concat h.writers nofun
  · exact forall_getElem?_concat h.unwritten (fun _ => rfl)
  · refine forall_getElem?_concat (fun k e he hp => ?_) nofun
    exact (h.published k e he hp).mono hext rfl rfl (fun i t ht hk hj => ⟨i, t, ht, hk, hj⟩)
  · intro r' k tr htr hk
    obtain ⟨e, he, heq⟩ := h.pending r' k tr htr hk
    exact ⟨e, getElem?_concat_of_eq_some he _, heq⟩

theorem Confined.spawn (hst : s.StageOk sha256 { transfer := r, job := job }) :
    (s.spawn r job).Confined sha256 := by
  have hext : s.Extends (s.spawn r job) := ⟨fun r tr htr => ⟨tr, htr, rfl, rfl⟩, fun k e he =>
    ⟨e, he, rfl⟩⟩
  refine { h with
    unique := ?_, stages := ?_, owner := ?_, unopened := ?_, writers := ?_, published := ?_ }
  · intro i j t u ht hu htook hutook heq
    rcases getElem?_concat_eq_some ht with ht | ⟨-, rfl⟩
    · rcases getElem?_concat_eq_some hu with hu | ⟨-, rfl⟩
      · exact h.unique i j t u ht hu htook hutook heq
      · cases hutook
    · cases htook
  · exact forall_getElem?_concat (fun i t ht => (h.stages i t ht).mono hext) (hst.mono hext)
  · intro i k t ht hk
    rcases getElem?_concat_eq_some ht with ht | ⟨-, rfl⟩
    · exact h.owner i k t ht hk
    · cases hk
  · exact forall_getElem?_concat h.unopened (fun _ => rfl)
  · intro k e he i hi
    obtain ⟨t, ht, hk⟩ := h.writers k e he i hi
    exact ⟨t, getElem?_concat_of_eq_some ht _, hk⟩
  · intro k e he hp
    exact (h.published k e he hp).mono hext rfl rfl
      (fun i t ht hk hj => ⟨i, t, getElem?_concat_of_eq_some ht _, hk, hj⟩)

end

section

variable (h : s.Confined sha256) (ht : s.tasks[i]? = some t)
include h ht

theorem Confined.evolve {f : Task Peer → Task Peer} (htasks : s'.tasks = s.tasks.modify i f)
    (htrans : s'.transfers = s.transfers) (hext : s.Extends s')
    (htran : (f t).transfer = t.transfer)
    (htook : (f t).took → t.took ∨ ∀ u ∈ s.tasks, u.transfer = t.transfer → u.took = false)
    (hst : s.StageOk sha256 (f t)) (hunop : (f t).entry = none → (f t).wrote = [])
    (hkeep : ∀ k, t.entry = some k → (f t).entry = some k ∧
      (t.job.isReceiving = false → (f t).job.isReceiving = false))
    (howner : ∀ (j k : Nat) u, j = i ∧ u = f t ∨ j ≠ i ∧ s.tasks[j]? = some u → u.entry = some k →
      u.took ∧ ∃ e, s'.entries[k]? = some e ∧ e.transfer = u.transfer ∧ e.written = u.wrote)
    (hentr : ∀ (k : Nat) e, s'.entries[k]? = some e → (∀ j ∈ e.writers, ∃ u, s.tasks[j]? = some u ∧
      u.entry = some k) ∧ (e.writers = [] → e.written = []) ∧
      (e.published → ∃ e', s.Verified sha256 k e' ∧ e.transfer = e'.transfer ∧
      e.written = e'.written)) : s'.Confined sha256 := by
  have htask (j : Nat) (u : Task Peer) (hu : s'.tasks[j]? = some u) := modify_cases ht (htasks ▸ hu)
  have hkept (j k : Nat) (u : Task Peer) (hu : s.tasks[j]? = some u) (hk : u.entry = some k) :
      ∃ u', s'.tasks[j]? = some u' ∧ u'.entry = some k ∧
        (u.job.isReceiving = false → u'.job.isReceiving = false) := by
    refine ⟨_, htasks ▸ getElem?_modify_of_eq_some hu i f, ?_⟩
    by_cases hij : i = j
    · subst hij
      obtain rfl := mem_unique ht hu
      rw [if_pos rfl]
      exact hkeep k hk
    · rw [if_neg hij]
      exact ⟨hk, id⟩
  have hone (j : Nat) (u : Task Peer) (hji : j ≠ i) (hu : s.tasks[j]? = some u)
      (huk : u.took) (hfk : (f t).took) (heq : u.transfer = (f t).transfer) : False := by
    rw [htran] at heq
    rcases htook hfk with htk | hnone
    · exact hji (h.unique j i u t hu ht huk htk heq)
    · rw [hnone u (mem_of_getElem? hu) heq] at huk
      cases huk
  constructor
  · intro j j' u v hu hv huk hvk heq
    rcases htask j u hu with ⟨rfl, rfl⟩ | ⟨hj, hu'⟩
    · rcases htask j' v hv with ⟨rfl, rfl⟩ | ⟨hj', hv'⟩
      · rfl
      · exact (hone j' v hj' hv' hvk huk heq.symm).elim
    · rcases htask j' v hv with ⟨rfl, rfl⟩ | ⟨-, hv'⟩
      · exact (hone j u hj hu' huk hvk heq).elim
      · exact h.unique j j' u v hu' hv' huk hvk heq
  · intro j u hu
    rcases htask j u hu with ⟨rfl, rfl⟩ | ⟨-, hu⟩
    · exact hst.mono hext
    · exact (h.stages j u hu).mono hext
  · exact fun j k u hu => howner j k u (htask j u hu)
  · intro j u hu hnone
    rcases htask j u hu with ⟨rfl, rfl⟩ | ⟨-, hu⟩
    · exact hunop hnone
    · exact h.unopened j u hu hnone
  · intro k e he j hj
    obtain ⟨u, hu, hk⟩ := (hentr k e he).1 j hj
    obtain ⟨u', hu', hentry, -⟩ := hkept j k u hu hk
    exact ⟨u', hu', hentry⟩
  · exact fun k e he => (hentr k e he).2.1
  · intro k e he hp
    obtain ⟨e', hver, htr, hwrit⟩ := (hentr k e he).2.2 hp
    refine hver.mono hext htr hwrit ?_
    intro j u hu hk hfalse
    obtain ⟨u', hu', hentry, hidle⟩ := hkept j k u hu hk
    exact ⟨j, u', hu', hentry, hidle hfalse⟩
  · intro r k tr htr hk
    obtain ⟨e, he, heq⟩ := h.pending r k tr (htrans ▸ htr) hk
    obtain ⟨e', he', htr'⟩ := hext.entries k e he
    exact ⟨e', he', htr'.trans heq⟩

theorem Confined.modifyTask {f : Task Peer → Task Peer} (htran : (f t).transfer = t.transfer)
    (htook : (f t).took → t.took ∨ ∀ u ∈ s.tasks, u.transfer = t.transfer → u.took = false)
    (hst : s.StageOk sha256 (f t))
    (howner : ∀ k, (f t).entry = some k → (f t).took = true ∧ ∃ e, s.entries[k]? = some e ∧
      e.transfer = t.transfer ∧ e.written = (f t).wrote)
    (hunop : (f t).entry = none → (f t).wrote = [])
    (hkeep : ∀ k, t.entry = some k → (f t).entry = some k ∧
      (t.job.isReceiving = false → (f t).job.isReceiving = false)) :
    (s.modifyTask i f).Confined sha256 := by
  refine h.evolve ht rfl rfl ⟨fun r tr htr => ⟨tr, htr, rfl, rfl⟩, fun k e he => ⟨e, he, rfl⟩⟩ htran
    htook hst hunop hkeep ?_ ?_
  · rintro j k _ (⟨-, rfl⟩ | ⟨-, hu⟩) hk
    · rw [htran]
      exact howner k hk
    · exact h.owner j k _ hu hk
  · intro k e he
    exact ⟨h.writers k e he, h.unwritten k e he, fun hp => ⟨e, h.published k e he hp, rfl, rfl⟩⟩

theorem Confined.modifyEntry (k : Nat) {f : Entry → Entry}
    (htran : ∀ e, (f e).transfer = e.transfer) (hwrit : ∀ e, (f e).written = e.written)
    (hwriters : ∀ e, (f e).writers = e.writers)
    (hpubl : ∀ e, s.entries[k]? = some e → (f e).published → s.Verified sha256 k e) :
    (s.modifyEntry k f).Confined sha256 := by
  refine h.evolve ht (f := id) (modify_id ..).symm rfl (.modifyEntry s k htran) rfl .inl
    (h.stages i t ht) (h.unopened i t ht) (fun _ hk => ⟨hk, id⟩) ?_ ?_
  · intro j k' u hu hk
    have hold : s.tasks[j]? = some u := by
      rcases hu with ⟨rfl, rfl⟩ | ⟨-, hu⟩
      · exact ht
      · exact hu
    obtain ⟨htook, e, he, htr, hw⟩ := h.owner j k' u hold hk
    refine ⟨htook, _, getElem?_modify_of_eq_some he k f, ?_⟩
    split
    · exact ⟨(htran e).trans htr, (hwrit e).trans hw⟩
    · exact ⟨htr, hw⟩
  · intro k' e' he'
    obtain ⟨e, he, rfl⟩ := getElem?_modify_eq_some he'
    by_cases hk : k = k'
    · subst hk
      rw [if_pos rfl, hwrit, hwriters]
      exact ⟨h.writers k e he, h.unwritten k e he, fun hp => ⟨e, hpubl e he hp, htran e, rfl⟩⟩
    · rw [if_neg hk]
      exact ⟨h.writers k' e he, h.unwritten k' e he,
        fun hp => ⟨e, h.published k' e he hp, rfl, rfl⟩⟩

theorem Confined.closeEntry (k : Nat) : (s.closeEntry k).Confined sha256 :=
  h.modifyEntry ht k (fun _ => rfl) (fun _ => rfl) (fun _ => rfl) (h.published k)

theorem Confined.deleteEntry (k : Nat) (ok : Bool) : (s.deleteEntry k ok).Confined sha256 :=
  h.modifyEntry ht k (fun _ => rfl) (fun _ => rfl) (fun _ => rfl) (h.published k)

theorem Confined.setJob (hst : s.StageOk sha256 { t with job := job })
    (hrec : job.isReceiving → t.job.isReceiving) : (s.setJob i job).Confined sha256 := by
  refine h.modifyTask ht rfl .inl hst (fun k hk => h.owner i k t ht hk)
    (h.unopened i t ht) (fun k hk => ⟨hk, fun hfalse => ?_⟩)
  cases hjob : job.isReceiving with
  | false => rfl
  | true =>
    rw [hrec hjob] at hfalse
    cases hfalse

theorem Confined.openEntry (hjob : t.job = .stream .dialled) (hr : t.transfer = r)
    (htr : s.transfers[r]? = some tr) (hk : tr.pending = some k) :
    (s.modifyTask i ({ · with job := .stream (.receiving k [] false), entry := some k })).Confined
      sha256 := by
  subst hr
  have hst := h.stages i t ht
  unfold StageOk at hst
  rw [hjob] at hst
  obtain ⟨hnone, htook⟩ := hst
  obtain ⟨e, he, heq⟩ := h.pending t.transfer k tr htr hk
  have hwrote := h.unopened i t ht hnone
  have hempty : e.writers = [] := by
    cases hw : e.writers with
    | nil => rfl
    | cons j =>
      obtain ⟨u, hu, huk⟩ := h.writers k e he j (by simp [hw])
      obtain ⟨hut, _, he', htr', -⟩ := h.owner j k u hu huk
      obtain rfl := mem_unique he he'
      obtain rfl := h.unique j i u t hu ht hut htook (htr'.symm.trans heq)
      obtain rfl := mem_unique ht hu
      rw [hnone] at huk
      cases huk
  refine h.modifyTask ht rfl .inl ⟨rfl, hwrote, tr, htr, Nat.zero_le _⟩ ?_ ?_ ?_
  · intro k' hk'
    obtain rfl : k = k' := some.inj hk'
    exact ⟨htook, e, he, heq, (h.unwritten k e he hempty).trans hwrote.symm⟩
  · intro hnil
    cases hnil
  · intro _ hk'
    rw [hnone] at hk'
    cases hk'

theorem Confined.eq_of_entry {j u} (hu : s.tasks[j]? = some u) (htk : t.entry = some k)
    (huk : u.entry = some k) : i = j := by
  obtain ⟨htook, e, he, htr, -⟩ := h.owner i k t ht htk
  obtain ⟨hutook, _, he', hur, -⟩ := h.owner j k u hu huk
  obtain rfl := mem_unique he he'
  exact h.unique i j t u ht hu htook hutook (htr.symm.trans hur)

theorem Confined.writeEntry (hk : t.entry = some k) (hrec : t.job.isReceiving) {bytes}
    (hst : s.StageOk sha256 { t with wrote := t.wrote ++ bytes, job := job }) :
    ((s.writeEntry i k bytes).setJob i job).Confined sha256 := by
  obtain ⟨htook, e, he, htr, hw⟩ := h.owner i k t ht hk
  have hmod := Extends.modifyEntry s k (f := fun e =>
    { e with written := e.written ++ bytes, writers := e.writers ++ [i] }) (fun _ => rfl)
  refine h.evolve ht (f := fun t => { t with wrote := t.wrote ++ bytes, job := job })
    (modify_modify_eq ..) rfl
    ⟨hmod.transfers, hmod.entries⟩ rfl .inl hst (fun hnone => ?_) (fun _ hk' =>
      ⟨hk', fun hidle => ?_⟩) ?_ ?_
  · cases hk.symm.trans hnone
  · cases hrec.symm.trans hidle
  · rintro j k' u (⟨-, rfl⟩ | ⟨hji, hu⟩) huk
    · obtain rfl := mem_unique hk huk
      exact ⟨htook, _, getElem?_modify_self he _, htr, by rw [hw]⟩
    obtain ⟨hutook, e', he', hur, huw⟩ := h.owner j k' u hu huk
    have hkk : k ≠ k' := by
      rintro rfl
      exact hji (h.eq_of_entry hu ht huk hk)
    refine ⟨hutook, e', ?_, hur, huw⟩
    exact (getElem?_modify_of_eq_some he' k _).trans (by rw [if_neg hkk])
  · intro k' e' he'
    rcases modify_cases he he' with ⟨rfl, rfl⟩ | ⟨-, he''⟩
    · refine ⟨forall_mem_concat (h.writers k' e he) ⟨t, ht, hk⟩, fun hnil => ?_, fun hp => ?_⟩
      · simp at hnil
      · -- a published entry has an idle owner, and this one is receiving
        obtain ⟨-, j, u, hu, huk, hidle⟩ := h.published k' e he hp
        obtain rfl := h.eq_of_entry hu ht huk hk
        obtain rfl := mem_unique ht hu
        cases hrec.symm.trans hidle
    · exact ⟨h.writers k' e' he'', h.unwritten k' e' he'',
        fun hp => ⟨e', h.published k' e' he'' hp, rfl, rfl⟩⟩

theorem Confined.publishEntry {read} (hjob : t.job = .stream (.verified k read)) :
    (s.publishEntry k).Confined sha256 := by
  have hst := h.stages i t ht
  unfold StageOk at hst
  rw [hjob] at hst
  obtain ⟨hk, rfl, tr, htr, hlen, hsha⟩ := hst
  obtain ⟨-, e, he, heq, hw⟩ := h.owner i k t ht hk
  refine h.modifyEntry ht k (fun _ => rfl) (fun _ => rfl) (fun _ => rfl) ?_
  intro _ he' _
  obtain rfl := mem_unique he he'
  refine ⟨⟨tr, heq ▸ htr, hw ▸ hlen, hw ▸ hsha⟩, i, t, ht, hk, ?_⟩
  rw [hjob]
  rfl

end

theorem Confined.setState (h : s.Confined sha256) {next} (ht : s.transition r next = some s') :
    s'.Confined sha256 ∧ s'.tasks = s.tasks ∧ s.Extends s' := by
  unfold transition at ht
  split at ht
  · cases ht
    exact ⟨h.keepPending r (fun _ => ⟨rfl, rfl, rfl⟩), rfl,
      Extends.modifyTransfer s r (fun _ => rfl) (fun _ => rfl)⟩
  · cases ht

theorem Confined.sendControl (h : s.Confined sha256) (peer : Peer) (id : List UInt8)
    (body : ControlBody) (ok : Bool) :
    (s.sendControl peer id body ok).2.Confined sha256 ∧ (s.sendControl peer id body ok).2.tasks =
      s.tasks := by
  unfold System.sendControl
  split
  · exact ⟨{ h with }, rfl⟩
  · exact ⟨h, rfl⟩

section

variable (h : s.Confined sha256) (ht : s.tasks[i]? = some t)
include h ht

theorem finishStep_confined (hstep : s.finishStep i t.transfer tr call input = some s') :
    s'.Confined sha256 := by
  unfold finishStep at hstep
  split at hstep
  case h_3 | h_4 | h_5 =>
    cases hstep
    refine Confined.setJob (h.keepPending _ ?_) ht trivial nofun
    exact fun _ => ⟨rfl, rfl, rfl⟩
  · cases hstep
    exact h.setJob ht trivial nofun
  · split at hstep
    · cases hstep
      refine Confined.setJob (h.keepPending _ ?_) ht trivial nofun
      exact fun _ => ⟨rfl, rfl, rfl⟩
    · cases hstep
      exact h.setJob ht trivial nofun
  · split at hstep
    · cases hstep
      exact h.setJob ht trivial nofun
    · cases hstep
      exact (h.dropPending _).setJob ht trivial nofun
  · cases hstep
    exact (h.closeEntry ht _).setJob ht trivial nofun
  · cases hstep
    exact (h.deleteEntry ht _ _).setJob ht trivial nofun
  · split at hstep
    · cases hstep
      obtain ⟨hsend, htasks⟩ := h.sendControl tr.peer tr.id (farewell _) _
      exact hsend.setJob (htasks ▸ ht) trivial nofun
    · cases hstep
      exact h.setJob ht trivial nofun
  · cases hstep

theorem approvalStep_confined {stage} (hjob : t.job = .approval stage)
    (hstep : s.approvalStep i t.transfer tr stage input = some s') : s'.Confined sha256 := by
  unfold approvalStep at hstep
  split at hstep
  case h_2 | h_3 =>
    cases hstep
    exact h.setJob ht trivial nofun
  · obtain ⟨accepted, -, rfl⟩ := map_eq_some_iff.mp hstep
    exact h.setJob ht trivial nofun
  · split at hstep
    all_goals
      cases hstep
      exact h.setJob ht trivial nofun
  · split at hstep
    · cases hstep
      refine (h.appendEntry t.transfer).setJob ht ?_ nofun
      exact ⟨{ transfer := t.transfer }, by simp, rfl⟩
    · cases hstep
      exact h.setJob ht trivial nofun
  · cases hstep
    have hst := h.stages i t ht
    unfold StageOk at hst
    rw [hjob] at hst
    obtain ⟨e, he, heq⟩ := hst
    refine Confined.setJob (h.modifyTransfer t.transfer ?_ ?_ ?_) ht trivial nofun
    · exact fun _ => rfl
    · exact fun _ => rfl
    · intro tr k htr hk
      cases hk
      exact ⟨e, he, heq⟩
  · split at hstep
    · cases hstep
      exact h.setJob ht trivial nofun
    · next u hu =>
      cases hstep
      obtain ⟨hc, htasks, -⟩ := h.setState hu
      exact hc.setJob (htasks ▸ ht) trivial nofun
  · next ok =>
    obtain ⟨hsend, htasks⟩ := h.sendControl tr.peer tr.id .accept ok
    split at hstep
    all_goals
      next u hu =>
      cases hstep
      rw [hu] at hsend htasks
      exact hsend.setJob (htasks ▸ ht) trivial nofun
  · cases hstep

theorem receiveStep_confined {read polled} (htr : s.transfers[t.transfer]? = some tr)
    (hjob : t.job = .stream (.receiving k read polled))
    (hstep : s.receiveStep i k tr read polled input = some s') : s'.Confined sha256 := by
  have hst := h.stages i t ht
  unfold StageOk at hst
  rw [hjob] at hst
  obtain ⟨hk, hwrote, _, htr', hlen⟩ := hst
  obtain rfl := mem_unique htr htr'
  have hrec : t.job.isReceiving := by
    rw [hjob]
    rfl
  unfold receiveStep at hstep
  dsimp only at hstep
  split at hstep
  · split at hstep
    · cases hstep
    split at hstep
    · cases hstep
      exact (h.closeEntry ht k).setJob ht trivial nofun
    · cases hstep
      exact h.setJob ht ⟨hk, hwrote, tr, htr, hlen⟩ (fun _ => hrec)
  · next =>
    split at hstep
    · cases hstep
    · next =>
      split at hstep
      · cases hstep
        refine h.writeEntry ht hk hrec ⟨hk, by rw [hwrote], tr, htr, ?_⟩
        rw [length_append]
        omega
      · cases hstep
        exact h.setJob ht trivial nofun
  · cases hstep
    exact (h.closeEntry ht k).setJob ht trivial nofun
  · split at hstep
    · cases hstep
      exact (h.closeEntry ht k).setJob ht trivial nofun
    · cases hstep
  · split at hstep
    · next =>
      cases hstep
      refine (h.closeEntry ht k).setJob ht ⟨hk, hwrote, tr, htr, ?_⟩ nofun
      omega
    · cases hstep
  · split at hstep
    · cases hstep
      exact (h.closeEntry ht k).setJob ht trivial nofun
    split at hstep
    · next part _ _ =>
      cases hstep
      have hw : ((s.writeEntry i k part).setJob i
          (.finishAndTell .FAILED .TRANSPORT)).Confined sha256 :=
        h.writeEntry ht hk hrec trivial
      exact { hw.closeEntry (getElem?_modify_self (getElem?_modify_self ht _) _) k with }
    · cases hstep
  · cases hstep

theorem streamStep_confined {stage} (htr : s.transfers[t.transfer]? = some tr)
    (hjob : t.job = .stream stage)
    (htake : ∀ transport, stage = .transport transport → input = .go → tr.challenge.isSome →
      ∀ u ∈ s.tasks, u.transfer = t.transfer → u.took = false)
    (hstep : s.streamStep sha256 i t.transfer tr stage input = some s') : s'.Confined sha256 := by
  have hst := h.stages i t ht
  unfold StageOk at hst
  rw [hjob] at hst
  unfold streamStep at hstep
  split at hstep
  case h_5 | h_6 | h_8 | h_9 =>
    cases hstep
    exact h.setJob ht trivial nofun
  · cases hstep
    exact h.setJob ht hst nofun
  · next transport =>
    cases hstep
    refine h.modifyTask ht rfl ?_ ⟨hst, ?_⟩ ?_ (h.unopened i t ht) ?_
    · intro htook
      rcases Bool.or_eq_true_iff.mp htook with htook | hsome
      · exact .inl htook
      · exact .inr (htake transport rfl rfl hsome)
    · intro hsome
      exact Bool.or_eq_true_iff.mpr (.inr hsome)
    all_goals
      intro k hk
      rw [hst] at hk
      cases hk
  · cases hstep
    have hc := h.keepPending t.transfer (f := fun tr => { tr with challenge := none })
      (fun _ => ⟨rfl, rfl, rfl⟩)
    exact hc.setJob ht hst nofun
  · split at hstep
    · cases hstep
      have hc : (s.setJob i (.stream .dialled)).Confined sha256 :=
        h.setJob ht ⟨hst.1, hst.2 rfl⟩ nofun
      exact { hc with }
    cases hstep
    have hc : (s.setJob i (.finishAndTell .FAILED .TRANSPORT)).Confined sha256 :=
      h.setJob ht trivial nofun
    exact { hc with }
  · split at hstep
    · cases hstep
      exact h.setJob ht trivial nofun
    split at hstep
    · cases hstep
      exact h.setJob ht trivial nofun
    · next hk =>
      cases hstep
      exact h.openEntry ht hjob rfl htr hk
  · split at hstep
    · cases hstep
      exact h.setJob ht trivial nofun
    · cases hstep
  · split at hstep
    all_goals
      cases hstep
      exact h.setJob ht trivial nofun
  · exact receiveStep_confined h ht htr hjob hstep
  · split at hstep
    · cases hstep
      exact h.setJob ht trivial nofun
    · next u hu =>
      cases hstep
      obtain ⟨hc, htasks, hext⟩ := h.setState hu
      have hs : u.StageOk sha256 { t with job := .stream (.verifying _ _) } :=
        StageOk.mono hext hst
      exact hc.setJob (htasks ▸ ht) hs nofun
  · split at hstep
    · next hsha =>
      cases hstep
      obtain ⟨hk, hwrote, _, htr', hlen⟩ := hst
      obtain rfl := mem_unique htr htr'
      exact h.setJob ht ⟨hk, hwrote, tr, htr, hlen, hsha.symm⟩ nofun
    · cases hstep
      exact h.setJob ht trivial nofun
  · split at hstep
    · cases hstep
      exact (h.publishEntry ht hjob).setJob ht trivial nofun
    · cases hstep
      exact h.setJob ht trivial nofun
  · cases hstep
    exact (h.dropPending _).setJob ht trivial nofun
  · split at hstep
    · cases hstep
      exact h.setJob ht trivial nofun
    · next hu =>
      cases hstep
      obtain ⟨hc, htasks, -⟩ := h.setState hu
      exact hc.setJob (htasks ▸ ht) trivial nofun
  · next ok =>
    cases hstep
    obtain ⟨hsend, htasks⟩ := h.sendControl tr.peer tr.id .complete ok
    exact hsend.setJob (htasks ▸ ht) trivial nofun
  · cases hstep

end

/-- A stream task finds a challenge only while no task of its transfer has taken one. -/
def TakesOnce (s : System Peer) : Action Peer → Prop
  | .task i .go => ∀ t ∈ s.tasks[i]?, t.atChallenge →
    (s.transfers[t.transfer]?).any (·.challenge.isSome) →
      ∀ u ∈ s.tasks, u.transfer = t.transfer → u.took = false
  | _ => True

instance (s : System Peer) (a : Action Peer) : Decidable (s.TakesOnce a) := by
  unfold TakesOnce
  induction a using Action.casesOn
  case task _ input => induction input using Input.casesOn <;> infer_instance
  all_goals infer_instance

section

variable (h : s.Confined sha256)
include h

theorem spawnAndWait_confined (session : Session Peer) :
    (s.spawnAndWait session r (.finish call)).Confined sha256 := by
  have hc : (s.spawn r (.finish call)).Confined sha256 := h.spawn trivial
  exact { hc with }

theorem setChallenge_confined (r : Nat) (challenge : Option (Challenge Peer)) :
    (s.modifyTransfer r ({ · with challenge := challenge })).Confined sha256 :=
  h.keepPending r (fun _ => ⟨rfl, rfl, rfl⟩)

theorem launch_confined (r : Nat) : (s.spawn r (.stream .launched)).Confined sha256 := h.spawn rfl

variable {session : Session Peer}

theorem handlerStep_confined (hstep : s.handlerStep session = some s') : s'.Confined sha256 := by
  unfold handlerStep at hstep
  split at hstep
  · cases hstep
  · cases hstep
    exact { setChallenge_confined h _ _ with }
  · split at hstep
    · cases hstep
      exact { h with }
    · next hu =>
      cases hstep
      exact { launch_confined (h.setState hu).1 _ with }
  · cases hstep
    exact { launch_confined (setChallenge_confined h _ _) _ with }

theorem sweepStep_confined (hstep : s.sweepStep session = some s') : s'.Confined sha256 := by
  unfold sweepStep at hstep
  split at hstep
  · cases hstep
    exact { h with }
  · split at hstep
    · cases hstep
      exact spawnAndWait_confined h _
    · cases hstep
      exact { h with }
  · cases hstep
    exact { h with }
  · cases hstep

theorem respondToOffer_confined (id : List UInt8) (accept : Bool) :
    (s.respondToOffer id accept).Confined sha256 := by
  unfold respondToOffer
  split
  · exact h
  · exact h.keepPending _ (fun _ => ⟨rfl, rfl, rfl⟩)

theorem taskStep_confined (ht : s.tasks[i]? = some t) (htr : s.transfers[t.transfer]? = some tr)
    (hok : s.TakesOnce (.task i input)) (hstep : s.taskStep sha256 i t tr input = some s') :
    s'.Confined sha256 := by
  unfold taskStep at hstep
  split at hstep
  · next ok hjob =>
    obtain ⟨hsend, htasks⟩ := h.sendControl tr.peer tr.id .offer ok
    split at hstep
    all_goals
      next u hu =>
      cases hstep
      rw [hu] at hsend htasks
      exact hsend.setJob (htasks ▸ ht) trivial nofun
  · next hjob => exact approvalStep_confined h ht hjob hstep
  · next stage hjob =>
    refine streamStep_confined h ht htr hjob ?_ hstep
    rintro transport rfl rfl hsome
    have hat : t.atChallenge := by
      unfold Task.atChallenge
      rw [hjob]
    exact hok t ht hat (by rw [htr]; exact hsome)
  · next call hjob => exact finishStep_confined h ht hstep
  · cases hstep

end

theorem init_confined : Confined sha256 ({} : System Peer) := by
  constructor <;> simp

variable [DecidableEq Peer]

theorem onOffer_confined (h : s.Confined sha256) (sanitize : String → Option String) (peer : Peer)
    (offer : FileOffer) (authorized : Bool) :
    (s.onOffer sanitize peer offer authorized).Confined sha256 := by
  have hrej (reason : FailureReason) :
      (s.sendControl peer offer.transferId (.reject reason) true).2.Confined sha256 :=
    (h.sendControl peer offer.transferId (.reject reason) true).1
  unfold onOffer
  split
  · exact h
  split
  · exact hrej _
  split
  · exact hrej _
  split
  · exact hrej _
  split
  · exact hrej _
  split
  · exact hrej _
  split
  · exact hrej _
  · refine Confined.spawn (h.insert rfl) ?_
    trivial

theorem handleControl_confined (h : s.Confined sha256) (sanitize : String → Option String)
    (session : Session Peer) (message : Control) :
    (s.handleControl sanitize session message).Confined sha256 := by
  unfold handleControl
  cases message with
  | offer offer authorized => exact onOffer_confined h sanitize _ offer authorized
  | accept | ready =>
    dsimp only
    split
    · exact h
    · split
      · exact spawnAndWait_confined h session
      · exact { h with }
  | _ =>
    dsimp only
    split
    · exact h
    · exact spawnAndWait_confined h session

theorem step_confined (sanitize : String → Option String) {a} (hok : s.TakesOnce a)
    (hstep : s.step sha256 sanitize a = some s') (h : s.Confined sha256) : s'.Confined sha256 := by
  cases a with
  | connect =>
    simp only [step] at hstep
    split at hstep
    · cases hstep
    · cases hstep
      exact { h with }
  | attachControl =>
    obtain ⟨_, -, hstep⟩ := bind_eq_some_iff.mp hstep
    split at hstep
    · cases hstep
      exact { h with }
    · cases hstep
  | control message =>
    obtain ⟨session, -, hstep⟩ := bind_eq_some_iff.mp hstep
    split at hstep
    · cases hstep
      exact handleControl_confined h sanitize session message
    · cases hstep
  | handle =>
    obtain ⟨_, -, hstep⟩ := bind_eq_some_iff.mp hstep
    exact handlerStep_confined h hstep
  | endSession =>
    obtain ⟨_, -, hstep⟩ := bind_eq_some_iff.mp hstep
    split at hstep
    · split at hstep
      all_goals
        cases hstep
        exact { h with }
    · cases hstep
  | sweep =>
    obtain ⟨_, -, hstep⟩ := bind_eq_some_iff.mp hstep
    split at hstep
    · exact sweepStep_confined h hstep
    · cases hstep
  | offer =>
    simp only [step] at hstep
    split at hstep
    · cases hstep
      exact h
    · cases hstep
      exact { h with }
  | measured index file =>
    obtain ⟨_, -, rfl⟩ := map_eq_some_iff.mp hstep
    have hm : Confined sha256 { s with measuring := s.measuring.eraseIdx index } := { h with }
    cases file with
    | none => exact hm
    | some =>
      refine Confined.spawn (hm.insert rfl) ?_
      trivial
  | respond id accept =>
    cases hstep
    exact respondToOffer_confined h id accept
  | cancel id =>
    simp only [step] at hstep
    split at hstep
    · cases hstep
      exact h
    · cases hstep
      refine Confined.spawn (respondToOffer_confined ?_ id false) trivial
      exact h.keepPending _ (fun _ => ⟨rfl, rfl, rfl⟩)
  | clearFinished =>
    cases hstep
    exact { h with }
  | task =>
    obtain ⟨t, ht, hstep⟩ := bind_eq_some_iff.mp hstep
    obtain ⟨_, htr, hstep⟩ := bind_eq_some_iff.mp hstep
    exact taskStep_confined h ht htr hok hstep

/-- Where a transfer's challenge is taken once, a download has one writer and is published only
with the size and the hash of its offer. -/
theorem downloads_verified (sha256 : List UInt8 → List UInt8) (sanitize : String → Option String)
    (as : List (Action Peer)) {t : System Peer} (hrun : run (step sha256 sanitize) {} as = some t)
    (hok : Meets (step sha256 sanitize) TakesOnce {} as) :
    ∀ e ∈ t.entries, (∀ i ∈ e.writers, ∀ j ∈ e.writers, i = j) ∧
      (e.published → ∃ tr, t.transfers[e.transfer]? = some tr ∧ e.written.length = tr.sizeBytes ∧
      sha256 e.written = tr.sha256) := by
  have h : t.Confined sha256 :=
    run_invariant (step sha256 sanitize) (fun _ _ _ => step_confined sanitize) hrun hok
      init_confined
  intro e he
  obtain ⟨k, hk⟩ := mem_iff_getElem?.mp he
  refine ⟨?_, fun hp => (h.published k e hk hp).1⟩
  intro i hi j hj
  obtain ⟨u, hu, huk⟩ := h.writers k e hk i hi
  obtain ⟨v, hv, hvk⟩ := h.writers k e hk j hj
  exact h.eq_of_entry hu hv huk hvk

def paddedBytes (bytes : List UInt8) : List UInt8 :=
  (bytes ++ replicate SHA256_BYTES 0).take SHA256_BYTES

def sampleOffer : FileOffer := ⟨replicate 16 7, "f", 2, "", paddedBytes [1, 2]⟩

def sampleChallenge (byte : UInt8) : List UInt8 := replicate CHALLENGE_LENGTH byte

def acceptedRun : List (Action Nat) :=
  [.connect ⟨0, "desk", .pliwee, true⟩, .attachControl, .control (.offer sampleOffer true),
    .respond sampleOffer.transferId true, .task 0 .go, .task 0 (.outcome true),
    .task 0 (.outcome true), .task 0 .go, .task 0 .go, .task 0 (.outcome true)]

def oneStreamRun : List (Action Nat) :=
  acceptedRun ++ [Action.control (.ready sampleOffer.transferId (sampleChallenge 1)), .handle,
    .task 1 .go, .task 1 .go, .task 1 .go, .task 1 (.outcome true), .task 1 (.outcome true),
    .task 1 .go, .task 1 (.chunk [1]), .task 1 .go, .task 1 (.chunk [2]), .task 1 .ended,
    .task 1 .go, .task 1 .go, .task 1 (.outcome true)]

theorem downloads_verified_one_stream :
    ∃ t, run (step paddedBytes some) {} oneStreamRun = some t ∧
      t.entries.map (fun e => (e.written, e.published)) = [([1, 2], true)] ∧ ∀ e ∈ t.entries,
      (∀ i ∈ e.writers, ∀ j ∈ e.writers, i = j) ∧
      (e.published → ∃ tr, t.transfers[e.transfer]? = some tr ∧ e.written.length = tr.sizeBytes ∧
      paddedBytes e.written = tr.sha256) :=
  ⟨_, rfl, by decide, downloads_verified paddedBytes some oneStreamRun rfl (by decide)⟩

/-- A second FILE_READY after the first stream took its challenge: both streams
write into the one entry, and the first one's digest still matches. -/
def twoStreamsRun : List (Action Nat) :=
  acceptedRun ++ [Action.control (.ready sampleOffer.transferId (sampleChallenge 1)), .handle,
    .task 1 .go, .task 1 .go, .task 1 .go,
    .control (.ready sampleOffer.transferId (sampleChallenge 2)), .handle,
    .task 2 .go, .task 2 .go, .task 2 .go, .task 1 (.outcome true), .task 1 (.outcome true),
    .task 2 (.outcome true), .task 2 (.outcome true), .task 1 .go, .task 1 (.chunk [1]),
    .task 2 .go, .task 2 (.chunk [9]), .task 1 .go, .task 1 (.chunk [2]), .task 1 .ended,
    .task 1 .go, .task 1 .go, .task 1 (.outcome true)]

theorem second_stream_published :
    (run (step paddedBytes some) {} twoStreamsRun).map
      (fun s => (s.entries.map (fun e => (e.written, e.writers, e.published)),
      s.transfers.map Transfer.sizeBytes)) = some ([([1, 9, 2], [1, 2, 1], true)], [2]) := by
  decide

end System

end OmniBridge.Files
