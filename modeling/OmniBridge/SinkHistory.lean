import OmniBridge.SinkCoalesce

/-! What the small machines of the sink have done after a whole history: the
snapshot bracket, the roles told to the peer, the work queue and the mirror table. -/

namespace OmniBridge.Sink

open List PeerRoles SortedMap Function

namespace Snapshot

inductive Input (Id : Type) where
  | marker (m : SyncMarker)
  | upsert (id : Id)
  | abandon

variable {Id : Type} [DecidableEq Id]

def feed (s : Snapshot Id) : Input Id → Snapshot Id × Option (SnapshotStep Id)
  | .marker m => ((s.marker m).1, some (s.marker m).2)
  | .upsert id => ((s.upsert id).1, some (s.upsert id).2)
  | .abandon => (abandon, none)

def fed (inputs : List (Input Id)) : Snapshot Id := inputs.foldl (fun s i => (feed s i).1) none

def Input.Inside (syncId : List UInt8) : Input Id → Prop
  | .marker m => m.phase ≠ .phaseBegin ∧ m ≠ ⟨syncId, .phaseEnd⟩
  | .upsert _ => True
  | .abandon => False

def Pending (inputs : List (Input Id)) (o : OpenSnapshot Id) : Prop :=
  ∃ before inside, inputs = before ++ .marker ⟨o.syncId, .phaseBegin⟩ :: inside ∧
    (∀ i ∈ inside, i.Inside o.syncId) ∧ ∀ id, id ∈ o.named ↔ .upsert id ∈ inside

variable {inputs inside : List (Input Id)} {i : Input Id} {o : OpenSnapshot Id} {named : Finset Id}

omit [DecidableEq Id] in
theorem marker_open {s : Snapshot Id} {m} (hbegin : m.phase ≠ .phaseBegin) :
    (s.marker m).1 = some o ↔ s = some o ∧ m ≠ ⟨o.syncId, .phaseEnd⟩ := by
  obtain ⟨syncId, phase⟩ := m
  cases phase with
  | phaseBegin => exact absurd rfl hbegin
  | phaseUnspecified => simp [marker]
  | phaseEnd =>
    cases s with
    | none => simp [marker]
    | some held =>
      by_cases h : held.syncId = syncId
      · suffices held = o → syncId = o.syncId by simpa [marker, h] using this
        rintro rfl
        exact h.symm
      · suffices held = o → syncId ≠ o.syncId by simpa [marker, h] using this
        rintro rfl
        exact Ne.symm h

omit [DecidableEq Id] in
theorem Pending.concat (h : Pending inputs o) (hi : i.Inside o.syncId)
    (hnam : ∀ id, id ∈ named ↔ id ∈ o.named ∨ i = .upsert id) :
    Pending (inputs ++ [i]) ⟨o.syncId, named⟩ := by
  obtain ⟨before, inside, rfl, hins, hheld⟩ := h
  refine ⟨before, inside ++ [i], by simp, ?_, ?_⟩
  · simpa [or_imp, forall_and] using ⟨hins, hi⟩
  · intro id
    rw [hnam id, hheld id, mem_append, mem_singleton, @eq_comm _ i]

theorem pending_of_fed (h : fed inputs = some o) : Pending inputs o := by
  induction inputs using reverseRecOn generalizing o with
  | nil => cases h
  | append_singleton inputs i ih =>
    rw [fed, foldl_append] at h
    change (feed (fed inputs) i).1 = some o at h
    cases i with
    | abandon => cases h
    | upsert id =>
      cases hs : fed inputs with
      | none => simp [feed, upsert, hs] at h
      | some held =>
        obtain rfl : { held with named := insert id held.named } = o :=
          by simpa [feed, upsert, hs] using h
        exact (ih hs).concat trivial (fun _ => by simp [or_comm, eq_comm])
    | marker m =>
      by_cases hbegin : m.phase = .phaseBegin
      · obtain rfl : ⟨m.syncId, ∅⟩ = o := by simpa [feed, marker, hbegin] using h
        exact ⟨inputs, [], by rw [← hbegin], by simp, by simp⟩
      · obtain ⟨hs, hend⟩ := (marker_open hbegin).mp h
        exact (ih hs).concat ⟨hbegin, hend⟩ (by simp)

theorem foldl_inside (hins : ∀ i ∈ inside, i.Inside o.syncId) :
    ∃ named, inside.foldl (fun s i => (feed s i).1) (some o) = some ⟨o.syncId, named⟩ ∧
      ∀ id, id ∈ named ↔ id ∈ o.named ∨ .upsert id ∈ inside := by
  induction inside generalizing o with
  | nil => exact ⟨o.named, rfl, by simp⟩
  | cons i inside ih =>
    have hi := hins i mem_cons_self
    have hrest : ∀ j ∈ inside, j.Inside o.syncId := fun j hj => hins j (mem_cons_of_mem i hj)
    cases i with
    | abandon => exact hi.elim
    | upsert id =>
      obtain ⟨named, hfed, hnam⟩ := @ih { o with named := insert id o.named } hrest
      refine ⟨named, hfed, fun id' => ?_⟩
      simp [hnam, or_assoc, or_left_comm]
    | marker m =>
      obtain ⟨named, hfed, hnam⟩ := ih hrest
      refine ⟨named, ?_, by simpa using hnam⟩
      rw [foldl_cons, ← hfed]
      congr 1
      exact (marker_open hi.1).mpr ⟨rfl, hi.2⟩

/-- A sync completes at the end marker of the last begin, and names what was upserted in between. -/
theorem complete_iff_last_bracket (inputs : List (Input Id)) (i : Input Id) (named : Finset Id) :
    (feed (fed inputs) i).2 = some (.complete named) ↔ ∃ syncId before inside,
      i = .marker ⟨syncId, .phaseEnd⟩ ∧ inputs = before ++ .marker ⟨syncId, .phaseBegin⟩ :: inside ∧
      (∀ j ∈ inside, j.Inside syncId) ∧ ∀ id, id ∈ named ↔ .upsert id ∈ inside := by
  constructor
  · intro h
    cases i with
    | abandon => cases h
    | upsert id => cases hs : fed inputs <;> simp [feed, upsert, hs] at h
    | marker m =>
      obtain ⟨hend, hopen⟩ := marker_complete (Option.some.inj h)
      obtain ⟨before, inside, hbrack⟩ := pending_of_fed hopen
      exact ⟨m.syncId, before, inside, by rw [← hend], hbrack⟩
  · rintro ⟨syncId, before, inside, rfl, rfl, hins, hnam⟩
    obtain ⟨held, hfed, hheld⟩ := @foldl_inside _ _ inside ⟨syncId, ∅⟩ hins
    obtain rfl : held = named := by
      ext id
      simp [hheld, hnam]
    have hopen : fed (before ++ .marker ⟨syncId, .phaseBegin⟩ :: inside) = some ⟨syncId, held⟩ := by
      rw [fed, foldl_append]
      exact hfed
    simp [feed, marker, hopen]

end Snapshot

/-! The roles of one connection: each change at this end, and what the peer makes
of the announcement it causes. -/

namespace PeerRoles

def receive (r : PeerRoles) (announcement : NotificationRoles) : PeerRoles :=
  match r.apply announcement with
  | .ok next => next
  | .error _ => r

variable {r : PeerRoles} {a b : NotificationRoles} {received : List NotificationRoles}

theorem receive_of_le (h : a.epoch ≤ r.epoch) : r.receive a = r := by
  unfold receive apply
  by_cases hz : a.epoch = 0 <;> simp [hz, h]

theorem epoch_le_receive : r.epoch ≤ (r.receive b).epoch ∧ b.epoch ≤ (r.receive b).epoch := by
  by_cases h : b.epoch ≤ r.epoch
  · rw [receive_of_le h]
    exact ⟨le_rfl, h⟩
  · have hz : b.epoch ≠ 0 := by omega
    simp only [receive, apply, hz, h, if_false]
    omega

theorem epoch_le_received (h : a.epoch ≤ r.epoch ∨ a ∈ received) :
    a.epoch ≤ (received.foldl receive r).epoch := by
  induction received generalizing r with
  | nil => simpa using h
  | cons b received ih =>
    refine ih ?_
    rw [mem_cons, ← or_assoc] at h
    exact h.imp_left (fun h => h.elim (·.trans epoch_le_receive.1)
      (by rintro rfl; exact epoch_le_receive.2))

end PeerRoles

namespace LocalRoles

/-- A change at this end, and the peer's view once its announcement arrived. -/
def exchange (ends : LocalRoles × PeerRoles) (change : Bool × Bool) : LocalRoles × PeerRoles :=
  ((ends.1.announce change.1 change.2).1,
    (ends.1.announce change.1 change.2).2.elim ends.2 ends.2.receive)

variable (changes : List (Bool × Bool))

def exchanged : LocalRoles × PeerRoles :=
  changes.foldl exchange (reset, {})

theorem exchanged_concat (change : Bool × Bool) :
    exchanged (changes ++ [change]) = exchange (exchanged changes) change := by
  simp [exchanged]

theorem apply_desired (serverAvailable dismissReporting : Bool) {r : PeerRoles} {epoch}
    (h : r.epoch < epoch) :
    r.apply ⟨wire (desired serverAvailable dismissReporting), epoch⟩ =
      .ok ⟨desired serverAvailable dismissReporting, epoch⟩ := by
  have hwire : ∀ available reporting, ((wire (desired available reporting)).filterMap
      Role.fromWire).toFinset = desired available reporting := by decide
  rw [apply, if_neg (Nat.ne_zero_of_lt h), if_neg (Nat.not_le_of_lt h), hwire]

theorem epochs_agree :
    (exchanged changes).2.epoch = (exchanged changes).1.epoch ∧
      (exchanged changes).1.epoch ≤ u32Max := by
  induction changes using reverseRecOn with
  | nil => exact ⟨rfl, Nat.zero_le _⟩
  | append_singleton changes change ih =>
    rw [exchanged_concat]
    generalize exchanged changes = ends at ih
    unfold exchange
    by_cases h : ends.1.announced = some (desired change.1 change.2)
    · rw [announce_of_same h]
      exact ih
    rw [announce_of_changed h]
    refine ⟨?_, Nat.min_le_right _ _⟩
    change (ends.2.receive _).epoch = bump u32Max ends.1.epoch
    by_cases hlt : ends.1.epoch < u32Max
    · have hb : ends.2.epoch < bump u32Max ends.1.epoch := by unfold bump; omega
      rw [receive, apply_desired _ _ hb]
    · have hb : bump u32Max ends.1.epoch = ends.1.epoch := by unfold bump; omega
      rw [hb, receive_of_le ih.1.ge, ih.1]

/-- An announcement is taken unless the epochs have run out; an old epoch changes nothing. -/
theorem announcement_accepted_iff (serverAvailable dismissReporting : Bool) :
    (∀ a, ((exchanged changes).1.announce serverAvailable dismissReporting).2 = some a →
      ((∃ r, (exchanged changes).2.apply a = .ok r ∧ some r.roles =
        ((exchanged changes).1.announce serverAvailable dismissReporting).1.announced) ↔
      (exchanged changes).1.epoch < u32Max)) ∧
    ∀ (received : List NotificationRoles) a,
      a.epoch = 0 ∨ a.epoch ≤ (received.foldl receive {}).epoch ∨ a ∈ received →
      (received.foldl receive {}).receive a = received.foldl receive {} := by
  constructor
  · intro a ha
    obtain ⟨hpeer, hle⟩ := epochs_agree changes
    generalize exchanged changes = ends at *
    have hne : ends.1.announced ≠ some (desired serverAvailable dismissReporting) := by
      intro h
      rw [announce_of_same h] at ha
      cases ha
    rw [announce_of_changed hne] at ha ⊢
    obtain rfl := Option.some.inj ha
    constructor
    · rintro ⟨r, hr, -⟩
      by_contra hlt
      have hb : bump u32Max ends.1.epoch ≤ ends.2.epoch := by unfold bump; omega
      simp only [apply, hb, if_true] at hr
      split at hr <;> cases hr
    · intro hlt
      have hb : ends.2.epoch < bump u32Max ends.1.epoch := by unfold bump; omega
      exact ⟨_, apply_desired _ _ hb, rfl⟩
  · rintro received a (h | h | h)
    · exact receive_of_le (h.trans_le (Nat.zero_le _))
    · exact receive_of_le h
    · exact receive_of_le (epoch_le_received (.inr h))

/-- The server coming and going, `n` changes in all. -/
def alternating : Nat → List (Bool × Bool)
  | 0 => []
  | n + 1 => alternating n ++ [(decide (n % 2 = 0), false)]

theorem exchanged_alternating {n} (h : n ≤ u32Max) :
    (exchanged (alternating n)).1.epoch = n ∧ (exchanged (alternating n)).1.announced ≠
      some (desired (n % 2 = 0) false) := by
  induction n with
  | zero => exact ⟨rfl, nofun⟩
  | succ n ih =>
    obtain ⟨hepoch, hne⟩ := ih (Nat.le_of_succ_le h)
    rw [alternating, exchanged_concat, exchange, announce_of_changed hne, hepoch]
    refine ⟨Nat.min_eq_left h, ?_⟩
    rcases Nat.mod_two_eq_zero_or_one n with hn | hn <;>
      · have hn' : (n + 1) % 2 = 1 - n % 2 := by omega
        simp only [hn, hn']
        decide

theorem last_epoch_refused :
    ((exchanged (alternating u32Max)).1.announce false false).2 = some ⟨[], u32Max⟩ ∧
      (exchanged (alternating u32Max)).2.apply ⟨[], u32Max⟩ = .error
      (.staleEpoch u32Max u32Max) := by
  obtain ⟨hepoch, hne⟩ := exchanged_alternating le_rfl
  obtain ⟨hpeer, -⟩ := epochs_agree (alternating u32Max)
  have hodd : decide (u32Max % 2 = 0) = false := by decide
  rw [hodd] at hne
  rw [announce_of_changed hne, apply, hpeer, hepoch]
  exact ⟨rfl, rfl⟩

end LocalRoles

section Queue

variable {Id α : Type} [DecidableEq Id] {id : Id} {earlier : List (Item Id α)} {item : Item Id α}

theorem scanBack_of_terminal (h : ∀ x ∈ earlier, x.work.isTerminal) :
    scanBack id earlier = none := by
  induction earlier with
  | nil => rfl
  | cons x earlier ih =>
    obtain ⟨hx, h⟩ := forall_mem_cons.mp h
    have hup : x.work.upserts id = false := by cases hw : x.work <;> simp_all [Work.isTerminal,
      Work.upserts]
    simp [scanBack, hup, ih h]

namespace WorkQueue

variable {q : WorkQueue Id α}

theorem tidy_push (h : Tidy (q.items ++ [item])) : Tidy (q.push item).1.items := by
  rcases q.push_cases item with ⟨-, hp⟩ | ⟨-, front, old, back, hspl, hfront, -, hp⟩ | ⟨-, hp⟩
  · rwa [hp]
  · -- what is evicted stands behind terminal items only, so no upsert loses its barrier
    have hback : TidyBack ((item :: back.reverse) ++ old :: front.reverse) :=
      by simpa [Tidy, hspl] using h
    simpa [Tidy, hp] using hback.erase (fun _ _ => scanBack_of_terminal (by simpa using hfront))
  · have hback : TidyBack ([item] ++ q.items.reverse) := by simpa [Tidy] using h
    rw [hp]
    exact hback.2

theorem tidy_offer (h : Tidy q.items) (item : Item Id α) : Tidy (q.offer item).1.items := by
  have hco := h.coalesce item
  rw [offer_items]
  split at hco
  · rwa [if_pos ‹_›, ← append_nil (Sink.coalesce _ _).1]
  · rw [if_neg ‹_›]
    exact tidy_push hco

/-- What an offer of `item` leaves of the pending items and adds to them. -/
structure Leaves (items : List (Item Id α)) (item : Item Id α) (r : WorkQueue Id α × Offered) :
    Prop where
  terminal : ∀ y ∈ items, y.work.isTerminal → y ∈ r.1.items
  accepted : item.work.isTerminal → r.2 ≠ .dropped → item ∈ r.1.items
  ordered : ∀ l : List (Item Id α), l.Sublist r.1.items → (r.2 = .coalesced → item ∉ l) →
    l.Sublist (items ++ [item])
  bounded : items.length ≤ MAX_QUEUED_WORK → r.1.items.length ≤ MAX_QUEUED_WORK

omit [DecidableEq Id] in
theorem leaves_push (q : WorkQueue Id α) (item) : Leaves q.items item (q.push item) := by
  refine ⟨?_, ?_, fun l hl _ => hl.trans (q.push_sublist item), ?_⟩
  all_goals rcases q.push_cases item with ⟨hlt, hp⟩ | ⟨-, front, old, back, hspl, -, hold, hp⟩ |
    ⟨hdrop, hp⟩
  · exact fun y hy _ => hp ▸ mem_append_left _ hy
  · intro y hy hterm
    have hne : y ≠ old := by
      rintro rfl
      simp [hterm] at hold
    simp only [hspl, hp, mem_append, mem_cons] at hy ⊢
    tauto
  · exact fun y hy _ => hp ▸ hy
  · simp [hp]
  · simp [hp]
  · exact fun _ h => absurd hdrop h
  · simp only [hp, length_append, length_singleton]
    exact fun _ => hlt
  · simp only [hspl, hp, length_append, length_cons, length_nil]
    omega
  · exact fun h => hp ▸ h

theorem leaves_offer (q : WorkQueue Id α) (item) : Leaves q.items item (q.offer item) := by
  have hcase := coalesce_cases q.items item
  have hterm : ∀ {front old back} {id : Id}, q.items = front ++ old :: back →
      old.work.upserts id → ∀ y ∈ q.items, y.work.isTerminal → y ∈ front ∨ y ∈ back := by
    intro front old back id hspl hold y hy hterm
    obtain ⟨_, hw, -⟩ := Work.upserts_iff.mp hold
    have hne : y ≠ old := by
      rintro rfl
      simp [hw, Work.isTerminal] at hterm
    simp only [hspl, mem_append, mem_cons] at hy
    tauto
  unfold offer
  generalize Sink.coalesce q.items item = r at hcase ⊢
  cases hcase with
  | replaced incoming front old back hwork hspl hold =>
    refine ⟨fun y hy hy' => ?_,
      by simp [hwork, Work.isTerminal], fun l hl hitem => ?_, by simp [hspl]⟩
    · have := hterm hspl hold y hy hy'
      simp only [if_true, mem_append, mem_cons]
      tauto
    · obtain ⟨l₁, l₂, rfl, h₁, h₂⟩ := sublist_append_iff.mp hl
      rcases sublist_cons_iff.mp h₂ with h₂ | ⟨l₂, rfl, -⟩
      · rw [hspl]
        exact (h₁.append (h₂.cons old)).trans (sublist_append_left _ _)
      · simp at hitem
  | superseded id front old back _ hspl hold =>
    have hpush := leaves_push { q with items := front ++ back } item
    have hsub : (front ++ back).Sublist q.items := hspl ▸ (sublist_cons_self _ _).append_left _
    refine ⟨fun y hy hy' => hpush.terminal y ?_ hy', hpush.accepted, fun l hl hitem => ?_, ?_⟩
    · simpa using hterm hspl hold y hy hy'
    · exact (hpush.ordered l hl hitem).trans (hsub.append_right _)
    · exact fun h => hpush.bounded (hsub.length_le.trans h)
  | announced hwork =>
    exact ⟨fun y hy _ => hy, by simp [hwork, Work.isTerminal],
      fun l hl _ => hl.trans (sublist_append_left _ _), fun h => h⟩
  | kept => exact leaves_push q item

end WorkQueue

/-- The queue from its start, each offer with what came of it, and what was drained.
The mark of an item is the number of its offer. -/
structure QueueRun (Id : Type) where
  queue : WorkQueue Id Nat := {}
  offers : List (Item Id Nat × Offered) := []
  drained : List (Item Id Nat) := []

namespace QueueRun

inductive Call (Id : Type) where
  | offer (work : Work Id)
  | drain

def step (s : QueueRun Id) : Call Id → QueueRun Id
  | .offer work =>
    let offered := s.queue.offer ⟨work, s.offers.length⟩
    { s with queue := offered.1, offers := s.offers ++ [(⟨work, s.offers.length⟩, offered.2)] }
  | .drain => { s with queue := s.queue.drain.2, drained := s.drained ++ s.queue.drain.1 }

structure Kept (s : QueueRun Id) : Prop where
  bounded : s.queue.items.length ≤ MAX_QUEUED_WORK
  tidy : Tidy s.queue.items
  terminal : ∀ o ∈ s.offers, o.1.work.isTerminal → o.2 ≠ .dropped → o.1 ∈ s.drained ++ s.queue.items
  numbered : ∀ x ∈ s.drained ++ s.queue.items, x.mark < s.offers.length
  ordered : ∀ l : List (Item Id Nat), l.Sublist (s.drained ++ s.queue.items) →
    (∀ x ∈ l, (x, .coalesced) ∉ s.offers) → l.Pairwise (fun x y => x.mark < y.mark)

variable {s : QueueRun Id}

theorem step_kept (h : s.Kept) (c : Call Id) : (s.step c).Kept := by
  cases c with
  | drain =>
    refine ⟨Nat.zero_le _, trivial, ?_, ?_, ?_⟩ <;> simp only [step, WorkQueue.drain, append_nil]
    · exact h.terminal
    · exact h.numbered
    · exact h.ordered
  | offer work =>
    have hleaves := s.queue.leaves_offer ⟨work, s.offers.length⟩
    have htidy := WorkQueue.tidy_offer h.tidy ⟨work, s.offers.length⟩
    have hmem := fun x => @WorkQueue.mem_offer Id Nat _ ⟨work, s.offers.length⟩ x s.queue
    simp only [step]
    generalize s.queue.offer ⟨work, s.offers.length⟩ = r at hleaves htidy hmem ⊢
    refine ⟨hleaves.bounded h.bounded, htidy, ?_, ?_, ?_⟩
    · simp only [mem_append, mem_singleton]
      rintro o (ho | rfl) hterm hkept
      · exact (mem_append.mp (h.terminal o ho hterm hkept)).imp_right (fun hin =>
          hleaves.terminal _ hin hterm)
      · exact .inr (hleaves.accepted hterm hkept)
    · intro x hx
      rw [length_append, length_singleton, Nat.lt_succ_iff]
      rcases mem_append.mp hx with hx | hx
      · exact (h.numbered x (mem_append_left _ hx)).le
      · rcases hmem x hx with rfl | hx
        · exact le_rfl
        · exact (h.numbered x (mem_append_right _ hx)).le
    · intro l hl hsett
      obtain ⟨l₁, l₂, rfl, h₁, h₂⟩ := sublist_append_iff.mp hl
      have hnew := hleaves.ordered l₂ h₂ (fun hr hin => hsett _ (mem_append_right _ hin)
        (by simp [hr]))
      have hall := h₁.append hnew
      rw [← append_assoc] at hall
      obtain ⟨m₁, m₂, hl, h₁, h₂⟩ := sublist_append_iff.mp hall
      rw [hl] at hsett ⊢
      rw [pairwise_append]
      refine ⟨h.ordered m₁ h₁ (fun x hx hin => ?_), ?_, fun x hx y hy => ?_⟩
      · exact hsett x (mem_append_left _ hx) (mem_append_left _ hin)
      · rcases sublist_singleton.mp h₂ with rfl | rfl <;> simp
      · obtain rfl := mem_singleton.mp (h₂.subset hy)
        exact h.numbered x (h₁.subset hx)

/-- The queue is bounded, has no second item of an id behind its upsert before the next barrier,
loses no terminal work it took, and drains in the order of the offers. -/
theorem queue_bounded_and_shaped (calls : List (Call Id)) :
    (calls.foldl step {}).queue.items.length ≤ MAX_QUEUED_WORK ∧
    (∀ front x between y back id,
      (calls.foldl step {}).queue.items = front ++ x :: (between ++ y :: back) →
      (∀ z ∈ between, z.work.isBarrier = false) → x.work.upserts id →
      y.work.upserts id = false ∧ y.work ≠ .remove id) ∧
    (∀ o ∈ (calls.foldl step {}).offers, o.1.work.isTerminal → o.2 ≠ .dropped →
      o.1 ∈ ((calls.foldl step {}).step .drain).drained) ∧
    ((calls.foldl step {}).drained.filter (fun x =>
      (x, .coalesced) ∉ (calls.foldl step {}).offers)).Pairwise (fun x y => x.mark < y.mark) := by
  have hkept : (calls.foldl step {}).Kept := by
    induction calls using reverseRecOn with
    | nil => exact ⟨Nat.zero_le _, trivial, nofun, nofun, by simp⟩
    | append_singleton calls c ih =>
      rw [foldl_append]
      exact step_kept ih c
  refine ⟨hkept.bounded, ?_, hkept.terminal, hkept.ordered _ ?_ (by simp)⟩
  · intro front x between y back id hitems hbetw hx
    have hback : TidyBack (back.reverse ++ (y :: (between.reverse ++ x :: front.reverse))) := by
      simpa [Tidy, hitems] using hkept.tidy
    have habout : y.work.about ≠ some id := fun habout =>
      scanBack_isSome (by simpa using hbetw) (Work.upserts_not_barrier hx) hx
        (hback.tail.1 id habout)
    refine ⟨Bool.eq_false_iff.mpr (fun hy => habout (Work.about_of_upserts hy).1), fun hy => ?_⟩
    rw [hy] at habout
    exact habout rfl
  · exact filter_sublist.trans (sublist_append_left _ _)

end QueueRun

end Queue

namespace MirrorTable

variable {Id : Type} [LinearOrder Id]

/-- The sequence number of an entry to insert is not read. -/
def put (t : MirrorTable Id) (id : Id) (e : MirrorEntry) :
    MirrorTable Id × Option (Id × MirrorEntry) :=
  t.insert id e.serverId e.contentHash e.appName e.urgency e.reduced e.originDeviceId

inductive Call (Id : Type) where
  | insert (id : Id) (e : MirrorEntry)
  | remove (id : Id)
  | forget (serverId : ServerId)
  | invalidate
  | drain

/-- The table, and which of the inserts was the last one for an identity. -/
structure History (Id : Type) [LinearOrder Id] where
  table : MirrorTable Id := {}
  inserts : Nat := 0
  inserted : Id → Nat := fun _ => 0

def History.step (s : History Id) : Call Id → History Id
  | .insert id e => ⟨(s.table.put id e).1, s.inserts + 1, update s.inserted id s.inserts⟩
  | .remove id => { s with table := (s.table.remove id).1 }
  | .forget serverId => { s with table := (s.table.forgetServerId serverId).1 }
  | .invalidate => { s with table := s.table.invalidateServerIds }
  | .drain => { s with table := s.table.drain.1 }

def History.after (calls : List (Call Id)) : History Id := calls.foldl step {}

theorem size_insert (m : SortedMap Id MirrorEntry) (id : Id) (e : MirrorEntry) :
    (m.insert id e).size = (m.erase id).size + 1 :=
  (perm_insert id m e).length_eq

theorem size_erase (m : SortedMap Id MirrorEntry) (id : Id) :
    m.size = (m.get id).toList.length + (m.erase id).size := by
  simpa [size] using (perm_erase id m).length_eq

structure Stamped (s : History Id) : Prop where
  size : s.table.entries.size ≤ MAX_MIRRORS_PER_PEER
  next : s.table.nextSeq = min s.inserts u64Max
  stamp : ∀ id e, s.table.get id = some e → e.seq = min (s.inserted id) u64Max ∧
    s.inserted id < s.inserts

variable {s : History Id}

theorem Stamped.shrink (h : Stamped s) {t : MirrorTable Id}
    (hsize : t.entries.size ≤ s.table.entries.size) (hnext : t.nextSeq = s.table.nextSeq)
    (hget : ∀ id e, t.get id = some e → ∃ old, s.table.get id = some old ∧ e.seq = old.seq) :
    Stamped { s with table := t } := by
  refine ⟨hsize.trans h.size, hnext.trans h.next, fun id e he => ?_⟩
  obtain ⟨old, hold, hseq⟩ := hget id e he
  rw [hseq]
  exact h.stamp id old hold

theorem Stamped.remove (h : Stamped s) (id : Id) :
    Stamped { s with table := (s.table.remove id).1 } :=
  h.shrink filter_sublist.length_le rfl (fun _ e he => ⟨e, (get_remove_eq_some he).1, rfl⟩)

theorem Stamped.record (h : Stamped s) {id : Id} (e : MirrorEntry) (evicted : Nat)
    (hroom : (∃ old, s.table.get id = some old) ∨ s.table.entries.size < MAX_MIRRORS_PER_PEER) :
    Stamped ⟨⟨s.table.entries.insert id { e with seq := s.table.nextSeq },
      bump u64Max s.table.nextSeq, evicted⟩, s.inserts + 1, update s.inserted id s.inserts⟩ := by
  refine ⟨?_, ?_, fun other e' he' => ?_⟩
  · have hsize := size_erase s.table.entries id
    have hle := h.size
    rw [size_insert]
    rcases hroom with ⟨old, hget⟩ | hlt
    · rw [show s.table.entries.get id = some old from hget, Option.toList_some,
        length_singleton] at hsize
      omega
    · omega
  · change bump u64Max s.table.nextSeq = min (s.inserts + 1) u64Max
    rw [h.next, bump]
    omega
  · change (s.table.entries.insert id _).get other = some e' at he'
    by_cases hne : other = id
    · subst hne
      rw [get_insert_self] at he'
      cases he'
      simpa using h.next
    rw [get_insert_of_ne hne] at he'
    obtain ⟨hseq, hlt⟩ := h.stamp other e' he'
    simp only [update_of_ne hne]
    exact ⟨hseq, hlt.trans (Nat.lt_succ_self _)⟩

theorem step_stamped (h : Stamped s) (c : Call Id) : Stamped (s.step c) := by
  cases c with
  | remove id => exact h.remove id
  | drain => exact h.shrink (Nat.zero_le _) rfl (by simp)
  | forget serverId =>
    rcases s.table.forgetServerId_cases serverId with ⟨hf, -⟩ | ⟨id, e, -, -, hf⟩
    · simpa only [History.step, hf] using h
    · simpa only [History.step, hf] using h.remove id
  | invalidate =>
    refine h.shrink (by simp [invalidateServerIds, size, mapWithKey]) rfl ?_
    intro id e he
    rw [get_invalidateServerIds] at he
    obtain ⟨old, hold, rfl⟩ := Option.map_eq_some_iff.mp he
    exact ⟨old, hold, rfl⟩
  | insert id e =>
    simp only [History.step, put]
    rcases insert_cases s.table id with ⟨hroom, hput⟩ | ⟨-, out, old, hout, -, hput⟩
    · rw [hput]
      exact h.record e _ hroom
    have hsize := size_erase s.table.entries out
    have hle := h.size
    rw [show s.table.entries.get out = some old from hout, Option.toList_some,
      length_singleton] at hsize
    have hlt : (s.table.entries.erase out).size < MAX_MIRRORS_PER_PEER := by omega
    rw [hput]
    exact (h.remove out).record e _ (.inr hlt)

def blank : MirrorEntry := ⟨none, [], "", .normal, false, "", 0⟩

def flooded (n : Nat) : History Nat :=
  ⟨⟨empty.insert 0 { blank with seq := n }, n + 1, 0⟩, n + 1, update (fun _ => 0) 0 n⟩

theorem after_replicate {n : Nat} (h : n < u64Max) :
    History.after (replicate (n + 1) (.insert 0 blank)) = flooded n := by
  induction n with
  | zero => rfl
  | succ n ih =>
    rw [replicate_succ', History.after, foldl_append, ← History.after, ih (Nat.lt_of_succ_lt h)]
    have hheld : (flooded n).table.get 0 = some { blank with seq := n } := get_insert_self _ _ _
    simp only [foldl_cons, foldl_nil, History.step, put]
    rcases insert_cases (flooded n).table 0 with ⟨-, hput⟩ | ⟨⟨hnew, -⟩, -⟩
    · rw [hput]
      simp only [flooded, insert_insert, bump, Nat.min_eq_left h, update_idem]
    · cases hheld.symm.trans hnew

end MirrorTable

end OmniBridge.Sink
