import OmniBridge.Run
import OmniBridge.Bounded
import OmniBridge.SinkMessages

/-! The bounded, coalescing queue between a session and the display work of one
peer. Every pending unit of work carries a mark that the queue never reads, so
that a statement can name one particular unit. -/

namespace OmniBridge.Sink

open List Option

def MAX_QUEUED_WORK : Nat := 256

inductive CloseAllReason where
  | revoked | graceExpired | roleNarrowed
deriving DecidableEq

structure Incoming (Id : Type) where
  id : Id
  message : NotificationUpsert
deriving DecidableEq

inductive Work (Id : Type) where
  | announceRoles
  | upsert (incoming : Incoming Id)
  | remove (id : Id)
  | dismiss (id : Id) (originDeviceId : String)
  | sync (marker : SyncMarker)
  | lockChanged (locked : Bool)
  | closeAll (reason : CloseAllReason)
deriving DecidableEq

namespace Work

variable {Id : Type}

def isTerminal : Work Id → Bool
  | .remove _ | .closeAll _ => true
  | _ => false

def isBarrier : Work Id → Bool
  | .sync _ | .closeAll _ | .lockChanged _ => true
  | _ => false

def isAnnouncement : Work Id → Bool
  | .announceRoles => true
  | _ => false

def upserts [DecidableEq Id] (id : Id) : Work Id → Bool
  | .upsert pending => pending.id = id
  | _ => false

theorem upserts_iff [DecidableEq Id] {id} {w : Work Id} :
    w.upserts id ↔ ∃ incoming, w = .upsert incoming ∧ incoming.id = id := by
  cases w <;> simp [upserts]

end Work

structure Item (Id α : Type) where
  work : Work Id
  mark : α
deriving DecidableEq

inductive Offered where
  | queued | coalesced | evicted | dropped
deriving DecidableEq

structure WorkQueue (Id α : Type) where
  items : List (Item Id α) := []
  coalesced : Nat := 0
  evicted : Nat := 0
  droppedTerminal : Nat := 0
  highWater : Nat := 0

namespace WorkQueue

variable {Id α : Type}

def push (q : WorkQueue Id α) (item : Item Id α) : WorkQueue Id α × Offered :=
  if MAX_QUEUED_WORK ≤ q.items.length then
    match q.items.findIdx? (fun pending => !pending.work.isTerminal) with
    | some index =>
      let items := q.items.eraseIdx index ++ [item]
      ({ q with
          items := items
          evicted := bump u64Max q.evicted
          highWater := max q.highWater items.length }, .evicted)
    | none => ({ q with droppedTerminal := bump u64Max q.droppedTerminal }, .dropped)
  else
    let items := q.items ++ [item]
    ({ q with items := items, highWater := max q.highWater items.length }, .queued)

variable {item : Item Id α} {q : WorkQueue Id α}

theorem push_items_of_lt (h : q.items.length < MAX_QUEUED_WORK) :
    (q.push item).1.items = q.items ++ [item] := by
  rw [push, if_neg (Nat.not_le.mpr h)]

theorem push_items_of_full {old front back} (h : MAX_QUEUED_WORK ≤ q.items.length)
    (hitems : q.items = front ++ old :: back) (hfront : ∀ x ∈ front, x.work.isTerminal)
    (hold : old.work.isTerminal = false) : (q.push item).1.items = front ++ back ++ [item] := by
  have hidx : q.items.findIdx? (fun pending => !pending.work.isTerminal) = some front.length := by
    rw [hitems, findIdx?_append, findIdx?_eq_none_iff.mpr (by simpa using hfront)]
    simp [findIdx?_cons, hold]
  rw [push, if_pos h, hidx, hitems]
  simp only [eraseIdx_append_of_length_le (Nat.le_refl _), Nat.sub_self, eraseIdx_zero, tail_cons]

theorem push_of_terminal (h : MAX_QUEUED_WORK ≤ q.items.length)
    (hall : ∀ x ∈ q.items, x.work.isTerminal) :
    (q.push item).2 = .dropped ∧ (q.push item).1.items = q.items := by
  have hidx : q.items.findIdx? (fun pending => !pending.work.isTerminal) = none :=
    findIdx?_eq_none_iff.mpr (by simpa using hall)
  rw [push, if_pos h, hidx]
  exact ⟨rfl, rfl⟩

theorem terminal_split (items : List (Item Id α)) :
    (∀ x ∈ items, x.work.isTerminal) ∨ ∃ front old back, items = front ++ old :: back ∧
      (∀ x ∈ front, x.work.isTerminal) ∧ old.work.isTerminal = false := by
  induction items with
  | nil => exact .inl (by simp)
  | cons x items ih =>
    by_cases hx : x.work.isTerminal
    · rcases ih with hall | ⟨front, old, back, rfl, hfront, hold⟩
      · exact .inl (by simpa [hx] using hall)
      · exact .inr ⟨x :: front, old, back, rfl, by simpa [hx] using hfront, hold⟩
    · exact .inr ⟨[], x, items, rfl, by simp, by simpa using hx⟩

def drain (q : WorkQueue Id α) : List (Item Id α) × WorkQueue Id α :=
  (q.items, { q with items := [] })

end WorkQueue

variable {Id α : Type} [DecidableEq Id]

/-- The scan of `upsert_slot` over the pending items, the last one first. The
answer counts from the back. -/
def scanBack (id : Id) : List (Item Id α) → Option Nat
  | [] => none
  | item :: earlier =>
    if item.work.isBarrier then none
    else if item.work.upserts id then some 0
    else (scanBack id earlier).map (· + 1)

def upsertSlot (id : Id) (items : List (Item Id α)) : Option Nat :=
  (scanBack id items.reverse).map (fun back => items.length - 1 - back)

/-- The first half of `offer`: what coalescing leaves pending, and whether the
offered item is settled by it. -/
def coalesce (items : List (Item Id α)) (item : Item Id α) : List (Item Id α) × Bool :=
  match item.work with
  | .upsert incoming =>
    match upsertSlot incoming.id items with
    | some slot => (items.set slot item, true)
    | none => (items, false)
  | .remove id =>
    match upsertSlot id items with
    | some slot => (items.eraseIdx slot, false)
    | none => (items, false)
  | .announceRoles => (items, items.any (·.work.isAnnouncement))
  | _ => (items, false)

/-- No barrier and no upsert of `id`: an upsert of `id` may move across these. -/
def Clear (id : Id) (items : List (Item Id α)) : Prop :=
  ∀ pending ∈ items, pending.work.isBarrier = false ∧ pending.work.upserts id = false

theorem scanBack_eq_some {id} {items : List (Item Id α)} {back}
    (h : scanBack id items = some back) :
    ∃ later pending earlier, items = later ++ pending :: earlier ∧ later.length = back ∧
      pending.work.upserts id ∧ Clear id later := by
  induction items generalizing back with
  | nil => cases h
  | cons item items ih =>
    simp only [scanBack] at h
    by_cases hbar : item.work.isBarrier
    · simp [hbar] at h
    by_cases hup : item.work.upserts id
    · obtain rfl : 0 = back := by simpa [hbar, hup] using h
      exact ⟨[], item, items, rfl, rfl, hup, by simp [Clear]⟩
    have hrest : (scanBack id items).map (· + 1) = some back := by simpa [hbar, hup] using h
    obtain ⟨n, hn, rfl⟩ := map_eq_some_iff.mp hrest
    obtain ⟨later, pending, earlier, rfl, rfl, hpend, hclear⟩ := ih hn
    refine ⟨item :: later, pending, earlier, rfl, rfl, hpend, ?_⟩
    intro x hx
    rcases mem_cons.mp hx with rfl | hx
    · exact ⟨by simpa using hbar, by simpa using hup⟩
    · exact hclear x hx

theorem upsertSlot_eq_some {id} {items : List (Item Id α)} {slot}
    (h : upsertSlot id items = some slot) :
    ∃ front pending back, items = front ++ pending :: back ∧ front.length = slot ∧
      pending.work.upserts id ∧ Clear id back := by
  obtain ⟨n, hn, _⟩ := map_eq_some_iff.mp h
  obtain ⟨later, pending, earlier, hitems, rfl, hpend, hclear⟩ := scanBack_eq_some hn
  have hspl : items = earlier.reverse ++ pending :: later.reverse := by
    have hrev := congrArg reverse hitems
    simpa using hrev
  refine ⟨earlier.reverse, pending, later.reverse, hspl, ?_, hpend, ?_⟩
  · have hlen := congrArg length hspl
    simp only [length_append, length_reverse, length_cons] at hlen ⊢
    omega
  · exact fun x hx => hclear x (mem_reverse.mp hx)

inductive Coalesces (items : List (Item Id α)) (item : Item Id α) : List (Item Id α) × Bool → Prop
  | replaced (incoming : Incoming Id) (front : List (Item Id α)) (old : Item Id α)
    (back : List (Item Id α)) : item.work = .upsert incoming → items = front ++ old :: back →
    old.work.upserts incoming.id → Clear incoming.id back →
    Coalesces items item (front ++ item :: back, true)
  | superseded (id : Id) (front : List (Item Id α)) (old : Item Id α) (back : List (Item Id α)) :
      item.work = .remove id → items = front ++ old :: back → old.work.upserts id →
      Clear id back → Coalesces items item (front ++ back, false)
  | announced : item.work = .announceRoles → items.any (·.work.isAnnouncement) →
      Coalesces items item (items, true)
  | kept : Coalesces items item (items, false)

theorem coalesce_cases (items : List (Item Id α)) (item) :
    Coalesces items item (coalesce items item) := by
  unfold coalesce
  split
  · rename_i incoming hwork
    split
    · rename_i slot hslot
      obtain ⟨front, pending, back, rfl, rfl, hpend, hclear⟩ := upsertSlot_eq_some hslot
      rw [set_append_right _ _ (Nat.le_refl _), Nat.sub_self, set_cons_zero]
      exact .replaced incoming front pending back hwork rfl hpend hclear
    · exact .kept
  · rename_i id hwork
    split
    · rename_i slot hslot
      obtain ⟨front, pending, back, rfl, rfl, hpend, hclear⟩ := upsertSlot_eq_some hslot
      rw [eraseIdx_append_of_length_le (Nat.le_refl _), Nat.sub_self, eraseIdx_zero, tail_cons]
      exact .superseded id front pending back hwork rfl hpend hclear
    · exact .kept
  · rename_i hwork
    cases hany : items.any (·.work.isAnnouncement) with
    | true => exact .announced hwork hany
    | false => exact .kept
  · exact .kept

namespace WorkQueue

section

variable (q : WorkQueue Id α)

def offer (item : Item Id α) : WorkQueue Id α × Offered :=
  if (coalesce q.items item).2 then
    ({ q with items := (coalesce q.items item).1, coalesced := bump u64Max q.coalesced },
      .coalesced)
  else { q with items := (coalesce q.items item).1 }.push item

def offerAll (items : List (Item Id α)) : WorkQueue Id α :=
  items.foldl (fun q item => (q.offer item).1) q

def accept (item : Item Id α) : Option (WorkQueue Id α) := some (q.offer item).1

theorem offer_items (item) :
    (q.offer item).1.items = if (coalesce q.items item).2 then (coalesce q.items item).1
      else ({ q with items := (coalesce q.items item).1 }.push item).1.items := by
  unfold offer
  split <;> rfl

end

variable {item y : Item Id α} {q : WorkQueue Id α}

theorem mem_coalesce {items} (h : y ∈ (coalesce items item).1) : y = item ∨ y ∈ items := by
  have hcase := coalesce_cases items item
  generalize Sink.coalesce items item = r at hcase h
  cases hcase with
  | replaced _ _ _ _ _ hspl | superseded _ _ _ _ _ hspl =>
    simp only [hspl, mem_append, mem_cons] at h ⊢
    tauto
  | _ => exact .inr h

section

omit [DecidableEq Id]

theorem push_cases (q : WorkQueue Id α) (item) :
    (q.items.length < MAX_QUEUED_WORK ∧ (q.push item).1.items = q.items ++ [item]) ∨
      (MAX_QUEUED_WORK ≤ q.items.length ∧ ∃ front old back, q.items = front ++ old :: back ∧
      (∀ x ∈ front, x.work.isTerminal) ∧ old.work.isTerminal = false ∧
      (q.push item).1.items = front ++ back ++ [item]) ∨
      ((q.push item).2 = .dropped ∧ (q.push item).1.items = q.items) := by
  rcases Nat.lt_or_ge q.items.length MAX_QUEUED_WORK with hlt | hge
  · exact .inl ⟨hlt, push_items_of_lt hlt⟩
  · rcases terminal_split q.items with hall | ⟨front, old, back, hspl, hfront, hold⟩
    · exact .inr (.inr (push_of_terminal hge hall))
    · exact .inr (.inl ⟨hge, front, old, back, hspl, hfront, hold,
        push_items_of_full hge hspl hfront hold⟩)

theorem push_sublist (q : WorkQueue Id α) (item) :
    ((q.push item).1.items).Sublist (q.items ++ [item]) := by
  rcases q.push_cases item with ⟨-, hp⟩ | ⟨-, _, _, _, hspl, -, -, hp⟩ | ⟨-, hp⟩
  · rw [hp]
  · rw [hp, hspl]
    exact ((sublist_cons_self _ _).append_left _).append_right _
  · rw [hp]
    exact sublist_append_left _ _

theorem mem_push (h : y ∈ (q.push item).1.items) : y = item ∨ y ∈ q.items := by
  have hmem := (q.push_sublist item).subset h
  simpa [or_comm] using hmem

end

theorem mem_offer (h : y ∈ (q.offer item).1.items) : y = item ∨ y ∈ q.items := by
  rw [offer_items] at h
  split at h
  · exact mem_coalesce h
  · rcases mem_push h with rfl | h
    · exact .inl rfl
    · exact mem_coalesce h

theorem offer_filterMap_sublist {β : Type} (f : Item Id α → Option β)
    (hf : ∀ item incoming, item.work = .upsert incoming → f item = none)
    (q : WorkQueue Id α) (item) :
    ((q.offer item).1.items.filterMap f).Sublist (q.items.filterMap f ++ (f item).toList) := by
  have hpush : ∀ items : List (Item Id α), items.Sublist q.items →
      (({ q with items := items }.push item).1.items.filterMap f).Sublist
      (q.items.filterMap f ++ (f item).toList) := by
    intro items hitems
    have hp := (push_sublist { q with items := items } item).filterMap f
    have hone : [item].filterMap f = (f item).toList := by cases h : f item <;> simp [h]
    rw [filterMap_append, hone] at hp
    exact hp.trans ((hitems.filterMap f).append_right _)
  have hcase := coalesce_cases q.items item
  rw [offer_items]
  generalize Sink.coalesce q.items item = r at hcase ⊢
  cases hcase with
  | replaced incoming _ old _ hwork hspl hold =>
    obtain ⟨pending, hpending, -⟩ := Work.upserts_iff.mp hold
    rw [if_pos rfl, hspl]
    simp [filterMap_append, hf item incoming hwork, hf old pending hpending]
  | superseded _ _ _ _ _ hspl =>
    refine hpush _ ?_
    rw [hspl]
    exact (sublist_cons_self _ _).append_left _
  | announced => exact sublist_append_left _ _
  | kept => exact hpush _ (List.Sublist.refl _)

theorem length_coalesce_le (items : List (Item Id α)) (item) :
    (coalesce items item).1.length ≤ items.length := by
  have hcase := coalesce_cases items item
  generalize Sink.coalesce items item = r at hcase ⊢
  cases hcase with
  | replaced _ _ _ _ _ hspl | superseded _ _ _ _ _ hspl => simp [hspl]
  | _ => exact Nat.le_refl _

section

variable (h : q.items.length < MAX_QUEUED_WORK)
include h

theorem offer_items_of_lt (item : Item Id α) :
    (q.offer item).1.items = (coalesce q.items item).1 ++ if (coalesce q.items item).2 then []
      else [item] := by
  have hlen := length_coalesce_le q.items item
  rw [offer_items]
  split
  · rw [append_nil]
  · exact push_items_of_lt (Nat.lt_of_le_of_lt hlen h)

theorem mem_offer_of_lt (hy : y ∈ q.items) (hup : ∀ incoming, y.work ≠ .upsert incoming) :
    y ∈ (q.offer item).1.items := by
  have hne : ∀ {old : Item Id α} {id : Id}, old.work.upserts id → y ≠ old := by
    rintro _ _ hold rfl
    obtain ⟨incoming, hw, -⟩ := Work.upserts_iff.mp hold
    exact hup incoming hw
  rw [offer_items_of_lt h]
  refine mem_append_left _ ?_
  have hcase := coalesce_cases q.items item
  generalize Sink.coalesce q.items item = r at hcase ⊢
  cases hcase with
  | replaced _ _ _ _ _ hspl hold | superseded _ _ _ _ _ hspl hold =>
    simp only [hspl, mem_append, mem_cons] at hy ⊢
    tauto
  | _ => exact hy

theorem mem_offer_self_of_lt (hann : item.work ≠ .announceRoles)
    (hup : ∀ incoming, item.work ≠ .upsert incoming) : item ∈ (q.offer item).1.items := by
  rw [offer_items_of_lt h]
  refine mem_append_right _ ?_
  have hcase := coalesce_cases q.items item
  generalize Sink.coalesce q.items item = r at hcase ⊢
  cases hcase with
  | replaced incoming _ _ _ hw => exact absurd hw (hup incoming)
  | announced hw => exact absurd hw hann
  | _ => exact mem_singleton_self _

theorem offer_announceRoles_of_lt (mark : α) :
    ∃ y ∈ (q.offer ⟨.announceRoles, mark⟩).1.items, y.work = .announceRoles := by
  rw [offer_items_of_lt h]
  cases hany : q.items.any (·.work.isAnnouncement) with
  | true =>
    obtain ⟨y, hy, _⟩ := any_eq_true.mp hany
    refine ⟨y, by simpa [coalesce] using .inl hy, ?_⟩
    cases hw : y.work <;> simp_all [Work.isAnnouncement]
  | false => exact ⟨⟨.announceRoles, mark⟩, by simp [coalesce, hany], rfl⟩

end

section Kept

variable [DecidableEq α] {m : α}

def marked (m : α) (items : List (Item Id α)) : List (Item Id α) := items.filter (·.mark = m)

/-- An offer that finds the queue full spares the item marked `m` when something
that may be evicted stands ahead of it. -/
def Spares (m : α) (q : WorkQueue Id α) (item : Item Id α) : Prop :=
  (coalesce q.items item).2 = false → MAX_QUEUED_WORK ≤ (coalesce q.items item).1.length →
    ∃ x ∈ (coalesce q.items item).1.takeWhile (·.mark ≠ m), x.work.isTerminal = false

instance (q : WorkQueue Id α) (item : Item Id α) : Decidable (Spares m q item) :=
  inferInstanceAs (Decidable (_ → _ → _))

variable {item : Item Id α} {q : WorkQueue Id α} {items : List (Item Id α)}

theorem marked_coalesce (hm : item.mark ≠ m)
    (hup : ∀ x ∈ items, x.mark = m → ∀ id, x.work.upserts id = false) :
    marked m (coalesce items item).1 = marked m items := by
  have hcase := coalesce_cases items item
  generalize Sink.coalesce items item = r at hcase ⊢
  cases hcase with
  | replaced incoming _ old _ _ hspl hold =>
    have hne : old.mark ≠ m := fun he =>
      by simpa [hold] using hup old (by simp [hspl]) he incoming.id
    simp [marked, hspl, hne, hm]
  | superseded id _ old _ _ hspl hold =>
    have hne : old.mark ≠ m := fun he => by simpa [hold] using hup old (by simp [hspl]) he id
    simp [marked, hspl, hne]
  | _ => rfl

section

omit [DecidableEq Id]

theorem marked_push_of_lt (hm : item.mark ≠ m) (h : q.items.length < MAX_QUEUED_WORK) :
    marked m (q.push item).1.items = marked m q.items := by
  simp [push_items_of_lt h, marked, hm]

theorem marked_push_of_absent (hm : item.mark ≠ m) (h : marked m q.items = []) :
    marked m (q.push item).1.items = [] := by
  simp only [marked, filter_eq_nil_iff, decide_eq_true_eq] at h ⊢
  intro x hx
  rcases mem_push hx with rfl | hx
  · exact hm
  · exact h x hx

theorem marked_push_of_full (hm : item.mark ≠ m) (hge : MAX_QUEUED_WORK ≤ q.items.length)
    (h : marked m q.items = [⟨.lockChanged true, m⟩]) :
    marked m (q.push item).1.items = if ∃ x ∈ q.items.takeWhile (fun x : Item Id α => x.mark ≠ m),
      x.work.isTerminal = false then [⟨.lockChanged true, m⟩] else [] := by
  have honly : ∀ x ∈ q.items, x.mark = m → x = ⟨.lockChanged true, m⟩ := by
    intro x hx hxm
    have hmem : x ∈ marked m q.items := mem_filter.mpr ⟨hx, by simpa using hxm⟩
    simpa [h] using hmem
  rcases terminal_split q.items with hall | ⟨front, old, back, hspl, hfront, hold⟩
  · have hin : (⟨.lockChanged true, m⟩ : Item Id α) ∈ marked m q.items := by simp [h]
    exact absurd (hall _ (mem_filter.mp hin).1) (by simp [Work.isTerminal])
  have hfm : ∀ x ∈ front, x.mark ≠ m := by
    intro x hx hxm
    have hxL := honly x (by simp [hspl, hx]) hxm
    exact absurd (hfront x hx) (by simp [hxL, Work.isTerminal])
  have htake : q.items.takeWhile (·.mark ≠ m) = front ++ (old :: back).takeWhile (·.mark ≠ m) := by
    rw [hspl, takeWhile_append_of_pos (by simpa using hfm)]
  have hnone : front.filter (·.mark = m) = [] := by simpa using hfm
  rw [push_items_of_full hge hspl hfront hold, htake]
  by_cases hom : old.mark = m
  · have hback : back.filter (·.mark = m) = [] := by
      simpa [marked, hspl, hnone, hom] using congrArg tail h
    have hall : ¬ ∃ x ∈ front ++ (old :: back).takeWhile (·.mark ≠ m),
        x.work.isTerminal = false := by
      rintro ⟨x, hx, hxt⟩
      have hxf : x ∈ front := by simpa [hom] using hx
      simp [hfront x hxf] at hxt
    rw [if_neg hall]
    simp [marked, hnone, hback, hm]
  · have hex : ∃ x ∈ front ++ (old :: back).takeWhile (·.mark ≠ m), x.work.isTerminal = false :=
      ⟨old, by simp [hom], hold⟩
    rw [if_pos hex, ← h]
    simp [marked, hspl, hom, hm]

end

theorem marked_offer (hm : item.mark ≠ m) (h : marked m q.items = [⟨.lockChanged true, m⟩]) :
    marked m (q.offer item).1.items = if Spares m q item then [⟨.lockChanged true, m⟩] else [] := by
  have hup : ∀ x ∈ q.items, x.mark = m → ∀ id, x.work.upserts id = false := by
    intro x hx hxm _
    have hmem : x ∈ marked m q.items := mem_filter.mpr ⟨hx, by simpa using hxm⟩
    obtain rfl : x = ⟨.lockChanged true, m⟩ := by simpa [h] using hmem
    rfl
  have hco := marked_coalesce hm hup
  rw [h] at hco
  rw [offer_items]
  cases hset : (coalesce q.items item).2 with
  | true => rw [if_pos rfl, hco, if_pos (by simp [Spares, hset])]
  | false =>
    rw [if_neg (by simp)]
    rcases Nat.lt_or_ge (coalesce q.items item).1.length MAX_QUEUED_WORK with hlt | hge
    · rw [marked_push_of_lt hm hlt, hco, if_pos (by intro _ hge; omega)]
    · rw [marked_push_of_full hm hge hco]
      exact if_congr ⟨fun hex _ _ => hex, fun hsp => hsp hset hge⟩ rfl rfl

theorem marked_offer_of_absent (hm : item.mark ≠ m) (h : marked m q.items = []) :
    marked m (q.offer item).1.items = [] := by
  have hup : ∀ x ∈ q.items, x.mark = m → ∀ id, x.work.upserts id = false := by
    intro x hx hxm _
    have hmem : x ∈ marked m q.items := mem_filter.mpr ⟨hx, by simpa using hxm⟩
    simp [h] at hmem
  have hco := marked_coalesce hm hup
  rw [h] at hco
  rw [offer_items]
  split
  · exact hco
  · exact marked_push_of_absent hm hco

theorem marked_offerAll_of_absent (hm : ∀ x ∈ items, x.mark ≠ m) (h : marked m q.items = []) :
    marked m (q.offerAll items).items = [] := by
  induction items generalizing q with
  | nil => exact h
  | cons item _ ih =>
    exact ih (fun x hx => hm x (mem_cons_of_mem _ hx))
      (marked_offer_of_absent (hm item mem_cons_self) h)

theorem marked_offerAll_iff (hm : ∀ x ∈ items, x.mark ≠ m)
    (h : marked m q.items = [⟨.lockChanged true, m⟩]) :
    ⟨.lockChanged true, m⟩ ∈ (q.offerAll items).items ↔ Meets accept (Spares m) q items := by
  induction items generalizing q with
  | nil =>
    have hin : (⟨.lockChanged true, m⟩ : Item Id α) ∈ marked m q.items := by simp [h]
    exact iff_of_true (mem_filter.mp hin).1 trivial
  | cons item items ih =>
    have hrest : ∀ x ∈ items, x.mark ≠ m := fun x hx => hm x (mem_cons_of_mem _ hx)
    have hnext := marked_offer (hm item mem_cons_self) h
    by_cases hsp : Spares m q item
    · rw [if_pos hsp] at hnext
      exact (ih hrest hnext).trans (by simp [Meets, accept, hsp])
    rw [if_neg hsp] at hnext
    -- once evicted, nothing offered later carries the mark
    have hgone := marked_offerAll_of_absent hrest hnext
    refine iff_of_false (fun hin => ?_) (fun hmeets => hsp hmeets.1)
    have hmem : (⟨.lockChanged true, m⟩ : Item Id α) ∈ marked m
        ((q.offer item).1.offerAll items).items :=
      mem_filter.mpr ⟨hin, by simp⟩
    simp [hgone] at hmem

theorem marked_offer_lockChanged (hq : ∀ x ∈ q.items, x.mark ≠ m) :
    marked m (q.offer ⟨.lockChanged true, m⟩).1.items = if q.items.length < MAX_QUEUED_WORK ∨
      ∃ x ∈ q.items, x.work.isTerminal = false then [⟨.lockChanged true, m⟩] else [] := by
  have hnone : marked m q.items = [] := by simpa [marked] using hq
  have hoff : (q.offer ⟨.lockChanged true, m⟩).1.items =
      (q.push ⟨.lockChanged true, m⟩).1.items := rfl
  rw [hoff]
  rcases Nat.lt_or_ge q.items.length MAX_QUEUED_WORK with hlt | hge
  · rw [push_items_of_lt hlt, if_pos (.inl hlt)]
    simpa [marked] using hq
  rcases terminal_split q.items with hall | ⟨front, old, back, hspl, hfront, hold⟩
  · have hno : ¬ (q.items.length < MAX_QUEUED_WORK ∨ ∃ x ∈ q.items, x.work.isTerminal = false) := by
      rintro (_ | ⟨x, hx, hxt⟩)
      · omega
      · simp [hall x hx] at hxt
    rw [(push_of_terminal hge hall).2, if_neg hno, hnone]
  rw [push_items_of_full hge hspl hfront hold, if_pos (.inr ⟨old, by simp [hspl], hold⟩)]
  have hpre : front.filter (·.mark = m) = [] :=
    by simpa using fun x hx => hq x (by simp [hspl, hx])
  have hpost : back.filter (·.mark = m) = [] :=
    by simpa using fun x hx => hq x (by simp [hspl, hx])
  simp [marked, hpre, hpost]

/-- The next drain returns the lock change that was offered exactly when it found
room, and no later offer found the queue full with only terminal items ahead of it. -/
theorem lock_change_drained_iff (q : WorkQueue Id α) (m : α) (later : List (Item Id α))
    (hq : ∀ x ∈ q.items, x.mark ≠ m) (hlater : ∀ x ∈ later, x.mark ≠ m) :
    ⟨.lockChanged true, m⟩ ∈ ((q.offer ⟨.lockChanged true, m⟩).1.offerAll later).drain.1 ↔
      (q.items.length < MAX_QUEUED_WORK ∨ ∃ x ∈ q.items, x.work.isTerminal = false) ∧
      Meets accept (Spares m) (q.offer ⟨.lockChanged true, m⟩).1 later := by
  have hfirst := marked_offer_lockChanged hq
  by_cases hroom : q.items.length < MAX_QUEUED_WORK ∨ ∃ x ∈ q.items, x.work.isTerminal = false
  · rw [if_pos hroom] at hfirst
    exact (marked_offerAll_iff hlater hfirst).trans (by simp [hroom])
  rw [if_neg hroom] at hfirst
  have hgone := marked_offerAll_of_absent hlater hfirst
  refine iff_of_false (fun hin => ?_) (fun h => hroom h.1)
  have hmem : (⟨.lockChanged true, m⟩ : Item Id α) ∈
      marked m ((q.offer ⟨.lockChanged true, m⟩).1.offerAll later).items :=
    mem_filter.mpr ⟨hin, by simp⟩
  simp [hgone] at hmem

theorem lock_change_drained_after_few :
    (⟨.lockChanged true, true⟩ : Item Nat Bool) ∈
      ((({} : WorkQueue Nat Bool).offer ⟨.lockChanged true, true⟩).1.offerAll
      [⟨.upsert ⟨1, {}⟩, false⟩, ⟨.remove 1, false⟩, ⟨.sync ⟨[7], .phaseBegin⟩, false⟩]).drain.1 :=
  (lock_change_drained_iff {} true _ (by decide) (by decide)).mpr (by decide)

/-- A peer that sends 256 markers before the worker runs takes the lock change out. -/
theorem lock_change_evicted_by_flood :
    (⟨.lockChanged true, true⟩ : Item Nat Bool) ∉
      ((({} : WorkQueue Nat Bool).offer ⟨.lockChanged true, true⟩).1.offerAll
      (replicate 256 ⟨.sync ⟨[7], .phaseBegin⟩, false⟩)).drain.1 := by
  decide +kernel

end Kept

end WorkQueue

end OmniBridge.Sink
