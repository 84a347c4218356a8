import OmniBridge.SinkSlot
import OmniBridge.Slots
import OmniBridge.Rewrite

/-! The window of an open snapshot bracket, followed through a queue that rewrites what
is pending: since its BEGIN, every id that was upserted is seen before the END. -/

namespace OmniBridge.Sink

open List Option Work

section Window

variable {Id : Type}

def Work.about : Work Id → Option Id
  | .upsert incoming => some incoming.id
  | .remove id => some id
  | _ => none

def Work.marker : Work Id → Option SyncMarker
  | .sync marker => some marker
  | _ => none

def Work.opens : Work Id → Bool
  | .sync marker => marker.phase = .phaseBegin
  | _ => false

/-- The open bracket: where its BEGIN was received, and the ids seen since. -/
abbrev Window (Id : Type) := Option (Nat × Set Id)

namespace Window

def after (w : Window Id) (item : Item Id Nat) : Window Id :=
  if item.work.opens then some (item.mark, ∅)
    else w.map (fun p => (p.1, p.2 ∪ {id | item.work.about = some id}))

def afterAll (w : Window Id) (items : List (Item Id Nat)) : Window Id := items.foldl after w

def Covers (w w' : Window Id) : Prop := ∀ p' ∈ w', ∃ p ∈ w, p.1 = p'.1 ∧ p.2 ⊆ p'.2

variable {w : Window Id} {item : Item Id Nat}

theorem after_of_opens (h : item.work.opens) : w.after item = some (item.mark, ∅) := if_pos h

theorem after_of_not_opens (h : item.work.opens = false) :
    w.after item = w.map (fun p => (p.1, p.2 ∪ {id | item.work.about = some id})) :=
  if_neg (by simp [h])

theorem after_idem {a b} (ha : a.work.opens = false) (hb : b.work.opens = false)
    (hab : a.work.about = b.work.about) : (w.after a).after b = w.after b := by
  simp only [after_of_not_opens ha, after_of_not_opens hb, Option.map_map, Function.comp_def, hab,
    Set.union_assoc, Set.union_self]

theorem afterAll_append (w : Window Id) (front back : List (Item Id Nat)) :
    w.afterAll (front ++ back) = (w.afterAll front).afterAll back :=
  foldl_append

theorem afterAll_after {items} (h : item.work.opens = false)
    (hall : ∀ y ∈ items, y.work.opens = false) (w : Window Id) :
    (w.afterAll items).after item = (w.after item).afterAll items :=
  foldl_commutes (fun y hy _ => by
    simp only [after_of_not_opens h, after_of_not_opens (hall y hy), Option.map_map,
      Function.comp_def, Set.union_right_comm]) w

theorem Covers.refl (w : Window Id) : Covers w w := fun p hp => ⟨p, hp, rfl, subset_rfl⟩

theorem Covers.after {w'} (h : Covers w w') (item : Item Id Nat) :
    Covers (w.after item) (w'.after item) := by
  cases ho : item.work.opens with
  | true =>
    rw [after_of_opens ho, after_of_opens ho]
    exact .refl _
  | false =>
    rw [after_of_not_opens ho, after_of_not_opens ho]
    rintro _ hq'
    obtain ⟨p', hp', rfl⟩ := map_eq_some_iff.mp hq'
    obtain ⟨p, hp, hbegin, hsub⟩ := h p' hp'
    exact ⟨_, map_eq_some_iff.mpr ⟨p, hp, rfl⟩, hbegin, Set.union_subset_union_left _ hsub⟩

theorem Covers.afterAll {w'} (h : Covers w w') (items : List (Item Id Nat)) :
    Covers (w.afterAll items) (w'.afterAll items) :=
  foldl_respects (fun _ _ item h => h.after item) items h

theorem covers_after (w : Window Id) (h : item.work.opens = false) : Covers w (w.after item) := by
  rw [after_of_not_opens h]
  intro _ hq'
  obtain ⟨p, hp, rfl⟩ := map_eq_some_iff.mp hq'
  exact ⟨p, hp, rfl, Set.subset_union_left⟩

end Window

variable {received : List (Nat × Control Id)}

def Upserted (received : List (Nat × Control Id)) (first last : Nat) (id : Id) : Prop :=
  ∃ k i incoming, first < k ∧ k < last ∧ received[k]? = some (i, .upsert incoming) ∧
    incoming.id = id

def Caught (received : List (Nat × Control Id)) (w : Window Id) (last : Nat) : Prop :=
  ∀ p ∈ w, p.1 < last ∧ ∀ id, Upserted received p.1 last id → id ∈ p.2

/-- At every marker that is pending, whatever came before it will have been seen. -/
def Sound (received : List (Nat × Control Id)) : Window Id → List (Item Id Nat) → Prop
  | _, [] => True
  | w, item :: rest =>
    (item.work.marker.isSome → Caught received w item.mark) ∧ Sound received (w.after item) rest

structure Pending (received : List (Nat × Control Id)) (w : Window Id)
    (items : List (Item Id Nat)) : Prop where
  sound : Sound received w items
  caught : Caught received (w.afterAll items) received.length

variable {work : Work Id} {w w' : Window Id} {items : List (Item Id Nat)}

theorem Caught.mono {last} (hw : w.Covers w') (h : Caught received w last) :
    Caught received w' last := by
  intro p' hp'
  obtain ⟨p, hp, hbegin, hsub⟩ := hw p' hp'
  obtain ⟨hlt, hall⟩ := h p hp
  rw [hbegin] at hlt hall
  exact ⟨hlt, fun id hid => hsub (hall id hid)⟩

theorem Sound.mono (hw : w.Covers w') (h : Sound received w items) : Sound received w' items := by
  induction items generalizing w w' with
  | nil => trivial
  | cons item _ ih => exact ⟨fun hm => (h.1 hm).mono hw, ih (hw.after item) h.2⟩

theorem Pending.mono (hw : w.Covers w') (h : Pending received w items) :
    Pending received w' items :=
  ⟨h.sound.mono hw, h.caught.mono (hw.afterAll items)⟩

theorem Pending.head {item} (h : Pending received w (item :: items)) :
    Pending received (w.after item) items :=
  ⟨h.sound.2, h.caught⟩

open Window

theorem sound_append {front back} :
    Sound received w (front ++ back) ↔ Sound received w front ∧
      Sound received (w.afterAll front) back := by
  induction front generalizing w with
  | nil => simp [Sound, afterAll]
  | cons item front ih =>
    change _ ∧ Sound received (w.after item) (front ++ back) ↔ _
    rw [ih]
    exact (and_assoc).symm

theorem sound_of_unmarked (h : ∀ item ∈ items, item.work.marker = none) (w : Window Id) :
    Sound received w items := by
  induction items generalizing w with
  | nil => trivial
  | cons item _ ih =>
    refine ⟨fun hm => ?_, ih (fun y hy => h y (mem_cons_of_mem _ hy)) _⟩
    rw [h item mem_cons_self] at hm
    cases hm

theorem Work.opens_of_unmarked (h : work.marker = none) : work.opens = false := by
  cases work <;> first | rfl | cases h

theorem Work.unmarked_of_not_barrier (h : work.isBarrier = false) : work.marker = none := by
  cases work <;> first | rfl | cases h

theorem Window.afterAll_none (h : ∀ item ∈ items, item.work.marker = none) :
    afterAll (none : Window Id) items = none := by
  induction items with
  | nil => rfl
  | cons item items ih =>
    have hitem : after (none : Window Id) item = none := by
      rw [after_of_not_opens (opens_of_unmarked (h item mem_cons_self))]
      rfl
    change afterAll (after (none : Window Id) item) items = none
    rw [hitem]
    exact ih (fun y hy => h y (mem_cons_of_mem _ hy))

variable [DecidableEq Id]

theorem Work.about_of_upserts {id} (h : work.upserts id) :
    work.about = some id ∧ work.marker = none := by
  obtain ⟨_, rfl, rfl⟩ := upserts_iff.mp h
  exact ⟨rfl, rfl⟩

theorem coalesce_window {item} (h : Sound received w items) (hitem : item.work.marker.isSome →
    Caught received (w.afterAll items) item.mark) : let items' := (coalesce items item).1 ++
    if (coalesce items item).2 then [] else [item]
    Sound received w items' ∧ w.afterAll items' = (w.afterAll items).after item := by
  have hcase := coalesce_cases items item
  generalize coalesce items item = r at hcase
  have hclear : ∀ {id : Id} {back : List (Item Id Nat)}, Clear id back →
      (∀ y ∈ back, y.work.marker = none) ∧ ∀ y ∈ back, y.work.opens = false := by
    intro _ back hback
    have hm : ∀ y ∈ back, y.work.marker = none := fun y hy => unmarked_of_not_barrier (hback y hy).1
    exact ⟨hm, fun y hy => opens_of_unmarked (hm y hy)⟩
  cases hcase with
  | replaced incoming front old back hwork hspl hold hback =>
    obtain ⟨hunm, hopens⟩ := hclear hback
    obtain ⟨hoab, homar⟩ := about_of_upserts hold
    have habout : item.work.about = some incoming.id := by rw [hwork]; rfl
    have hmark : item.work.marker = none := by rw [hwork]; rfl
    have ho := opens_of_unmarked homar
    have hi := opens_of_unmarked hmark
    have hafter : (w.afterAll front).after item = (w.afterAll front).after old := by
      rw [after_of_not_opens hi, after_of_not_opens ho, habout, hoab]
    subst hspl
    rw [if_pos rfl, append_nil]
    refine ⟨?_, ?_⟩
    · have hfront := (sound_append.mp h).1
      exact sound_append.mpr ⟨hfront, by simp [hmark], sound_of_unmarked hunm _⟩
    · rw [afterAll_append, afterAll_append]
      change ((w.afterAll front).after item).afterAll back =
        (((w.afterAll front).after old).afterAll back).after item
      rw [afterAll_after hi hopens, after_idem ho hi (by rw [habout, hoab])]
  | superseded id front old back hwork hspl hold hback =>
    obtain ⟨hunm, hopens⟩ := hclear hback
    obtain ⟨hoab, homar⟩ := about_of_upserts hold
    have habout : item.work.about = some id := by rw [hwork]; rfl
    have hmark : item.work.marker = none := by rw [hwork]; rfl
    have ho := opens_of_unmarked homar
    have hi := opens_of_unmarked hmark
    subst hspl
    refine ⟨?_, ?_⟩
    · have hfront := (sound_append.mp h).1
      rw [append_assoc]
      exact sound_append.mpr ⟨hfront, sound_of_unmarked (forall_mem_concat hunm hmark) _⟩
    · rw [afterAll_append, afterAll_append, afterAll_append]
      change ((w.afterAll front).afterAll back).after item =
        (((w.afterAll front).after old).afterAll back).after item
      rw [afterAll_after hi hopens, afterAll_after hi hopens,
        after_idem ho hi (by rw [habout, hoab])]
  | announced hwork =>
    rw [if_pos rfl, append_nil]
    refine ⟨h, ?_⟩
    rw [after_of_not_opens (by rw [hwork]; rfl), hwork]
    simp [about]
  | kept => exact ⟨sound_append.mpr ⟨h, hitem, trivial⟩, afterAll_append _ _ _⟩

theorem offer_window {q : WorkQueue Id Nat} (hlt : q.items.length < MAX_QUEUED_WORK) {batch}
    {item w} (h : Sound received w (batch ++ q.items))
    (hitem : item.work.marker.isSome → Caught received (w.afterAll (batch ++ q.items)) item.mark) :
    Sound received w (batch ++ (q.offer item).1.items) ∧
      w.afterAll (batch ++ (q.offer item).1.items) = (w.afterAll (batch ++ q.items)).after
      item := by
  rw [afterAll_append] at hitem
  obtain ⟨hbat, hqueue⟩ := sound_append.mp h
  obtain ⟨hsound, hafter⟩ := coalesce_window hqueue hitem
  rw [← WorkQueue.offer_items_of_lt hlt] at hsound hafter
  refine ⟨sound_append.mpr ⟨hbat, hsound⟩, ?_⟩
  rw [afterAll_append, afterAll_append, hafter]

end Window

section Received

variable {Id : Type} {received : List (Nat × Control Id)} {r : Nat × Control Id}

variable {last : Nat} {w : Window Id}

theorem upserted_append {first} (h : last ≤ received.length) {id} :
    Upserted (received ++ [r]) first last id ↔ Upserted received first last id := by
  have hget : ∀ k, k < last → (received ++ [r])[k]? = received[k]? :=
    fun k hk => getElem?_append_left (Nat.lt_of_lt_of_le hk h)
  constructor
  · rintro ⟨k, i, incoming, hfirst, hlast, hk, hid⟩
    exact ⟨k, i, incoming, hfirst, hlast, hget k hlast ▸ hk, hid⟩
  · rintro ⟨k, i, incoming, hfirst, hlast, hk, hid⟩
    exact ⟨k, i, incoming, hfirst, hlast, (hget k hlast).symm ▸ hk, hid⟩

theorem sound_received {items}
    (hmarks : ∀ item ∈ items, item.work.marker.isSome → item.mark ≤ received.length)
    (h : Sound received w items) : Sound (received ++ [r]) w items := by
  induction items generalizing w with
  | nil => trivial
  | cons item _ ih =>
    refine ⟨fun hm => ?_, ih (fun y hy => hmarks y (mem_cons_of_mem _ hy)) h.2⟩
    simpa only [Caught, upserted_append (hmarks item mem_cons_self hm)] using h.1 hm

theorem Caught.receive (h : Caught received w received.length)
    (hr : ∀ incoming, r.2 = .upsert incoming → ∀ p ∈ w, incoming.id ∈ p.2) :
    Caught (received ++ [r]) w (received ++ [r]).length := by
  intro p hp
  obtain ⟨hlt, hall⟩ := h p hp
  rw [length_append, length_singleton]
  refine ⟨Nat.lt_succ_of_lt hlt, ?_⟩
  rintro _ ⟨k, i, incoming, hfirst, _, hk, rfl⟩
  rcases Nat.lt_or_ge k received.length with hlt' | _
  · rw [getElem?_append_left hlt'] at hk
    exact hall _ ⟨k, i, incoming, hfirst, hlt', hk, rfl⟩
  obtain rfl : k = received.length := by omega
  rw [getElem?_concat_length] at hk
  refine hr incoming ?_ p hp
  rw [some.inj hk]

theorem caught_begin :
    Caught (received ++ [r]) (some (received.length, ∅)) (received ++ [r]).length := by
  rintro p ⟨⟩
  rw [length_append, length_singleton]
  refine ⟨Nat.lt_succ_self _, ?_⟩
  rintro _ ⟨k, i, _, _, _, -⟩
  omega

/-- On one connection the source sent BEGIN and END of one snapshot, the END as this
message, and no upsert of the notification between them. -/
def Justified (received : List (Nat × Control Id)) (id : Id) (last : Nat) : Prop :=
  ∃ i syncId first, first < last ∧ received[first]? = some (i, .sync ⟨syncId, .phaseBegin⟩) ∧
    received[last]? = some (i, .sync ⟨syncId, .phaseEnd⟩) ∧
    ∀ k incoming, first < k → k < last → received[k]? = some (i, .upsert incoming) →
    incoming.id ≠ id

theorem Justified.receive {id} (h : Justified received id last) :
    Justified (received ++ [r]) id last := by
  obtain ⟨i, syncId, first, hlt, hfirst, hlast, hno⟩ := h
  have hlen := (List.getElem?_eq_some_iff.mp hlast).1
  have hget : ∀ k, k ≤ last → (received ++ [r])[k]? = received[k]? :=
    fun k hk => getElem?_append_left (Nat.lt_of_le_of_lt hk hlen)
  refine ⟨i, syncId, first, hlt, ?_, ?_, fun k incoming hk hk' => ?_⟩
  · rw [hget first (Nat.le_of_lt hlt)]
    exact hfirst
  · rw [hget last (Nat.le_refl _)]
    exact hlast
  · rw [hget k (Nat.le_of_lt hk')]
    exact hno k incoming hk hk'

end Received

def Slot.pending {Id : Type} [LinearOrder Id] (s : Slot Id) : List (Item Id Nat) :=
  s.batch ++ s.queue.items

end OmniBridge.Sink
