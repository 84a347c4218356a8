import OmniBridge.SinkCoalesce

/-! A slot whose queue coalesces beside one that processes every item as it is offered.
Whatever is drained when, once all of it is processed the two have the same mirrors
with the content last upserted, and their snapshots have closed the same. -/

namespace OmniBridge.Sink

open List Option SortedMap MirrorTable Slot View MirrorEntry

variable {Id : Type} [LinearOrder Id]

def Work.Faithful (assign : Id → List UInt8 → Content) (x : Texts) (presentation : Presentation) :
    Work Id → Prop
  | .upsert incoming => incoming.message.contentHash ≠ [] →
      incoming.content x presentation = assign incoming.id incoming.message.contentHash
  | _ => True

namespace MirrorTable

def Obeys (assign : Id → List UInt8 → Content) (presentation : Presentation) (t : MirrorTable Id) :
    Prop :=
  ∀ id entry, t.get id = some entry → entry.contentHash ≠ [] →
    entry.reduced = presentation.isReduced → entry.content = assign id entry.contentHash

theorem entries_foldl_remove (ids : List Id) (t : MirrorTable Id) :
    (ids.foldl (fun t id => (t.remove id).1) t).entries = t.entries.filter (·.1 ∉ ids) := by
  induction ids generalizing t with
  | nil => exact SortedMap.ext_entries (by simp [SortedMap.filter])
  | cons id _ ih =>
    refine (ih (t.remove id).1).trans (ext_entries ?_)
    simp only [remove, SortedMap.erase, SortedMap.filter, List.filter_filter, List.mem_cons, not_or]
    refine List.filter_congr (fun q _ => ?_)
    simp [Bool.and_comm]

theorem entries_reconciled (t : MirrorTable Id) (named : Finset Id) :
    ((t.notNamedIn named).foldl (fun t id => (t.remove id).1) t).entries = t.entries.filter
      (·.1 ∈ named) := by
  rw [entries_foldl_remove]
  refine ext_entries (filter_congr (fun q hq => ?_))
  have hkey : q.1 ∈ t.entries.keys := mem_map_of_mem hq
  simp [notNamedIn, hkey]

end MirrorTable

structure Calm (policy : NotificationPolicy) (locked : Bool) (e : Reading) : Prop where
  policy : e.policy = policy
  locked : e.locked = locked
  shown : e.shown.isOk

namespace Slot

def view (s : Slot Id) : View Id :=
  ⟨s.state.mirrors.entries.mapWithKey (fun _ entry => entry.content), s.state.snapshot, s.swept⟩

theorem get_view (s : Slot Id) (id) :
    s.view.mirrors.get id = (s.state.mirrors.get id).map content :=
  get_mapWithKey _ _ _

section Process

variable {x : Texts} {e : Reading} {s : Slot Id} {policy : NotificationPolicy} {locked : Bool}
  {assign : Id → List UInt8 → Content}

theorem closeMirror_view (s : Slot Id) (id) : (s.closeMirror id).view = s.view.drop id := by
  simp only [view, View.drop, View.mk.injEq]
  exact ⟨mapWithKey_filter _ _ (fun l => l ≠ id), rfl, rfl⟩

variable {presentation : Presentation}

theorem closeMirror_obeys (h : s.state.mirrors.Obeys assign presentation) (id : Id) :
    (s.closeMirror id).state.mirrors.Obeys assign presentation :=
  fun other entry hget => h other entry (get_remove_eq_some hget).1

variable {incoming : Incoming Id}

theorem duplicate_content {entry} (hobey : s.state.mirrors.Obeys assign presentation)
    (hfaith : (Work.upsert incoming).Faithful assign x presentation)
    (hget : s.state.mirrors.get incoming.id = some entry)
    (hdup : PeerState.isDuplicate entry incoming.message presentation) :
    entry.content = incoming.content x presentation := by
  simp only [PeerState.isDuplicate, Bool.and_eq_true, decide_eq_true_eq] at hdup
  obtain ⟨⟨⟨hne, hhash⟩, hred⟩, -⟩ := hdup
  rw [hobey incoming.id entry hget (hhash ▸ hne) hred, hhash]
  exact (hfaith hne).symm

theorem inserted_obeys {t : MirrorTable Id} {serverId : Option ServerId}
    (hroom : s.state.mirrors.entries.size < MAX_MIRRORS_PER_PEER)
    (hobey : s.state.mirrors.Obeys assign presentation)
    (hfaith : (Work.upsert incoming).Faithful assign x presentation)
    (ht : t = (s.insertMirror x incoming presentation serverId incoming.message.contentHash).1) :
    t.Obeys assign presentation ∧ t.entries.mapWithKey (fun _ entry => entry.content) =
      (s.state.mirrors.entries.mapWithKey (fun _ entry => entry.content)).insert incoming.id
      (incoming.content x presentation) := by
  have hins : s.insertMirror x incoming presentation serverId incoming.message.contentHash = _ :=
    ((insert_cases s.state.mirrors incoming.id).resolve_right (fun hfull =>
      hroom.not_ge hfull.1.2)).2
  have hentr := congrArg MirrorTable.entries (ht.trans (congrArg Prod.fst hins))
  refine ⟨fun id entry hget hhash hred => ?_, ?_⟩
  · change t.entries.get id = some entry at hget
    by_cases hid : id = incoming.id
    · subst hid
      rw [hentr, get_insert_self] at hget
      cases hget
      exact hfaith hhash
    · rw [hentr, get_insert_of_ne hid] at hget
      exact hobey id entry hget hhash hred
  · rw [hentr, mapWithKey_insert]
    rfl

theorem displayMirror_refines (hshown : e.shown.isOk)
    (hroom : s.state.mirrors.entries.size < MAX_MIRRORS_PER_PEER)
    (hobey : s.state.mirrors.Obeys assign presentation)
    (hfaith : (Work.upsert incoming).Faithful assign x presentation) :
    (s.displayMirror x e incoming presentation).view = s.view.display incoming.id
      (incoming.content x presentation) ∧
      (s.displayMirror x e incoming presentation).state.mirrors.Obeys assign presentation := by
  unfold displayMirror
  by_cases hdup : (s.state.mirrors.get incoming.id).any
      (fun entry => PeerState.isDuplicate entry incoming.message presentation)
  · obtain ⟨entry, hget, hentry⟩ : ∃ entry, s.state.mirrors.get incoming.id = some entry ∧
        PeerState.isDuplicate entry incoming.message presentation := by
      cases hget : s.state.mirrors.get incoming.id with
      | none => simp [hget] at hdup
      | some entry => exact ⟨entry, rfl, by simpa [hget] using hdup⟩
    have hcont := duplicate_content hobey hfaith hget hentry
    have hsame : s.view.mirrors.insert incoming.id (incoming.content x presentation) =
        s.view.mirrors := by
      rw [insert_eq_self_iff, get_view, hget, map_some, hcont]
    rw [if_pos hdup]
    refine ⟨?_, hobey⟩
    rw [View.display, hsame]
    rfl
  · rw [if_neg hdup]
    cases hok : e.shown with
    | error =>
      rw [hok] at hshown
      cases hshown
    | ok serverId =>
      have hrec : (s.withState (s.state.record incoming.id)).state.mirrors.entries.size <
          MAX_MIRRORS_PER_PEER := hroom
      obtain ⟨hobey', hview⟩ := @inserted_obeys _ _ x (s.withState (s.state.record incoming.id))
        assign presentation incoming _ (some serverId) hrec hobey hfaith rfl
      refine ⟨?_, hobey'⟩
      simp only [view, View.display, View.mk.injEq]
      exact ⟨hview, rfl, rfl⟩

theorem applySync_refines (shows : Incoming Id → Option Content) (marker : SyncMarker)
    (mark : Nat) : (s.applySync e marker mark).view = s.view.apply shows ⟨.sync marker, mark⟩ := by
  have hsnap : s.view.snapshot = s.state.snapshot := rfl
  cases hstep : (s.state.snapshot.marker marker).2 with
  | complete named =>
    obtain ⟨hph, hopen⟩ := Snapshot.marker_complete hstep
    simp only [applySync, View.apply, hsnap, hstep]
    simp only [view, sweep, View.reconcile, View.mk.injEq, keys_mapWithKey]
    refine ⟨?_, ?_, rfl⟩
    · change ((s.state.mirrors.notNamedIn named).foldl (fun t id => (t.remove id).1)
        s.state.mirrors).entries.mapWithKey _ = _
      rw [entries_reconciled, mapWithKey_filter _ _ (fun id => decide (id ∈ named))]
    · change (s.state.snapshot.marker marker).1 = none
      simp [Snapshot.marker, hph, hopen]
  | _ =>
    simp only [applySync, View.apply, hsnap, hstep]
    rfl

theorem applySync_obeys (h : s.state.mirrors.Obeys assign presentation) (marker : SyncMarker)
    (mark : Nat) : (s.applySync e marker mark).state.mirrors.Obeys assign presentation := by
  have hsub : ∀ ids : List Id, (ids.foldl (fun t id => (t.remove id).1) s.state.mirrors).Obeys
      assign presentation := by
    intro ids id entry hget
    have hget' : ((ids.foldl (fun t id => (t.remove id).1) s.state.mirrors).entries).get id =
        some entry := hget
    rw [entries_foldl_remove, SortedMap.get_filter, filter_eq_some_iff] at hget'
    exact h id entry hget'.1
  simp only [applySync]
  split
  · exact hsub _
  · exact h

theorem process_refines {item} (hcalm : Calm policy locked e) (hgrant : policy.isDenied = false)
    (hsrc : s.state.peerRoles.has .source)
    (hroom : s.state.mirrors.entries.size < MAX_MIRRORS_PER_PEER)
    (hobey : s.state.mirrors.Obeys assign (.resolve policy locked))
    (hfaith : item.work.Faithful assign x (.resolve policy locked)) :
    (s.process x e item).view = s.view.apply (fun incoming =>
      incoming.shown x (.resolve policy locked)) item ∧
      (s.process x e item).state.mirrors.Obeys assign (.resolve policy locked) := by
  obtain ⟨rfl, rfl, hshown⟩ := hcalm
  obtain ⟨work, mark⟩ := item
  cases work with
  | upsert incoming =>
    simp only [process, applyUpsert, hgrant, hsrc, Bool.not_true, Bool.false_eq_true, if_false,
      apply, Incoming.shown]
    by_cases hsec : privacyOrDefault incoming.message.privacy = .isSecret
    · simp only [hsec, true_or, if_true]
      exact ⟨closeMirror_view s incoming.id, closeMirror_obeys hobey incoming.id⟩
    by_cases hsupp : Presentation.resolve e.policy e.locked = .suppress
    · rw [if_neg hsec, if_pos hsupp, if_pos (.inr hsupp)]
      exact ⟨closeMirror_view s incoming.id, closeMirror_obeys hobey incoming.id⟩
    · rw [if_neg hsec, if_neg hsupp, if_neg (not_or.mpr ⟨hsec, hsupp⟩)]
      exact displayMirror_refines hshown hroom hobey hfaith
  | remove id =>
    simp only [process, applyRemove, hgrant, hsrc, Bool.not_true, Bool.false_eq_true, if_false]
    exact ⟨closeMirror_view s id, closeMirror_obeys hobey id⟩
  | sync marker => exact ⟨applySync_refines _ marker mark, applySync_obeys hobey marker mark⟩
  | closeAll =>
    refine ⟨rfl, fun id entry hget => ?_⟩
    have hnone : s.state.mirrors.drain.1.get id = none := get_drain _ id
    cases hnone.symm.trans hget
  | _ => exact ⟨rfl, hobey⟩

theorem process_source (x : Texts) (e) (s : Slot Id) (item) :
    (s.process x e item).state.peerRoles = s.state.peerRoles := by
  obtain ⟨work, _⟩ := item
  cases work with
  | upsert =>
    simp only [process, applyUpsert, displayMirror]
    split_ifs
    any_goals rfl
    split <;> rfl
  | remove =>
    simp only [process, applyRemove]
    split_ifs <;> rfl
  | sync =>
    simp only [process, applySync]
    split <;> rfl
  | _ => rfl

end Process

end Slot

def lastUpsert (offered : List (Item Id Nat)) (id : Id) : Option (Incoming Id) :=
  offered.reverse.findSome? (fun item => match item.work with
    | .upsert incoming => if incoming.id = id then some incoming else none
    | _ => none)

/-- One slot that queues what is offered, and one that processes it at once. -/
structure Twin (Id : Type) [LinearOrder Id] where
  queued : Slot Id
  direct : Slot Id
  offered : List (Item Id Nat) := []

inductive TwinMove (Id : Type) where
  | offer (item : Item Id Nat) (e : Reading)
  | drain
  | work (e : Reading)

namespace Twin

def step (x : Texts) (t : Twin Id) : TwinMove Id → Option (Twin Id)
  | .offer item e =>
    if item.work.isDisplay then
      some ⟨t.queued.offer item.work item.mark, t.direct.process x e item, t.offered ++ [item]⟩
    else none
  -- the worker drains again once it has processed what it took out before
  | .drain =>
    match t.queued.batch with
    | [] =>
      some { t with queued := { t.queued with
        batch := t.queued.queue.drain.1, queue := t.queued.queue.drain.2 } }
    | _ => none
  | .work e =>
    match t.queued.batch with
    | [] => none
    | item :: rest => some { t with queued := { t.queued with batch := rest }.process x e item }

variable {e : Reading}

/-- Handling one item from an idle task reaches what the item means. -/
theorem work_reached {x : Texts} {t t' : Twin Id} (htask : t.queued.task = .idle)
    (hdisp : ∀ item ∈ t.queued.batch, item.work.isDisplay) (h : t.step x (.work e) = some t') :
    t'.queued.task = .idle ∧ Slot.Reaches x e t.queued t'.queued := by
  simp only [step] at h
  split at h
  · cases h
  rename_i item rest hbat
  cases h
  have hd := hdisp item (by simp [hbat])
  refine ⟨?_, process_reaches htask hbat hd⟩
  exact (process_frame x e _ item).1.trans htask

def sourcing : Slot Nat := { state := { peerRoles := ⟨{.source}, 1⟩ } }

def replacing : Slot Nat :=
  { sourcing.process .plain { shown := .ok 3 } ⟨.upsert ⟨5, { contentHash := [1] }⟩, 0⟩ with
    batch := [⟨.upsert ⟨5, { appLabel := "new", contentHash := [2] }⟩, 0⟩, ⟨.remove 6, 0⟩] }

theorem work_reached_replaced :
    (replacing.state.mirrors.get 5).map serverId = some (some 3) ∧
      ∃ t, Reaches .plain { shown := .ok 4 } replacing t ∧ t.task = .idle ∧
      t.batch = [⟨.remove 6, 0⟩] ∧
      (t.state.mirrors.get 5).map (fun entry =>
      (entry.serverId, entry.appName, entry.contentHash)) = some (some 4, "new", [2]) := by
  have hreach := @work_reached Nat _ { shown := .ok 4 } .plain ⟨replacing, {}, []⟩ _ rfl
    (by decide) rfl
  exact ⟨by decide, _, hreach.2, hreach.1, rfl, by decide⟩

section Ordinary

variable (assign : Id → List UInt8 → Content) (x : Texts) (policy : NotificationPolicy)
  (locked : Bool)

/-- An offer finds the queue below its ceiling, an item the table below its own; grant
and lock state stay, the backend succeeds and hashes are valid. -/
def Ordinary (t : Twin Id) : TwinMove Id → Prop
  | .offer item e => t.queued.queue.items.length < MAX_QUEUED_WORK ∧
      t.direct.state.mirrors.entries.size < MAX_MIRRORS_PER_PEER ∧ Calm policy locked e ∧
      item.work.Faithful assign x (.resolve policy locked)
  | .work e => t.queued.state.mirrors.entries.size < MAX_MIRRORS_PER_PEER ∧ Calm policy locked e
  | .drain => True

/-- What is pending takes the one slot's view to the other's. -/
structure Agree (t : Twin Id) : Prop where
  same : Same (t.queued.pending.foldl
    (apply (fun incoming => incoming.shown x (.resolve policy locked))) t.queued.view) t.direct.view
  tidy : Tidy t.queued.queue.items
  display : ∀ item ∈ t.queued.pending, item.work.isDisplay
  faithful : ∀ item ∈ t.queued.pending, item.work.Faithful assign x (.resolve policy locked)
  obeys : t.queued.state.mirrors.Obeys assign (.resolve policy locked) ∧
    t.direct.state.mirrors.Obeys assign (.resolve policy locked)
  source : t.queued.state.peerRoles.has .source ∧ t.direct.state.peerRoles.has .source
  last : ∀ id content, t.direct.view.mirrors.get id = some content →
    ∀ incoming ∈ lastUpsert t.offered id, content = incoming.content x (.resolve policy locked)

end Ordinary

variable {assign : Id → List UInt8 → Content} {x : Texts} {policy : NotificationPolicy}
  {locked : Bool} {t t' : Twin Id}

theorem lastUpsert_append (offered : List (Item Id Nat)) (item) (id : Id) :
    lastUpsert (offered ++ [item]) id = (match item.work with
      | .upsert incoming => if incoming.id = id then some incoming else none
      | _ => none).or (lastUpsert offered id) := by
  rw [lastUpsert, reverse_append, reverse_singleton, singleton_append, findSome?_cons]
  split <;> simp_all [lastUpsert]

theorem last_upserted {v : View Id} {offered : List (Item Id Nat)} {presentation}
    (h : ∀ id content, v.mirrors.get id = some content → ∀ incoming ∈ lastUpsert offered id,
      content = incoming.content x presentation) (item : Item Id Nat) :
    ∀ id content, (v.apply (fun incoming => incoming.shown x presentation) item).mirrors.get id =
      some content → ∀ incoming ∈ lastUpsert (offered ++ [item]) id,
      content = incoming.content x presentation := by
  intro id content hget incoming hlast
  rw [lastUpsert_append] at hlast
  -- an entry the item did not write was there before
  have hbef : lastUpsert offered id = some incoming → v.mirrors.get id = some content →
      content = incoming.content x presentation := fun hl hv => h id content hv incoming hl
  obtain ⟨work, _⟩ := item
  cases work with
  | upsert last =>
    by_cases hid : last.id = id
    · obtain rfl : last = incoming := by simpa [hid] using hlast
      subst hid
      simp only [View.apply, Incoming.shown] at hget
      split at hget
      · simp [View.drop, get_erase_self] at hget
      rename_i shown hshown
      rw [View.display, get_insert_self] at hget
      cases hget
      rw [ite_none_left_eq_some] at hshown
      exact (some.inj hshown.2).symm
    · have hne : id ≠ last.id := Ne.symm hid
      refine hbef (by simpa [hid] using hlast) ?_
      simp only [View.apply] at hget
      split at hget
      · rwa [View.drop, get_erase_of_ne hne] at hget
      · rwa [View.display, get_insert_of_ne hne] at hget
  | remove other =>
    refine hbef hlast ?_
    change (v.mirrors.erase other).get id = some content at hget
    by_cases hid : id = other
    · rw [hid, get_erase_self] at hget
      cases hget
    · rwa [get_erase_of_ne hid] at hget
  | sync =>
    refine hbef hlast ?_
    simp only [View.apply] at hget
    split at hget
    · rw [View.reconcile, SortedMap.get_filter, filter_eq_some_iff] at hget
      exact hget.1
    · exact hget
  | closeAll => cases hget
  | _ => exact hbef hlast hget

theorem offer_agree {item : Item Id Nat} (hgrant : policy.isDenied = false)
    (hok : Ordinary assign x policy locked t (.offer item e))
    (h : t.step x (.offer item e) = some t') (hs : Agree assign x policy locked t) :
    Agree assign x policy locked t' := by
  obtain ⟨hlt, hroom, hcalm, hfaith⟩ := hok
  simp only [step, ite_none_right_eq_some, some.injEq] at h
  obtain ⟨hdisp, rfl⟩ := h
  obtain ⟨hview, hobey⟩ := process_refines hcalm hgrant hs.source.2 hroom hs.obeys.2 hfaith
  have hitems := WorkQueue.offer_items_of_lt hlt item
  have hpend : (t.queued.offer item.work item.mark).pending =
      t.queued.batch ++ ((coalesce t.queued.queue.items item).1 ++
        if (coalesce t.queued.queue.items item).2 then [] else [item]) :=
        congrArg (t.queued.batch ++ ·) hitems
  have hmem : ∀ y ∈ (t.queued.offer item.work item.mark).pending, y = item ∨
      y ∈ t.queued.pending := by
    intro y hy
    rcases mem_append.mp hy with hin | hin
    · exact .inr (mem_append_left _ hin)
    · exact (WorkQueue.mem_offer hin).imp_right (mem_append_right _)
  refine ⟨?_, ?_, fun y hy => ?_, fun y hy => ?_, ⟨hs.obeys.1, hobey⟩, ⟨hs.source.1, ?_⟩, ?_⟩
  · rw [hpend, foldl_append, hview]
    refine (coalesce_same hs.tidy (fun y hy => hs.display y (mem_append_right _ hy)) hdisp
      _).trans ?_
    rw [← foldl_append]
    exact hs.same.apply item
  · change Tidy (t.queued.queue.offer item).1.items
    rw [hitems]
    exact hs.tidy.coalesce item
  · rcases hmem y hy with rfl | hin
    · exact hdisp
    · exact hs.display y hin
  · rcases hmem y hy with rfl | hin
    · exact hfaith
    · exact hs.faithful y hin
  · rw [process_source]
    exact hs.source.2
  · rw [hview]
    exact last_upserted hs.last item

theorem work_agree (hgrant : policy.isDenied = false)
    (hok : Ordinary assign x policy locked t (.work e)) (h : t.step x (.work e) = some t')
    (hs : Agree assign x policy locked t) : Agree assign x policy locked t' := by
  obtain ⟨hroom, hcalm⟩ := hok
  simp only [step] at h
  split at h
  · cases h
  rename_i item rest hbat
  cases h
  have hpend : t.queued.pending = item :: (rest ++ t.queued.queue.items) :=
    by rw [pending, hbat]; rfl
  have hfaith := hs.faithful item (by rw [hpend]; exact mem_cons_self)
  obtain ⟨hview, hobey⟩ := @process_refines _ _ x e { t.queued with batch := rest } policy locked
    assign item hcalm hgrant hs.source.1 hroom hs.obeys.1 hfaith
  obtain ⟨-, hrest, hqueue⟩ := process_frame x e { t.queued with batch := rest } item
  have hpend' : ({ t.queued with batch := rest }.process x e item).pending = rest ++
    t.queued.queue.items := by
    rw [pending, hrest, hqueue]
  have hmem : ∀ y ∈ rest ++ t.queued.queue.items, y ∈ t.queued.pending := by
    intro y hy
    rw [hpend]
    exact mem_cons_of_mem _ hy
  refine ⟨?_, ?_, fun y hy => ?_, fun y hy => ?_, ⟨hobey, hs.obeys.2⟩, ⟨?_, hs.source.2⟩, hs.last⟩
  · change Same (foldl _ ({ t.queued with batch := rest }.process x e item).view
      ({ t.queued with batch := rest }.process x e item).pending) _
    rw [hpend', hview]
    have hsame := hs.same
    rw [hpend] at hsame
    exact hsame
  · rw [hqueue]
    exact hs.tidy
  · exact hs.display y (hmem y (hpend' ▸ hy))
  · exact hs.faithful y (hmem y (hpend' ▸ hy))
  · rw [process_source]
    exact hs.source.1

theorem drain_agree (h : t.step x .drain = some t') (hs : Agree assign x policy locked t) :
    Agree assign x policy locked t' := by
  simp only [step] at h
  split at h
  · rename_i hbat
    cases h
    have hpend : ({ t.queued with
        batch := t.queued.queue.drain.1, queue := t.queued.queue.drain.2 } : Slot Id).pending =
        t.queued.pending := by
      simp [pending, hbat, WorkQueue.drain]
    refine ⟨?_, trivial, ?_, ?_, hs.obeys, hs.source, hs.last⟩
    · rw [hpend]
      exact hs.same
    · rw [hpend]
      exact hs.display
    · rw [hpend]
      exact hs.faithful
  · cases h

instance (e : Reading) : Decidable (Calm policy locked e) :=
  decidable_of_iff (e.policy = policy ∧ e.locked = locked ∧ e.shown.isOk)
    ⟨fun h => ⟨h.1, h.2.1, h.2.2⟩, fun h => ⟨h.policy, h.locked, h.shown⟩⟩

instance (presentation : Presentation) (work : Work Id) :
    Decidable (work.Faithful assign x presentation) :=
  match work with
  | .upsert _ => inferInstanceAs (Decidable (_ → _))
  | .announceRoles | .remove _ | .dismiss _ _ | .sync _ | .lockChanged _ | .closeAll _ =>
    isTrue trivial

instance (t : Twin Id) (m : TwinMove Id) : Decidable (Ordinary assign x policy locked t m) := by
  unfold Ordinary
  induction m using TwinMove.casesOn <;> infer_instance

/-- Once all that was offered is processed, the queue has made no difference: the same
notifications have a mirror, each with the content of its last upsert, and every END
has closed the same. -/
theorem coalescing_preserves_meaning (assign : Id → List UInt8 → Content) (x : Texts)
    (policy : NotificationPolicy) (locked : Bool) (hgrant : policy.isDenied = false)
    {start : Slot Id} (hsrc : start.state.peerRoles.has .source)
    (hobey : start.state.mirrors.Obeys assign (.resolve policy locked))
    (hidle : start.pending = []) {ms : List (TwinMove Id)} {t : Twin Id}
    (hrun : run (step x) ⟨start, start, []⟩ ms = some t)
    (hok : Meets (step x) (Ordinary assign x policy locked) ⟨start, start, []⟩ ms)
    (hdone : t.queued.pending = []) :
    (∀ id, (t.queued.state.mirrors.get id).map content =
      (t.direct.state.mirrors.get id).map content) ∧
    t.queued.swept = t.direct.swept ∧
    ∀ id entry, t.queued.state.mirrors.get id = some entry → ∀ incoming ∈ lastUpsert t.offered id,
      entry.content = incoming.content x (.resolve policy locked) := by
  have hstart : Agree assign x policy locked ⟨start, start, []⟩ := by
    have hqueue : start.queue.items = [] := (append_eq_nil_iff.mp hidle).2
    refine ⟨?_, ?_, ?_, ?_, ⟨hobey, hobey⟩, ⟨hsrc, hsrc⟩, ?_⟩
    · rw [hidle]
      exact .refl _
    · rw [hqueue]
      trivial
    · simp [hidle]
    · simp [hidle]
    · simp [lastUpsert]
  have hstep : ∀ t m t', Ordinary assign x policy locked t m → t.step x m = some t' →
      Agree assign x policy locked t → Agree assign x policy locked t' := by
    intro t m _ hok h hs
    cases m with
    | offer => exact offer_agree hgrant hok h hs
    | drain => exact drain_agree h hs
    | work => exact work_agree hgrant hok h hs
  have hagree := run_invariant (step x) hstep hrun hok hstart
  have hsame := hagree.same
  rw [hdone] at hsame
  have hget : ∀ id, (t.queued.state.mirrors.get id).map content =
      (t.direct.state.mirrors.get id).map content := by
    intro id
    rw [← get_view, ← get_view]
    exact congrArg (fun m => m.get id) hsame.mirrors
  refine ⟨hget, hsame.swept, fun id entry hentry incoming hlast => ?_⟩
  refine hagree.last id entry.content ?_ incoming hlast
  rw [get_view, ← hget, hentry]
  rfl

def mergedSnapshot : List (TwinMove Nat) :=
  [.offer ⟨.upsert ⟨5, { appLabel := "old", contentHash := [1] }⟩, 0⟩ {},
    .offer ⟨.upsert ⟨6, {}⟩, 0⟩ {}, .drain, .work {},
    .offer ⟨.sync ⟨[9], .phaseBegin⟩, 1⟩ {},
    .offer ⟨.upsert ⟨5, { appLabel := "new", contentHash := [2] }⟩, 0⟩ {},
    .offer ⟨.upsert ⟨6, {}⟩, 0⟩ {}, .offer ⟨.remove 6, 0⟩ {},
    .offer ⟨.upsert ⟨5, { appLabel := "old", contentHash := [1] }⟩, 0⟩ {},
    .offer ⟨.sync ⟨[9], .phaseEnd⟩, 2⟩ {}, .work {}, .drain, .work {}, .work {}, .work {}, .work {}]

theorem coalescing_preserves_meaning_merged :
    ∃ t, run (step .plain) ⟨sourcing, sourcing, []⟩ mergedSnapshot = some t ∧
      t.queued.queue.coalesced = 1 ∧ t.queued.state.mirrors.entries.keys = [5] ∧
      (∀ id, (t.queued.state.mirrors.get id).map content = (t.direct.state.mirrors.get id).map
      content) ∧ t.queued.swept = t.direct.swept := by
  refine exists_some_imp (P := fun t => t.queued.queue.coalesced = 1 ∧
    t.queued.state.mirrors.entries.keys = [5] ∧ t.queued.pending = []) ⟨_, rfl, rfl, by decide, rfl⟩
    (fun t hrun ⟨hmerged, hkeys, hdone⟩ => ?_)
  have hmean := coalescing_preserves_meaning
    (fun _ hash => ⟨hash, if hash = [1] then "old" else "new", .normal, false, ""⟩) .plain {} false
      rfl (by decide)
    nofun rfl hrun (by decide) hdone
  exact ⟨hmerged, hkeys, hmean.1, hmean.2.1⟩

end Twin

end OmniBridge.Sink
