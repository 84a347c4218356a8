import OmniBridge.SinkWindow
import OmniBridge.SinkProcess

/-! What coalescing may not change. A view keeps of a peer's slot which notifications
have a mirror and with what content, the open snapshot and what completed ones closed.
The worker's items are operations on views; those the queue merges or leaves out make
no difference to any later view. -/

namespace OmniBridge.Sink

open List Option SortedMap Work

variable {Id : Type} [LinearOrder Id]

structure Content where
  contentHash : List UInt8
  appName : String
  urgency : Urgency
  reduced : Bool
  originDeviceId : String
deriving DecidableEq

def MirrorEntry.content (entry : MirrorEntry) : Content :=
  ⟨entry.contentHash, entry.appName, entry.urgency, entry.reduced, entry.originDeviceId⟩

def Incoming.content (x : Texts) (presentation : Presentation) (incoming : Incoming Id) : Content :=
  let mirror := x.buildMirror incoming.message presentation
  ⟨incoming.message.contentHash, mirror.appName, mirror.urgency, presentation.isReduced,
    incoming.message.originDeviceId⟩

/-- What an upsert leaves on the screen; nothing for a secret or a suppressed one. -/
def Incoming.shown (x : Texts) (presentation : Presentation) (incoming : Incoming Id) :
    Option Content :=
  if privacyOrDefault incoming.message.privacy = .isSecret ∨ presentation = .suppress then none
  else some (incoming.content x presentation)

def SameSnapshot (ids : List Id) : Snapshot Id → Snapshot Id → Prop :=
  Option.Rel (fun o o' => o.syncId = o'.syncId ∧ ∀ id ∈ ids, id ∈ o.named ↔ id ∈ o'.named)

section SameSnapshot

variable {ids ids' : List Id} {a b c : Snapshot Id}

section

omit [LinearOrder Id]

theorem SameSnapshot.refl (ids : List Id) (a) : SameSnapshot ids a a := by
  cases a with
  | none => exact .none
  | some => exact .some ⟨rfl, fun _ _ => Iff.rfl⟩

theorem SameSnapshot.trans (h : SameSnapshot ids a b) (h' : SameSnapshot ids b c) :
    SameSnapshot ids a c := by
  cases h with
  | none =>
    cases h' with
    | none => exact .none
  | some ho =>
    cases h' with
    | some ho' => exact .some ⟨ho.1.trans ho'.1, fun id hid => (ho.2 id hid).trans (ho'.2 id hid)⟩

theorem SameSnapshot.mono (h : SameSnapshot ids a b) (hsub : ∀ id ∈ ids', id ∈ ids) :
    SameSnapshot ids' a b := by
  cases h with
  | none => exact .none
  | some ho => exact .some ⟨ho.1, fun id hid => ho.2 id (hsub id hid)⟩

end

theorem SameSnapshot.upsert (h : SameSnapshot ids a b) {k} (hsub : ∀ id ∈ ids', id = k ∨ id ∈ ids) :
    SameSnapshot ids' (a.upsert k).1 (b.upsert k).1 := by
  cases h with
  | none => exact .none
  | some ho =>
    refine .some ⟨ho.1, fun id hid => ?_⟩
    rw [Finset.mem_insert, Finset.mem_insert]
    rcases hsub id hid with rfl | hin
    · simp
    · rw [ho.2 id hin]

theorem sameSnapshot_upsert {k} (hk : k ∉ ids) (a : Snapshot Id) :
    SameSnapshot ids a (a.upsert k).1 := by
  cases a with
  | none => exact .none
  | some =>
    refine .some ⟨rfl, fun id hid => ?_⟩
    have hne : id ≠ k := fun heq => hk (heq ▸ hid)
    rw [Finset.mem_insert, or_iff_right hne]

theorem upsert_comm (a : Snapshot Id) (k l : Id) :
    ((a.upsert k).1.upsert l).1 = ((a.upsert l).1.upsert k).1 := by
  cases a with
  | none => rfl
  | some => simp [Snapshot.upsert, Finset.insert_comm]

theorem upsert_upsert (a : Snapshot Id) (k : Id) :
    ((a.upsert k).1.upsert k).1 = (a.upsert k).1 := by
  cases a with
  | none => rfl
  | some => simp [Snapshot.upsert]

end SameSnapshot

structure View (Id : Type) [LinearOrder Id] where
  mirrors : SortedMap Id Content
  snapshot : Snapshot Id
  swept : List (Id × Nat)

namespace View

def drop (v : View Id) (id : Id) : View Id := { v with mirrors := v.mirrors.erase id }

def display (v : View Id) (id : Id) (content : Content) : View Id :=
  { v with mirrors := v.mirrors.insert id content, snapshot := (v.snapshot.upsert id).1 }

def reconcile (v : View Id) (named : Finset Id) (mark : Nat) : View Id :=
  { mirrors := v.mirrors.filter (·.1 ∈ named)
    snapshot := none
    swept := v.swept ++ (v.mirrors.keys.filter (fun id => id ∉ named)).map (fun id => (id, mark)) }

def apply (shows : Incoming Id → Option Content) (v : View Id) (item : Item Id Nat) : View Id :=
  match item.work with
  | .upsert incoming =>
    match shows incoming with
    | none => v.drop incoming.id
    | some content => v.display incoming.id content
  | .remove id => v.drop id
  | .sync marker =>
    match (v.snapshot.marker marker).2 with
    | .complete named => v.reconcile named item.mark
    | _ => { v with snapshot := (v.snapshot.marker marker).1 }
  | .closeAll _ => { v with mirrors := .empty, snapshot := none }
  | _ => v

/-- The same mirrors, and an open snapshot that closes the same of them. -/
structure Same (v w : View Id) : Prop where
  mirrors : v.mirrors = w.mirrors
  swept : v.swept = w.swept
  snapshot : SameSnapshot v.mirrors.keys v.snapshot w.snapshot

theorem Same.refl (v : View Id) : Same v v := ⟨rfl, rfl, .refl _ _⟩

variable {v w : View Id}

theorem Same.trans {u} (h : Same u v) (h' : Same v w) : Same u w := by
  refine ⟨h.mirrors.trans h'.mirrors, h.swept.trans h'.swept, h.snapshot.trans ?_⟩
  rw [h.mirrors]
  exact h'.snapshot

theorem Same.drop (h : Same v w) (id : Id) : Same (v.drop id) (w.drop id) := by
  refine ⟨congrArg (erase id) h.mirrors, h.swept, h.snapshot.mono (fun other hother => ?_)⟩
  exact (mem_keys_erase hother).2

theorem Same.display (h : Same v w) (id : Id) (content : Content) :
    Same (v.display id content) (w.display id content) := by
  refine ⟨congrArg (insert id content) h.mirrors, h.swept,
    h.snapshot.upsert (fun other hother => ?_)⟩
  exact mem_keys_insert hother

theorem Same.reconcile (h : Same v w) {named named'}
    (hnam : ∀ id ∈ v.mirrors.keys, id ∈ named ↔ id ∈ named') (mark : Nat) :
    Same (v.reconcile named mark) (w.reconcile named' mark) := by
  have hentr : v.mirrors.entries.filter (·.1 ∈ named) = v.mirrors.entries.filter
      (fun q => q.1 ∈ named') := by
    refine filter_congr (fun q hq => ?_)
    simp only [hnam q.1 (mem_map_of_mem hq)]
  have hkeys : v.mirrors.keys.filter (fun id => id ∉ named) = v.mirrors.keys.filter
      (fun id => id ∉ named') := by
    refine filter_congr (fun id hid => ?_)
    simp only [hnam id hid]
  refine ⟨?_, ?_, .none⟩
  · rw [View.reconcile, View.reconcile, ← h.mirrors]
    exact ext_entries hentr
  · rw [View.reconcile, View.reconcile, ← h.mirrors, ← h.swept, hkeys]

variable {shows : Incoming Id → Option Content}

open View

theorem Same.sync (h : Same v w) (marker : SyncMarker) (mark : Nat) :
    Same (v.apply shows ⟨.sync marker, mark⟩) (w.apply shows ⟨.sync marker, mark⟩) := by
  obtain ⟨mirrors, a, swept⟩ := v
  obtain ⟨mirrors', b, swept'⟩ := w
  have hsnap : SameSnapshot mirrors.keys a b := h.snapshot
  cases hsnap with
  | none =>
    obtain rfl : mirrors = mirrors' := h.mirrors
    obtain rfl : swept = swept' := h.swept
    exact .refl _
  | @some o o' ho =>
    cases hph : marker.phase with
    | phaseBegin =>
      refine ⟨?_, ?_, ?_⟩ <;> simp only [apply, Snapshot.marker, hph, isSome_some, if_true]
      · exact h.mirrors
      · exact h.swept
      · exact .refl _ _
    | phaseUnspecified =>
      refine ⟨?_, ?_, ?_⟩ <;> simp only [apply, Snapshot.marker, hph]
      · exact h.mirrors
      · exact h.swept
      · exact h.snapshot
    | phaseEnd =>
      by_cases hid : o.syncId = marker.syncId
      · have hid' : o'.syncId = marker.syncId := ho.1.symm.trans hid
        simp only [apply, Snapshot.marker, hph, hid, hid', if_true]
        exact h.reconcile ho.2 mark
      · have hid' : o'.syncId ≠ marker.syncId := fun heq => hid (ho.1.trans heq)
        simp only [apply, Snapshot.marker, hph, hid, hid', if_false]
        exact h

theorem Same.apply (h : Same v w) (item : Item Id Nat) :
    Same (v.apply shows item) (w.apply shows item) := by
  obtain ⟨work, mark⟩ := item
  cases work with
  | upsert incoming =>
    simp only [View.apply]
    cases shows incoming with
    | none => exact h.drop incoming.id
    | some content => exact h.display incoming.id content
  | remove id => exact h.drop id
  | sync marker => exact h.sync marker mark
  | closeAll => exact ⟨rfl, h.swept, .none⟩
  | _ => exact h

theorem apply_about {item id} (h : item.work.about = some id) :
    (∀ v : View Id, v.apply shows item = v.drop id) ∨ ∃ content, ∀ v : View Id,
      v.apply shows item = v.display id content := by
  obtain ⟨work, _⟩ := item
  cases work with
  | upsert incoming =>
    obtain rfl : incoming.id = id := some.inj h
    cases hshows : shows incoming with
    | none => exact .inl (fun v => by simp only [apply, hshows])
    | some content => exact .inr ⟨content, fun v => by simp only [apply, hshows]⟩
  | remove other =>
    obtain rfl : other = id := some.inj h
    exact .inl (fun v => rfl)
  | _ => cases h

variable {a b : Item Id Nat}

theorem apply_commutes {i j} (ha : a.work.about = some i) (hb : b.work.about = some j)
    (hne : i ≠ j) : Commutes (apply shows) a b := by
  intro v
  rcases @apply_about _ _ shows a i ha with ha | ⟨c, ha⟩ <;> rcases @apply_about _ _ shows b j
    hb with hb | ⟨d, hb⟩ <;>
    simp only [ha, hb, drop, display]
  · rw [SortedMap.erase_comm]
  · rw [erase_insert_comm hne.symm]
  · rw [erase_insert_comm hne]
  · rw [insert_comm hne, upsert_comm]

theorem apply_absorbs {id} (ha : a.work.about = some id) (hb : b.work.about = some id) :
    Absorbs (apply shows) Same a b := by
  intro v
  rcases @apply_about _ _ shows a id ha with ha | ⟨c, ha⟩ <;> rcases @apply_about _ _ shows b id
    hb with hb | ⟨d, hb⟩ <;>
    simp only [ha, hb, drop, display]
  · rw [erase_erase]
    exact .refl _
  · rw [insert_erase]
    exact .refl _
  · -- the id stays named although its mirror is gone
    rw [erase_insert]
    refine ⟨rfl, rfl, sameSnapshot_upsert (fun hin => ?_) _⟩
    exact (mem_keys_erase hin).1 rfl
  · rw [insert_insert, upsert_upsert]
    exact .refl _

end View

section Tidy

omit [LinearOrder Id]

variable [DecidableEq Id] {α : Type} {id : Id} {later earlier : List (Item Id α)}
  {item old : Item Id α}

/-- The latest first: no item about a notification stands behind an upsert of it that
it could have been merged with. -/
def TidyBack : List (Item Id α) → Prop
  | [] => True
  | item :: earlier =>
    (∀ id, item.work.about = some id → scanBack id earlier = none) ∧ TidyBack earlier

def Tidy (items : List (Item Id α)) : Prop := TidyBack items.reverse

theorem scanBack_of_clear (h : Clear id later) :
    scanBack id (later ++ earlier) = (scanBack id earlier).map (· + later.length) := by
  induction later with
  | nil => simp
  | cons y later ih =>
    obtain ⟨hbar, hup⟩ := h y mem_cons_self
    have hrest : Clear id later := fun z hz => h z (mem_cons_of_mem _ hz)
    simp only [List.cons_append, scanBack, hbar, hup, ih hrest, Option.map_map]
    simp [Function.comp_def, Nat.add_assoc]

theorem scanBack_isSome (h : ∀ y ∈ later, y.work.isBarrier = false)
    (hbar : old.work.isBarrier = false) (hold : old.work.upserts id) :
    scanBack id (later ++ old :: earlier) ≠ none := by
  induction later with
  | nil => simp [scanBack, hbar, hold]
  | cons y later ih =>
    obtain ⟨hy, h⟩ := forall_mem_cons.mp h
    by_cases hup : y.work.upserts id
    · simp [scanBack, hy, hup]
    · simpa [scanBack, hy, hup] using ih h

theorem scanBack_cons_eq_none (hbar : old.work.isBarrier = false)
    (h : scanBack id (old :: earlier) = none) : scanBack id earlier = none := by
  simp only [scanBack, hbar] at h
  by_cases hold : old.work.upserts id
  · simp [hold] at h
  · simpa [hold] using h

theorem scanBack_erase (hold : scanBack id (old :: earlier) = none → scanBack id earlier = none)
    (h : scanBack id (later ++ old :: earlier) = none) : scanBack id (later ++ earlier) = none := by
  induction later with
  | nil => exact hold h
  | cons y _ ih =>
    by_cases hy : y.work.isBarrier
    · simp [scanBack, hy]
    have hrest := ih (scanBack_cons_eq_none (by simpa using hy) h)
    by_cases hup : y.work.upserts id
    · simp [scanBack, hy, hup] at h
    · simpa [scanBack, hy, hup] using hrest

theorem scanBack_replace (hbar : item.work.isBarrier = old.work.isBarrier)
    (hup : ∀ id, item.work.upserts id = old.work.upserts id) (id : Id) :
    scanBack id (later ++ item :: earlier) = scanBack id (later ++ old :: earlier) := by
  induction later with
  | nil => simp only [nil_append, scanBack, hbar, hup]
  | cons y _ ih => simp only [cons_append, scanBack, ih]

theorem TidyBack.erase
    (hold : ∀ id, scanBack id (old :: earlier) = none → scanBack id earlier = none)
    (h : TidyBack (later ++ old :: earlier)) : TidyBack (later ++ earlier) := by
  induction later with
  | nil => exact h.2
  | cons y _ ih => exact ⟨fun id hid => scanBack_erase (hold id) (h.1 id hid), ih h.2⟩

theorem TidyBack.replace (habout : item.work.about = old.work.about)
    (hbar : item.work.isBarrier = old.work.isBarrier)
    (hup : ∀ id, item.work.upserts id = old.work.upserts id)
    (h : TidyBack (later ++ old :: earlier)) : TidyBack (later ++ item :: earlier) := by
  induction later with
  | nil => exact ⟨fun id hid => h.1 id (habout ▸ hid), h.2⟩
  | cons y _ ih => exact ⟨fun id hid => (scanBack_replace hbar hup id).trans (h.1 id hid), ih h.2⟩

theorem TidyBack.others (hbar : old.work.isBarrier = false) (hold : old.work.upserts id)
    (hlater : Clear id later) (h : TidyBack (later ++ old :: earlier)) :
    ∀ y ∈ later, y.work.about ≠ some id := by
  induction later with
  | nil => simp
  | cons y later ih =>
    have hrest : Clear id later := fun z hz => hlater z (mem_cons_of_mem _ hz)
    intro z hz habout
    rcases mem_cons.mp hz with rfl | hz
    · exact scanBack_isSome (fun z hz => (hrest z hz).1) hbar hold (h.1 id habout)
    · exact ih hrest h.2 z hz habout

theorem TidyBack.tail (h : TidyBack (later ++ earlier)) : TidyBack earlier := by
  induction later with
  | nil => exact h
  | cons y _ ih => exact ih h.2

variable {items : List (Item Id α)}

theorem Clear.reverse (h : Clear id items) : Clear id items.reverse :=
  fun y hy => h y (mem_reverse.mp hy)

theorem Work.upserts_not_barrier {work : Work Id} (h : work.upserts id) :
    work.isBarrier = false := by
  obtain ⟨_, rfl, -⟩ := upserts_iff.mp h
  rfl

theorem upsertSlot_of_kept (h : coalesce items item = (items, false))
    (hid : item.work.about = some id) : upsertSlot id items = none := by
  obtain ⟨work, _⟩ := item
  cases work with
  | upsert incoming =>
    obtain rfl : incoming.id = id := some.inj hid
    cases hslot : upsertSlot incoming.id items with
    | none => rfl
    | some => simp [coalesce, hslot] at h
  | remove other =>
    obtain rfl : other = id := some.inj hid
    cases hslot : upsertSlot other items with
    | none => rfl
    | some =>
      obtain ⟨_, _, _, rfl, rfl, -, -⟩ := upsertSlot_eq_some hslot
      have hlen := congrArg (·.1.length) h
      simp [coalesce, hslot, length_eraseIdx] at hlen
  | _ => cases hid

theorem Tidy.coalesce (h : Tidy items) (item : Item Id α) :
    Tidy ((coalesce items item).1 ++ if (coalesce items item).2 then [] else [item]) := by
  have hcase := coalesce_cases items item
  generalize hr : Sink.coalesce items item = r at hcase ⊢
  cases hcase with
  | replaced _ _ _ _ hwork hspl hold =>
    obtain ⟨_, hbef, hid⟩ := upserts_iff.mp hold
    subst hspl
    simp only [Tidy, if_true, append_nil, reverse_append, reverse_cons, append_assoc,
      singleton_append] at h ⊢
    refine h.replace ?_ ?_ ?_
    · rw [hwork, hbef]
      exact congrArg some hid.symm
    · rw [hwork, hbef]
      rfl
    · intro _
      rw [hwork, hbef]
      simp [upserts, hid]
  | superseded id front _ back hwork hspl hold hback =>
    have hbar := upserts_not_barrier hold
    subst hspl
    simp only [Tidy, Bool.false_eq_true, if_false, reverse_append, reverse_cons, append_assoc,
      singleton_append, reverse_nil, nil_append] at h ⊢
    have hscan : scanBack id (back.reverse ++ front.reverse) = none := by
      rw [scanBack_of_clear hback.reverse, h.tail.1 id (about_of_upserts hold).1]
      rfl
    refine ⟨fun other hother => ?_, h.erase (fun _ => scanBack_cons_eq_none hbar)⟩
    obtain rfl : id = other := by
      rw [hwork] at hother
      exact some.inj hother
    exact hscan
  | announced => simpa using h
  | kept =>
    simp only [Tidy, Bool.false_eq_true, if_false, reverse_append, reverse_cons, reverse_nil,
      nil_append, singleton_append]
    refine ⟨fun id hid => ?_, h⟩
    simpa [upsertSlot] using upsertSlot_of_kept hr hid

end Tidy

theorem coalesce_same {shows : Incoming Id → Option Content} {items : List (Item Id Nat)} {item}
    (htidy : Tidy items) (hdisp : ∀ y ∈ items, y.work.isDisplay) (hitem : item.work.isDisplay)
    (v : View Id) :
    View.Same (((coalesce items item).1 ++ if (coalesce items item).2 then [] else [item]).foldl
      (View.apply shows) v) ((items.foldl (View.apply shows) v).apply shows item) := by
  have hcase := coalesce_cases items item
  generalize coalesce items item = r at hcase
  -- what stands behind the upsert in question is about some other notification
  have hoth : ∀ {id : Id} {front back : List (Item Id Nat)} {old : Item Id Nat},
      items = front ++ old :: back → old.work.upserts id → Clear id back → ∀ y ∈ back, ∃ other,
      y.work.about = some other ∧ id ≠ other := by
    intro id front back old hspl hold hback y hy
    have htidy' : TidyBack (back.reverse ++ old :: front.reverse) :=
      by simpa [Tidy, hspl] using htidy
    have hne := htidy'.others (upserts_not_barrier hold) hold hback.reverse y (mem_reverse.mpr hy)
    have hbar := (hback y hy).1
    have hd := hdisp y (by simp [hspl, hy])
    cases hw : y.work with
    | upsert incoming => exact ⟨incoming.id, rfl, fun heq => hne (by rw [hw, heq]; rfl)⟩
    | remove other => exact ⟨other, rfl, fun heq => hne (by rw [hw, heq]; rfl)⟩
    | sync | closeAll | lockChanged => simp [hw, isBarrier] at hbar
    | _ => simp [hw, isDisplay] at hd
  cases hcase with
  | replaced incoming _ _ _ hwork hspl hold hback =>
    have hnew : item.work.about = some incoming.id := by rw [hwork]; rfl
    rw [if_pos rfl, append_nil, hspl]
    refine foldl_replaced (fun _ _ a h => h.apply a) (View.apply_absorbs (about_of_upserts hold).1
      hnew) (fun y hy => ?_) v
    obtain ⟨_, habout, hne⟩ := hoth hspl hold hback y hy
    exact View.apply_commutes hnew habout hne
  | superseded id _ _ _ hwork hspl hold hback =>
    have hold' := (about_of_upserts hold).1
    have hnew : item.work.about = some id := by rw [hwork]; rfl
    rw [if_neg (by simp), hspl]
    refine foldl_superseded (View.apply_absorbs hold' hnew) (fun y hy => ?_) v
    obtain ⟨_, habout, hne⟩ := hoth hspl hold hback y hy
    exact View.apply_commutes hold' habout hne
  | announced hwork =>
    rw [hwork] at hitem
    cases hitem
  | kept =>
    rw [if_neg (by simp), foldl_append]
    exact .refl _

end OmniBridge.Sink
