import OmniBridge.SinkWindow

/-! Snapshots from the source's messages to the mirrors they close. What the worker
has seen of an open bracket is named in it, has no mirror or is in its hands, and a
bracket belongs to one session, so the END closes only what the source left out. -/

namespace OmniBridge.Sink

open List Option MirrorTable Sink.Task Window

variable {Id : Type} [LinearOrder Id]

variable {t : MirrorTable Id}

theorem MirrorTable.get_remove_eq_none (id : Id) {other} (h : t.get other = none) :
    (t.remove id).1.get other = none := by
  by_cases hid : other = id
  · simp [hid]
  · rw [get_remove_of_ne hid, h]

theorem MirrorTable.get_modify_eq_none (id : Id) (f : MirrorEntry → MirrorEntry) {other}
    (h : t.get other = none) : (t.modify id f).get other = none := by
  by_cases hid : other = id
  · subst hid
    rw [get_modify_self, h]
    rfl
  · rw [get_modify_of_ne hid, h]

def Task.concerns : Task Id → Set Id
  | .upsertGranted incoming _ | .upsertSourced incoming _ | .upsertPresented incoming _ =>
    {incoming.id}
  | .removeGranted id | .removeSourced id => {id}
  | .closing _ ids _ => {id | id ∈ ids}
  | _ => ∅

/-- An END will not close these: they are named, have no mirror, or are in the worker's hands. -/
def seen (t : MirrorTable Id) (task : Task Id) (named : Finset Id) : Set Id :=
  {id | id ∈ named ∨ t.get id = none ∨ id ∈ task.concerns}

theorem seen_mono {t' task task' named named'} (hnam : named ⊆ named')
    (hget : ∀ id, t.get id = none → t'.get id = none ∨ id ∈ named')
    (htask : ∀ id ∈ task.concerns, id ∈ seen t' task' named') :
    seen t task named ⊆ seen t' task' named' := by
  rintro id (hid | hid | hid)
  · exact .inl (hnam hid)
  · rcases hget id hid with hid | hid
    · exact .inr (.inl hid)
    · exact .inl hid
  · exact htask id hid

def Task.Lawful (received : List (Nat × Control Id)) (state : PeerState Id) : Task Id → Prop
  | .displaying incoming _ _ | .displayed incoming _ _ =>
    ∀ o ∈ state.snapshot, incoming.id ∈ o.named
  | .reconciling named mark =>
    ∀ id, id ∉ named → state.mirrors.get id ≠ none → Justified received id mark
  | .sweeping stale mark | .closing _ _ (.sweep stale mark) =>
    ∀ id ∈ stale, Justified received id mark
  | _ => True

namespace Slot

def window (s : Slot Id) (first : Nat) : Window Id :=
  s.state.snapshot.map (fun o => (first, seen s.state.mirrors s.task o.named))

/-- All markers that are pending or open are of one session, the one that is attached,
and no upsert since the BEGIN is lost. -/
structure Bracketed (s : Slot Id) (i : Nat) : Prop where
  single : ∀ j, s.sessions[j]? = some .attached → j = i
  markers : ∀ item ∈ s.pending, ∀ marker, item.work = .sync marker →
    s.received[item.mark]? = some (i, .sync marker)
  window : ∃ first, (∀ o ∈ s.state.snapshot,
    s.received[first]? = some (i, .sync ⟨o.syncId, .phaseBegin⟩)) ∧
    Pending s.received (s.window first) s.pending
  lawful : s.task.Lawful s.received s.state
  swept : ∀ q ∈ s.swept, Justified s.received q.1 q.2

variable {i mark : Nat} {x : Texts} {e : Reading} {s t : Slot Id} {control : Control Id}
  {marker : SyncMarker} {item : Item Id Nat} {rest : List (Item Id Nat)}

theorem Bracketed.update (hs : Bracketed s i)
    (hsess : ∀ j : Nat, t.sessions[j]? = some Stage.attached →
      s.sessions[j]? = some Stage.attached) (hrec : t.received = s.received)
    (hpending : t.pending = s.pending)
    (hsnapsh : ∀ o' ∈ t.state.snapshot, ∃ o ∈ s.state.snapshot, o.syncId = o'.syncId ∧
      seen s.state.mirrors s.task o.named ⊆ seen t.state.mirrors t.task o'.named)
    (hlaw : t.task.Lawful s.received t.state)
    (hswept : ∀ q ∈ t.swept, Justified s.received q.1 q.2) : Bracketed t i := by
  obtain ⟨first, hbegin, hpend⟩ := hs.window
  have hcov : (s.window first).Covers (t.window first) := by
    intro _ hp'
    obtain ⟨o', ho', rfl⟩ := map_eq_some_iff.mp hp'
    obtain ⟨o, ho, -, hsub⟩ := hsnapsh o' ho'
    exact ⟨_, map_eq_some_iff.mpr ⟨o, ho, rfl⟩, rfl, hsub⟩
  refine ⟨fun j hj => hs.single j (hsess j hj), ?_, ⟨first, fun o' ho' => ?_, ?_⟩, ?_, ?_⟩
  · rw [hpending, hrec]
    exact hs.markers
  · obtain ⟨o, ho, hid, -⟩ := hsnapsh o' ho'
    rw [hrec, ← hid]
    exact hbegin o ho
  · rw [hrec, hpending]
    exact hpend.mono hcov
  · rw [hrec]
    exact hlaw
  · rw [hrec]
    exact hswept

theorem Lawful.weaken {received : List (Nat × Control Id)} {state state'} {task : Task Id}
    (hsnapsh : state'.snapshot = state.snapshot ∨ state'.snapshot = none)
    (hmirr : ∀ id, state.mirrors.get id = none → state'.mirrors.get id = none)
    (h : task.Lawful received state) : task.Lawful received state' := by
  have hnam : ∀ {id : Id}, (∀ o ∈ state.snapshot, id ∈ o.named) → ∀ o ∈ state'.snapshot,
      id ∈ o.named := by
    intro _ hid o ho
    rcases hsnapsh with heq | hnone
    · exact hid o (heq ▸ ho)
    · rw [hnone] at ho
      cases ho
  cases task with
  | displaying | displayed => exact hnam h
  | reconciling => exact fun id hid hget => h id hid (fun hnone => hget (hmirr id hnone))
  | closing _ _ rest => cases rest <;> exact h
  | _ => exact h

theorem Bracketed.beside (hs : Bracketed s i)
    (hsess : ∀ j : Nat, t.sessions[j]? = some Stage.attached →
      s.sessions[j]? = some Stage.attached) (hrec : t.received = s.received)
    (hpending : t.pending = s.pending) (htask : t.task = s.task) (hswept : t.swept = s.swept)
    (hsnapsh : t.state.snapshot = s.state.snapshot ∨ t.state.snapshot = none)
    (hmirr : ∀ id, s.state.mirrors.get id = none → t.state.mirrors.get id = none) :
    Bracketed t i := by
  refine hs.update hsess hrec hpending (fun o' ho' => ?_) ?_ ?_
  · rcases hsnapsh with heq | hnone
    · refine ⟨o', heq ▸ ho', rfl, seen_mono subset_rfl (fun id hid => .inl (hmirr id hid))
        (fun id hid => ?_)⟩
      exact .inr (.inr (htask ▸ hid))
    · rw [hnone] at ho'
      cases ho'
  · rw [htask]
    exact Lawful.weaken hsnapsh hmirr hs.lawful
  · rw [hswept]
    exact hs.swept

theorem Bracketed.offer {s : Slot Id} {i} (hs : Bracketed s i)
    (hlt : s.queue.items.length < MAX_QUEUED_WORK) {work : Work Id} {mark}
    (hmarker : work.marker = none) : Bracketed (s.offer work mark) i := by
  obtain ⟨first, hbegin, hpend⟩ := hs.window
  obtain ⟨hsound, hafter⟩ := @offer_window _ _ _ _ hlt _ ⟨work, mark⟩ _ hpend.sound
    (by simp [hmarker])
  refine ⟨hs.single, fun item hitem marker hw => ?_,
    ⟨first, hbegin, hsound, ?_⟩, hs.lawful, hs.swept⟩
  · rcases mem_append.mp hitem with hin | hin
    · exact hs.markers item (mem_append_left _ hin) marker hw
    rcases WorkQueue.mem_offer hin with rfl | hin
    · obtain rfl : work = .sync marker := hw
      cases hmarker
    · exact hs.markers item (mem_append_right _ hin) marker hw
  · change Caught s.received
      ((s.window first).afterAll (s.batch ++ (s.queue.offer ⟨work, mark⟩).1.items))
      s.received.length
    rw [hafter]
    exact hpend.caught.mono (covers_after _ (Work.opens_of_unmarked hmarker))

theorem Lawful.receive {received : List (Nat × Control Id)} {state} {task : Task Id}
    (r : Nat × Control Id) (h : task.Lawful received state) :
    task.Lawful (received ++ [r]) state := by
  cases task with
  | reconciling => exact fun id hid hget => (h id hid hget).receive
  | sweeping => exact fun id hid => (h id hid).receive
  | closing _ _ rest =>
    cases rest with
    | sweep => exact fun id hid => (h id hid).receive
    | _ => trivial
  | _ => exact h

section

variable (hs : Bracketed s i)
include hs

theorem Bracketed.marker_lt (hitem : item ∈ s.pending) (hm : item.work.marker.isSome) :
    item.mark < s.received.length := by
  obtain ⟨work, _⟩ := item
  cases work with
  | sync marker => exact (List.getElem?_eq_some_iff.mp (hs.markers _ hitem marker rfl)).1
  | _ => cases hm

theorem Bracketed.note (hno : ∀ incoming, control ≠ .upsert incoming) :
    Bracketed { s with received := s.received ++ [(i, control)] } i := by
  obtain ⟨first, hbegin, hpend⟩ := hs.window
  refine ⟨hs.single, fun item hitem marker hw => ?_, ⟨first, fun o ho => ?_, ?_, ?_⟩,
    Lawful.receive _ hs.lawful, fun q hq => (hs.swept q hq).receive⟩
  · exact getElem?_concat_of_eq_some (hs.markers item hitem marker hw) _
  · exact getElem?_concat_of_eq_some (hbegin o ho) _
  · exact sound_received (fun item hitem hm => Nat.le_of_lt (hs.marker_lt hitem hm)) hpend.sound
  · exact hpend.caught.receive (fun incoming hup => absurd hup (hno incoming))

theorem Bracketed.accept (hlt : s.queue.items.length < MAX_QUEUED_WORK) {work : Work Id}
    (hsync : ∀ marker, work = .sync marker → control = .sync marker)
    (hup : ∀ incoming, control = .upsert incoming → work.about = some incoming.id) :
    Bracketed ({ s with received := s.received ++ [(i, control)] }.offer work s.received.length)
      i := by
  obtain ⟨first, hbegin, hpend⟩ := hs.window
  obtain ⟨hsound, hafter⟩ := @offer_window _ _ _ _ hlt _ ⟨work, s.received.length⟩ _ hpend.sound
    (fun _ => hpend.caught)
  have hmem : ∀ item ∈ s.batch ++ (s.queue.offer ⟨work, s.received.length⟩).1.items,
      item = ⟨work, s.received.length⟩ ∨ item ∈ s.pending := by
    intro _ hitem
    rcases mem_append.mp hitem with hin | hin
    · exact .inr (mem_append_left _ hin)
    · rcases WorkQueue.mem_offer hin with heq | hin
      · exact .inl heq
      · exact .inr (mem_append_right _ hin)
  refine ⟨hs.single, fun item hitem marker hw => ?_, ⟨first, fun o ho => ?_, ?_, ?_⟩,
    Lawful.receive _ hs.lawful, fun q hq => (hs.swept q hq).receive⟩
  · rcases hmem item hitem with rfl | hin
    · obtain rfl := hsync marker hw
      exact getElem?_concat_length
    · exact getElem?_concat_of_eq_some (hs.markers item hin marker hw) _
  · exact getElem?_concat_of_eq_some (hbegin o ho) _
  · refine sound_received (fun item hitem hm => ?_) hsound
    rcases hmem item hitem with rfl | hin
    · exact Nat.le_refl _
    · exact Nat.le_of_lt (hs.marker_lt hin hm)
  · change Caught (s.received ++ [(i, control)])
      ((s.window first).afterAll (s.batch ++ (s.queue.offer ⟨work, s.received.length⟩).1.items)) _
    rw [hafter]
    cases ho : work.opens with
    | true =>
      rw [after_of_opens ho]
      exact caught_begin
    | false =>
      refine (hpend.caught.mono (covers_after _ ho)).receive (fun incoming hcont p hp => ?_)
      rw [after_of_not_opens ho] at hp
      obtain ⟨_, -, rfl⟩ := map_eq_some_iff.mp hp
      exact .inr (hup incoming hcont)

theorem Bracketed.withState {state}
    (hsnapsh : state.snapshot = s.state.snapshot ∨ state.snapshot = none)
    (hmirr : ∀ id, s.state.mirrors.get id = none → state.mirrors.get id = none) :
    Bracketed (s.withState state) i :=
  hs.beside (fun _ hj => hj) rfl rfl rfl rfl hsnapsh hmirr

theorem receive_bracketed (hlt : s.queue.items.length < MAX_QUEUED_WORK)
    {policy : NotificationPolicy}
    (hgrant : ∀ incoming, control = .upsert incoming → policy.isDenied = false) :
    Bracketed (s.receive i policy control) i := by
  unfold receive
  cases control with
  | roles announcement =>
    have hnote : Bracketed { s with received := s.received ++ [(i, .roles announcement)] } i :=
      hs.note (by simp)
    have hroles : ∀ roles, Bracketed
        ({ s with received := s.received ++ [(i, Control.roles announcement)] }.withState
        { s.state with peerRoles := roles }) i := fun roles =>
        hnote.withState (.inl rfl) (fun _ hid => hid)
    simp only [handleControl, applyPeerRoles]
    split
    · exact hnote
    · split
      · exact (hroles _).offer hlt rfl
      · exact hroles _
  | upsert incoming =>
    simp only [handleControl, hgrant incoming rfl]
    refine hs.accept hlt nofun (fun incoming' hup => ?_)
    obtain rfl := Control.upsert.inj hup
    rfl
  | remove =>
    simp only [handleControl]
    split
    · exact hs.note nofun
    · exact hs.accept hlt nofun nofun
  | sync =>
    simp only [handleControl]
    split
    · exact hs.note nofun
    · refine hs.accept hlt (fun marker' hw => ?_) nofun
      obtain rfl := Work.sync.inj hw
      rfl
  | dismiss => exact hs.note nofun
  | result declined =>
    have hnote : Bracketed { s with received := s.received ++ [(i, .result declined)] } i :=
      hs.note (by simp)
    simp only [handleControl]
    split
    · exact hnote.withState (.inl rfl) (fun _ hid => hid)
    · exact hnote

theorem attachState_bracketed (hlt : s.queue.items.length < MAX_QUEUED_WORK) {j : Nat}
    (hnone : ∀ stage ∈ s.sessions, stage ≠ .attached)
    (hmarkers : ∀ item ∈ s.pending, item.work.marker = none) : Bracketed (s.attachState j) j := by
  refine @Bracketed.offer _ _ ((s.withState s.state.attach).withStage j .attached) j ?_ hlt _ _ rfl
  refine ⟨fun k hk => ?_, fun item hitem marker hw => ?_, ⟨0, fun o ho => (by cases ho), ?_, ?_⟩,
    ?_, hs.swept⟩
  · by_contra hne
    have hk' : s.sessions[k]? = some .attached := by
      rw [← hk]
      exact (getElem?_set_ne (Ne.symm hne)).symm
    exact hnone _ (mem_of_getElem? hk') rfl
  · have hm := hmarkers item hitem
    rw [hw] at hm
    cases hm
  · exact sound_of_unmarked hmarkers _
  · change Caught s.received (afterAll none s.pending) _
    rw [afterAll_none hmarkers]
    exact nofun
  · exact @Lawful.weaken _ _ _ s.state s.state.attach _ (.inr rfl) (fun _ hid => hid) hs.lawful

end

def Ready (s : Slot Id) (e : Reading) : Prop :=
  match s.task, s.batch with
  | .idle, item :: _ => item.work.about.isSome → e.policy.isDenied = false
  | .upsertGranted _ _, _ | .removeGranted _, _ => s.state.peerRoles.has .source
  | _, _ => True

theorem proceed_history (x : Texts) (e) (s : Slot Id) (task) :
    (s.proceed x e task).sessions = s.sessions ∧ (s.proceed x e task).received = s.received := by
  fun_cases Slot.proceed x e s task <;> exact ⟨rfl, rfl⟩

theorem start_history (s : Slot Id) (e) (item : Item Id Nat) :
    (s.start e item).sessions = s.sessions ∧ (s.start e item).received = s.received ∧
      (s.start e item).swept = s.swept := by
  fun_cases Slot.start s e item <;> exact ⟨rfl, rfl, rfl⟩

theorem insertMirror_none {incoming presentation serverId} {contentHash id}
    (h : s.state.mirrors.get id = none) (hne : id ≠ incoming.id) :
    (s.insertMirror x incoming presentation serverId contentHash).1.get id = none := by
  generalize hr : s.insertMirror x incoming presentation serverId contentHash = r
  have hget := (get_insert (hr.trans rfl : _ = (r.1, r.2))).2.1 id hne
  rw [hget, h, ite_self]

def KeepsSeen (s t : Slot Id) : Prop :=
  ∀ o' ∈ t.state.snapshot, ∃ o ∈ s.state.snapshot, o.syncId = o'.syncId ∧
    seen s.state.mirrors s.task o.named ⊆ seen t.state.mirrors t.task o'.named

omit [LinearOrder Id] in
theorem mem_upsert [DecidableEq Id] {snapshot : Snapshot Id} {id} {o : OpenSnapshot Id}
    (h : o ∈ (snapshot.upsert id).1) :
    ∃ o', snapshot = some o' ∧ { o' with named := insert id o'.named } = o := by
  cases snapshot with
  | none => cases h
  | some o' => exact ⟨o', rfl, some.inj h⟩

theorem keepsSeen_of_none (hsnapsh : t.state.snapshot = s.state.snapshot)
    (hget : ∀ id, s.state.mirrors.get id = none → t.state.mirrors.get id = none)
    (hconc : ∀ id ∈ s.task.concerns, t.state.mirrors.get id = none ∨ id ∈ t.task.concerns) :
    KeepsSeen s t := by
  intro o' ho'
  refine ⟨o', hsnapsh ▸ ho', rfl, seen_mono subset_rfl (fun id hid => .inl (hget id hid))
    (fun id hid => ?_)⟩
  exact .inr (hconc id hid)

theorem keepsSeen_of_insert {incoming presentation serverId} {contentHash}
    (hmirr : t.state.mirrors = (s.insertMirror x incoming presentation serverId contentHash).1)
    (hsnapsh : t.state.snapshot = s.state.snapshot)
    (hnam : ∀ o ∈ s.state.snapshot, incoming.id ∈ o.named) (hconc : s.task.concerns = ∅) :
    KeepsSeen s t := by
  intro o' ho'
  rw [hsnapsh] at ho'
  refine ⟨o', ho', rfl, seen_mono subset_rfl (fun id hid => ?_) (fun id hid =>
    by simp [hconc] at hid)⟩
  by_cases heq : id = incoming.id
  · exact .inr (heq ▸ hnam o' ho')
  · rw [hmirr]
    exact .inl (insertMirror_none hid heq)

theorem dropMirror_keepsSeen {id ids rest}
    (hconc : ∀ other ∈ s.task.concerns, other = id ∨ other ∈ ids) :
    KeepsSeen s (s.dropMirror id ids rest) := by
  refine keepsSeen_of_none rfl (fun other hnone => get_remove_eq_none id hnone)
    (fun other hoth => ?_)
  rcases hconc other hoth with rfl | hin
  · exact .inl (get_remove_self _ _)
  · exact .inr hin

theorem proceed_keepsSeen (hlaw : s.task.Lawful s.received s.state) (hready : s.Ready e) :
    KeepsSeen s (s.proceed x e s.task) := by
  unfold Ready at hready
  have hquiet : ∀ t : Slot Id, t.state.snapshot = s.state.snapshot →
      t.state.mirrors = s.state.mirrors → (∀ id ∈ s.task.concerns, id ∈ t.task.concerns) →
      KeepsSeen s t :=
    fun t hsnapsh hmirr hconc =>
      keepsSeen_of_none hsnapsh (fun id hid => hmirr ▸ hid) (fun id hid =>
        .inr (hconc id hid))
  cases htask : s.task with
  | idle | announcing | announced | displaying | dismissing | reconciling | lockStored
  | lockNoted | redisplaying =>
    exact hquiet _ rfl rfl (by simp [htask, concerns])
  | upsertGranted =>
    rw [htask] at hready
    refine hquiet _ rfl rfl ?_
    simp only [proceed, withTask, htask, hready, Bool.not_true, Bool.false_eq_true, if_false]
    split <;> simp [concerns]
  | upsertSourced =>
    refine hquiet _ rfl rfl ?_
    simp only [proceed, withTask, htask]
    split <;> simp [concerns]
  | upsertPresented =>
    intro _ ho'
    obtain ⟨o, hsnap, rfl⟩ := mem_upsert ho'
    refine ⟨o, hsnap, rfl, seen_mono (Finset.subset_insert _ _) (fun id hid => .inl hid)
      (fun id hid => ?_)⟩
    rw [htask] at hid
    exact .inl (by simpa [concerns] using .inl hid)
  | displayed _ _ answer =>
    rw [htask] at hlaw
    cases answer with
    | _ => exact keepsSeen_of_insert rfl rfl hlaw (by simp [htask, concerns])
  | removeGranted =>
    rw [htask] at hready
    refine hquiet _ rfl rfl ?_
    simp [proceed, withTask, htask, hready, concerns]
  | removeSourced => exact dropMirror_keepsSeen (by simp [htask, concerns])
  | sweeping stale mark =>
    cases stale with
    | nil => exact hquiet _ rfl rfl (by simp [htask, concerns])
    | cons id stale =>
      have hdrop : KeepsSeen s (s.dropMirror id [] (.sweep stale mark)) :=
        dropMirror_keepsSeen (by simp [htask, concerns])
      exact hdrop
  | lockResolved presentation =>
    cases presentation <;> exact hquiet _ rfl rfl (by simp [htask, concerns])
  | reducing affected =>
    have hnone : s.task.concerns = ∅ := by simp [htask, concerns]
    cases affected with
    | nil => exact hquiet _ rfl rfl (by simp [hnone])
    | cons =>
      simp only [proceed]
      split
      · exact hquiet _ rfl rfl (by simp [hnone])
      · split
        · exact keepsSeen_of_none rfl (fun id hid => get_modify_eq_none _ _ hid) (by simp [hnone])
        · exact hquiet _ rfl rfl (by simp [hnone])
  | redisplayed id answer =>
    have hnone : s.task.concerns = ∅ := by simp [htask, concerns]
    cases answer with
    | ok => exact keepsSeen_of_none rfl (fun id hid => get_modify_eq_none _ _ hid) (by simp [hnone])
    | error => exact hquiet _ rfl rfl (by simp [hnone])
  | closing serverIds ids =>
    cases serverIds with
    | cons => exact hquiet _ rfl rfl (by simp [htask, proceed, withTask, concerns])
    | nil =>
      cases ids with
      | nil => exact hquiet _ rfl rfl (by simp [htask, concerns])
      | cons => exact dropMirror_keepsSeen (by simp [htask, concerns])

theorem proceed_lawful (h : s.task.Lawful s.received s.state) :
    (s.proceed x e s.task).task.Lawful s.received (s.proceed x e s.task).state := by
  cases htask : s.task with
  | idle => simp [proceed, htask, Task.Lawful]
  | announcing | upsertSourced | removeGranted | lockStored | lockNoted =>
    simp only [proceed, withTask]
    split <;> trivial
  | upsertGranted =>
    simp only [proceed, withTask]
    split
    · trivial
    · split <;> trivial
  | upsertPresented =>
    simp only [proceed, withTask]
    split
    · trivial
    · intro _ ho'
      obtain ⟨o, -, rfl⟩ := mem_upsert ho'
      exact Finset.mem_insert_self _ _
  | displaying =>
    rw [htask] at h
    exact h
  | displayed _ _ answer =>
    cases answer with
    | ok =>
      simp only [proceed, withTask]
      split <;> trivial
    | error => trivial
  | reconciling =>
    rw [htask] at h
    intro id hid
    obtain ⟨⟨_, hget⟩, hnam⟩ := mem_notNamedIn.mp hid
    exact h id hnam (by simp [hget])
  | sweeping stale =>
    rw [htask] at h
    cases stale with
    | nil => trivial
    | cons => exact fun other hoth => h other (mem_cons_of_mem _ hoth)
  | lockResolved presentation => cases presentation <;> trivial
  | reducing affected =>
    cases affected with
    | nil => trivial
    | cons =>
      simp only [proceed]
      split
      · trivial
      · split <;> trivial
  | redisplayed _ answer => cases answer <;> trivial
  | closing serverIds ids rest =>
    rw [htask] at h
    cases serverIds with
    | cons => cases rest <;> exact h
    | nil =>
      cases ids with
      | _ => cases rest <;> exact h
  | _ => trivial

theorem proceed_swept (h : s.task.Lawful s.received s.state)
    (hs : ∀ q ∈ s.swept, Justified s.received q.1 q.2) :
    ∀ q ∈ (s.proceed x e s.task).swept, Justified s.received q.1 q.2 := by
  cases htask : s.task with
  | sweeping stale =>
    rw [htask] at h
    cases stale with
    | nil => exact hs
    | cons id =>
      intro q hq
      rcases mem_append.mp hq with hq | hq
      · exact hs q hq
      · obtain ⟨_, -, rfl⟩ := mem_map.mp hq
        exact h id mem_cons_self
  | displayed _ _ answer | redisplayed _ answer => cases answer <;> exact hs
  | lockResolved presentation => cases presentation <;> exact hs
  | reducing affected =>
    cases affected with
    | nil => exact hs
    | cons =>
      simp only [proceed]
      split
      · exact hs
      · split <;> exact hs
  | closing serverIds ids =>
    cases serverIds with
    | cons => exact hs
    | nil => cases ids <;> exact hs
  | _ => exact hs

theorem proceed_bracketed (hs : Bracketed s i) (hready : s.Ready e) :
    Bracketed (s.proceed x e s.task) i := by
  obtain ⟨hqueue, hbat⟩ := proceed_frame x e s s.task
  obtain ⟨hsess, hrec⟩ := proceed_history x e s s.task
  have hpending : (s.proceed x e s.task).pending = s.pending :=
    by rw [pending, hqueue, hbat, pending]
  exact hs.update (fun j hj => hsess ▸ hj) hrec hpending (proceed_keepsSeen hs.lawful hready)
    (proceed_lawful hs.lawful) (proceed_swept hs.lawful hs.swept)

theorem Bracketed.taken (hs : Bracketed s i) (hbat : s.batch = item :: rest)
    (hsess : t.sessions = s.sessions) (hrec : t.received = s.received) (hswept : t.swept = s.swept)
    (hpending : t.pending = rest ++ s.queue.items)
    (hwind : ∀ first, (∀ o ∈ s.state.snapshot,
      s.received[first]? = some (i, .sync ⟨o.syncId, .phaseBegin⟩)) → ∃ first',
      (∀ o ∈ t.state.snapshot, s.received[first']? = some (i, .sync ⟨o.syncId, .phaseBegin⟩)) ∧
      ((s.window first).after item).Covers (t.window first'))
    (hlaw : t.task.Lawful s.received t.state) : Bracketed t i := by
  have hall : s.pending = item :: (rest ++ s.queue.items) := by rw [pending, hbat]; rfl
  obtain ⟨first, hbegin, hpend⟩ := hs.window
  rw [hall] at hpend
  obtain ⟨first', hbegin', hcov⟩ := hwind first hbegin
  refine ⟨fun j hj => hs.single j (hsess ▸ hj), ?_, ⟨first', ?_, ?_⟩, ?_, ?_⟩
  · rw [hpending, hrec]
    intro y hy
    exact hs.markers y (by rw [hall]; exact mem_cons_of_mem _ hy)
  · rw [hrec]
    exact hbegin'
  · rw [hrec, hpending]
    exact hpend.head.mono hcov
  · rw [hrec]
    exact hlaw
  · rw [hrec, hswept]
    exact hs.swept

theorem after_covers {s t : Slot Id} {item} (htask : s.task = .idle)
    (hopens : item.work.opens = false)
    (hsnapsh : t.state.snapshot = s.state.snapshot ∨ t.state.snapshot = none)
    (hmirr : ∀ id, s.state.mirrors.get id = none → t.state.mirrors.get id = none)
    (habout : ∀ id, item.work.about = some id → id ∈ t.task.concerns) (first : Nat) :
    ((s.window first).after item).Covers (t.window first) := by
  intro _ hp'
  obtain ⟨o, ho, rfl⟩ := map_eq_some_iff.mp hp'
  have ho' : s.state.snapshot = some o := by
    rcases hsnapsh with heq | hnone
    · rw [← heq, ho]
    · rw [hnone] at ho
      cases ho
  refine ⟨(first, seen s.state.mirrors s.task o.named ∪ {id | item.work.about = some id}),
    ?_, rfl, ?_⟩
  · rw [after_of_not_opens hopens, window, ho']
    rfl
  · refine Set.union_subset ?_ (fun id hid => .inr (.inr (habout id hid)))
    refine seen_mono subset_rfl (fun other hoth => .inl (hmirr other hoth)) (fun other hoth => ?_)
    rw [htask] at hoth
    cases hoth

section

variable (hs : Bracketed s i) (htask : s.task = .idle)
include hs htask

theorem start_complete {named} (hbat : s.batch = ⟨.sync marker, mark⟩ :: rest)
    (h : (s.state.snapshot.marker marker).2 = .complete named) :
    Bracketed ({ s with batch := rest }.start e ⟨.sync marker, mark⟩) i := by
  obtain ⟨hph, hsnap⟩ := Snapshot.marker_complete h
  have hmarker : marker = ⟨marker.syncId, .phaseEnd⟩ := by rw [← hph]
  have hpending : s.pending = ⟨.sync marker, mark⟩ :: (rest ++ s.queue.items) :=
    by rw [pending, hbat]; rfl
  have hmark := hs.markers ⟨.sync marker, mark⟩ (by rw [hpending]; exact mem_cons_self) marker rfl
  have hnone : (s.state.mark marker e.now).snapshot = none := by
    simp [PeerState.mark, Snapshot.marker, hph, hsnap]
  have hcl : ∀ o, (s.state.mark marker e.now).snapshot ≠ some o := fun o ho => by
    rw [hnone] at ho
    cases ho
  simp only [start, h]
  refine hs.taken hbat rfl rfl rfl rfl (fun _ _ => ⟨0, fun o ho => absurd ho (hcl o),
    fun p' hp' => ?_⟩) ?_
  · obtain ⟨o, ho, -⟩ := map_eq_some_iff.mp hp'
    exact absurd ho (hcl o)
  · intro id hnam hget
    obtain ⟨first, hbegin, hpend⟩ := hs.window
    rw [hpending] at hpend
    have hwind : s.window first = some (first, seen s.state.mirrors s.task named) :=
      by rw [window, hsnap]; rfl
    obtain ⟨hlt, hcaught⟩ := hpend.sound.1 rfl _ hwind
    refine ⟨i, marker.syncId, first, hlt, hbegin _ hsnap, hmarker ▸ hmark,
      fun k incoming hk hk' hup hid => ?_⟩
    rcases hcaught id ⟨k, i, incoming, hk, hk', hup, hid⟩ with hin | hin | hin
    · exact hnam hin
    · exact hget hin
    · rw [htask] at hin
      cases hin

theorem start_marker (hbat : s.batch = ⟨.sync marker, mark⟩ :: rest)
    (h : ∀ named, (s.state.snapshot.marker marker).2 ≠ .complete named) :
    Bracketed ({ s with batch := rest }.start e ⟨.sync marker, mark⟩) i := by
  have hin : (⟨.sync marker, mark⟩ : Item Id Nat) ∈ s.pending := by simp [pending, hbat]
  have hmark := hs.markers _ hin marker rfl
  have hlaw : s.task.Lawful s.received (s.state.mark marker e.now) := by
    rw [htask]
    trivial
  simp only [start]
  by_cases hph : marker.phase = .phaseBegin
  · have hmarker : marker = ⟨marker.syncId, .phaseBegin⟩ := by rw [← hph]
    have hsnap : (s.state.mark marker e.now).snapshot = some ⟨marker.syncId, ∅⟩ := by
      simp [PeerState.mark, Snapshot.marker, hph]
    refine hs.taken hbat rfl rfl rfl rfl (fun first _ => ⟨mark, fun o ho => ?_, fun p' hp' => ?_⟩)
      hlaw
    · obtain rfl : (⟨marker.syncId, ∅⟩ : OpenSnapshot Id) = o := some.inj (hsnap.symm.trans ho)
      exact hmarker ▸ hmark
    · obtain ⟨o, _, rfl⟩ := map_eq_some_iff.mp hp'
      refine ⟨(mark, ∅), ?_, rfl, Set.empty_subset _⟩
      exact after_of_opens (by simp [Work.opens, hph])
  · have hsnap : (s.state.mark marker e.now).snapshot = s.state.snapshot :=
      Snapshot.marker_unchanged hph h
    refine hs.taken hbat rfl rfl rfl rfl (fun first hbegin => ⟨first, fun o ho => ?_, ?_⟩) hlaw
    · exact hbegin o (hsnap ▸ ho)
    · have hopens : (⟨.sync marker, mark⟩ : Item Id Nat).work.opens = false :=
        by simp [Work.opens, hph]
      exact @after_covers _ _ s (({ s with batch := rest } : Slot Id).withState
        (s.state.mark marker e.now)) _ htask hopens (.inl hsnap) (fun _ hid => hid) nofun first

theorem start_bracketed (hbat : s.batch = item :: rest) (hready : s.Ready e) :
    Bracketed ({ s with batch := rest }.start e item) i := by
  obtain ⟨hqueue, hrest, -⟩ := start_frame { s with batch := rest } e item
  obtain ⟨hsess, hrec, hswept⟩ := start_history { s with batch := rest } e item
  have hpending : ({ s with batch := rest }.start e item).pending = rest ++ s.queue.items :=
    by rw [pending, hqueue, hrest]
  obtain ⟨work, mark⟩ := item
  simp only [Ready, htask, hbat] at hready
  -- work that is no marker: the slot changes only in the task, or loses the snapshot
  have hoth : ∀ t, { s with batch := rest }.start e ⟨work, mark⟩ = t → work.opens = false →
      (t.state.snapshot = s.state.snapshot ∨ t.state.snapshot = none) →
      (∀ id, s.state.mirrors.get id = none → t.state.mirrors.get id = none) →
      (∀ id, work.about = some id → id ∈ t.task.concerns) → t.task.Lawful s.received t.state →
      Bracketed ({ s with batch := rest }.start e ⟨work, mark⟩) i := by
    rintro t rfl hopens hsnapsh hmirr habout hlaw
    refine hs.taken hbat hsess hrec hswept hpending (fun first hbegin =>
      ⟨first, fun o ho => ?_, ?_⟩) hlaw
    · rcases hsnapsh with heq | hnone
      · exact hbegin o (heq ▸ ho)
      · rw [hnone] at ho
        cases ho
    · exact after_covers htask hopens hsnapsh hmirr habout first
  have hidle : ∀ state : PeerState Id, s.task.Lawful s.received state := fun state => by
    rw [htask]
    trivial
  cases work with
  | sync marker =>
    by_cases hc : ∃ named, (s.state.snapshot.marker marker).2 = .complete named
    · obtain ⟨_, hc⟩ := hc
      exact start_complete hs htask hbat hc
    · exact start_marker hs htask hbat (fun named hn => hc ⟨named, hn⟩)
  | upsert incoming =>
    have hgrant := hready rfl
    refine hoth (({ s with batch := rest } : Slot Id).withTask (.upsertGranted incoming e.policy))
      ?_ rfl (.inl rfl) (fun _ hid => hid) ?_ trivial
    · simp [start, hgrant]
    · rintro _ ⟨⟩
      exact Set.mem_singleton _
  | remove id =>
    have hgrant := hready rfl
    refine hoth (({ s with batch := rest } : Slot Id).withTask (.removeGranted id)) ?_ rfl
      (.inl rfl) (fun _ hid => hid) ?_ trivial
    · simp [start, hgrant]
    · rintro _ ⟨⟩
      exact Set.mem_singleton _
  | announceRoles | dismiss =>
    refine hoth _ rfl rfl ?_ ?_ (by simp [Work.about]) ?_ <;>
    · simp only [start]
      split <;> first | exact .inl rfl | exact fun _ hid => hid | exact hidle _ | trivial
  | lockChanged =>
    exact hoth _ rfl rfl (.inl rfl) (fun _ hid => hid) (by simp [Work.about]) trivial
  | closeAll =>
    exact hoth _ rfl rfl (.inr rfl) (fun id _ => get_drain _ id) (by simp [Work.about]) trivial

end

/-- Every offer finds the queue below its ceiling; a session attaches when no other is
attached and no marker is pending; and the grant and the SOURCE role stand when an
upsert arrives and when an upsert or a removal is taken up. -/
def Steady (s : Slot Id) : Action Id → Prop
  | .work e => s.Ready e
  | .attachState _ => s.queue.items.length < MAX_QUEUED_WORK ∧
      (∀ stage ∈ s.sessions, stage ≠ .attached) ∧ ∀ item ∈ s.pending, item.work.marker = none
  | .receive _ policy control => s.queue.items.length < MAX_QUEUED_WORK ∧
      ((∃ incoming, control = .upsert incoming) → policy.isDenied = false)
  | .timerConnected _ | .serverGone | .serverBack | .lockSignal _ | .askRoles | .revoke =>
    s.queue.items.length < MAX_QUEUED_WORK
  | _ => True

theorem withStage_attached {j : Nat} {stage} (hst : stage ≠ .attached)
    (h : (s.withStage i stage).sessions[j]? = some .attached) :
    s.sessions[j]? = some .attached := by
  change (s.sessions.set i stage)[j]? = some .attached at h
  rw [getElem?_set] at h
  split at h
  · split at h
    · exact absurd (some.inj h) hst
    · cases h
  · exact h

theorem Bracketed.withStage (hs : Bracketed s i) (j : Nat) {stage : Stage}
    (hst : stage ≠ .attached) : Bracketed (s.withStage j stage) i :=
  hs.beside (fun _ hk => withStage_attached hst hk) rfl rfl rfl rfl (.inl rfl) (fun _ hid => hid)

theorem step_bracketed {a : Action Id} (hok : s.Steady a) (h : s.step x a = some t)
    (hs : ∃ i, Bracketed s i) : ∃ i, Bracketed t i := by
  obtain ⟨i, hs⟩ := hs
  cases step_cases h with
  | attachState j => exact ⟨j, attachState_bracketed hs hok.1 hok.2.1 hok.2.2⟩
  | receive j _ _ hatt =>
    obtain rfl := hs.single j hatt
    exact ⟨j, receive_bracketed hs hok.1 (fun incoming hup => hok.2 ⟨incoming, hup⟩)⟩
  | start e _ _ htask hbat => exact ⟨i, start_bracketed hs htask hbat hok⟩
  | proceed => exact ⟨i, proceed_bracketed hs hok⟩
  | drain e _ hbat =>
    refine ⟨i, hs.beside (fun _ hj => hj) rfl ?_ rfl rfl (.inl rfl) (fun _ hid => hid)⟩
    simp [pending, hbat, WorkQueue.drain]
  | attachGeneration =>
    refine ⟨i, hs.beside (fun j hj => ?_) rfl rfl rfl rfl (.inl rfl) (fun _ hid => hid)⟩
    change (s.sessions ++ [Stage.opened])[j]? = some .attached at hj
    rw [getElem?_append] at hj
    split at hj
    · exact hj
    · rw [getElem?_singleton] at hj
      split at hj <;> cases hj
  | attachSender j =>
    have hout : Bracketed { s with outbound := some j } i := { hs with }
    exact ⟨i, hout.withStage j (by simp)⟩
  | detachCheck j =>
    have hspent : Bracketed (s.withState s.state.spend) i :=
      hs.withState (.inl rfl) (fun _ hid => hid)
    unfold detachCheck
    split
    · exact ⟨i, hspent.withStage j (by simp)⟩
    · exact ⟨i, hs.withStage j (by simp)⟩
  | detachSender j =>
    have hout : Bracketed { s with outbound := none } i := { hs with }
    exact ⟨i, hout.withStage j (by simp)⟩
  | detachState j =>
    have hdet : Bracketed (s.withState s.state.detach) i :=
      hs.withState (.inr rfl) (fun _ hid => hid)
    have hover : Bracketed ((s.withState s.state.detach).withStage j .over) i :=
      hdet.withStage j (by simp)
    exact ⟨i, { hover with }⟩
  | timerGeneration | askPolicy => exact ⟨i, { hs with }⟩
  | timerConnected j =>
    have htimer : Bracketed { s with timers := s.timers.set j .done } i := { hs with }
    unfold timerConnected
    split
    · exact ⟨i, htimer⟩
    · exact ⟨i, htimer.offer hok rfl⟩
  | syncTimeout => exact ⟨i, hs.withState (.inr rfl) (fun _ hid => hid)⟩
  | serverGone | lockSignal | revoke => exact ⟨i, hs.offer hok rfl⟩
  | serverBack =>
    have hback : Bracketed (s.withState (s.state.withMirrors s.state.mirrors.invalidateServerIds))
        i := by
      refine hs.withState (.inl rfl) (fun id hid => ?_)
      exact (get_invalidateServerIds _ id).trans (by rw [hid]; rfl)
    exact ⟨i, hback.offer hok rfl⟩
  | noteClosed serverId =>
    unfold noteClosed
    rcases s.state.mirrors.forgetServerId_cases serverId with ⟨hf, -⟩ | ⟨id, _, -, -, hf⟩
    · rw [hf]
      exact ⟨i, hs⟩
    rw [hf]
    have hrem : Bracketed (s.withState (s.state.withMirrors (s.state.mirrors.remove id).1)) i :=
      hs.withState (.inl rfl) (fun other hoth => get_remove_eq_none id hoth)
    exact ⟨i, { hrem with }⟩
  | askRoles =>
    have hask : Bracketed { s with asking := none } i := { hs with }
    unfold askRoles
    split
    · exact ⟨i, hask.offer hok rfl⟩
    · exact ⟨i, hask⟩

theorem bracketed_start : Bracketed ({} : Slot Id) 0 := by
  refine ⟨fun j hj => ?_, fun item hitem => ?_, ⟨0, fun o ho => ?_, trivial, fun p hp => ?_⟩,
    trivial, fun q hq => ?_⟩
  · cases hj
  · cases hitem
  · cases ho
  · cases hp
  · cases hq

instance (s : Slot Id) (e : Reading) : Decidable (s.Ready e) := by
  unfold Ready
  split <;> infer_instance

instance (s : Slot Id) (a : Action Id) : Decidable (s.Steady a) := by
  unfold Steady
  induction a using Action.casesOn
  case receive _ policy control =>
    induction control using Control.casesOn
    case upsert =>
      exact decidable_of_iff (s.queue.items.length < MAX_QUEUED_WORK ∧
        policy.isDenied = false) (by simp)
    all_goals exact decidable_of_iff (s.queue.items.length < MAX_QUEUED_WORK) (by simp)
  all_goals infer_instance

/-- Where sessions do not overlap with the work of earlier ones and no upsert is turned
away, a completed snapshot closes only what its source did not name. -/
theorem swept_is_justified (x : Texts) {as : List (Action Id)} {s : Slot Id}
    (hrun : run (step x) {} as = some s) (hok : Meets (step x) Steady {} as) (id : Id) (mark : Nat)
    (hswept : (id, mark) ∈ s.swept) : Justified s.received id mark := by
  have hstep : ∀ (s : Slot Id) (a : Action Id) (t : Slot Id), s.Steady a → s.step x a = some t →
      (∃ i, Bracketed s i) → ∃ i, Bracketed t i := fun s a t hok h hs => step_bracketed hok h hs
  obtain ⟨i, hs⟩ := run_invariant (step x) hstep hrun hok ⟨0, bracketed_start⟩
  exact hs.swept _ hswept

def mirrorOfSource : List (Action Nat) :=
  [Action.attachGeneration, .attachSender 0, .attachState 0, .work {}, .work {}, .work {}, .work {},
    .receive 0 {} (.roles ⟨[1], 1⟩), .receive 0 {} (.upsert ⟨5, {}⟩)] ++ replicate 7 (.work {})

theorem swept_is_justified_unnamed :
    ∃ s, run (step .plain) {} (mirrorOfSource ++ [.receive 0 {} (.sync ⟨[9], .phaseBegin⟩),
      .receive 0 {} (.upsert ⟨6, {}⟩), .receive 0 {} (.sync ⟨[9], .phaseEnd⟩)] ++
      replicate 11 (.work {})) = some s ∧ s.swept = [(5, 4)] ∧ Justified s.received 5 4 := by
  refine exists_some_imp (P := fun s => s.swept = [(5, 4)]) ⟨_, rfl, by decide⟩ ?_
  exact fun s hrun hswept =>
    ⟨hswept, swept_is_justified .plain hrun (by decide) 5 4 (by simp [hswept])⟩

/-- The session ends with a whole snapshot in the queue: its markers are applied and the
upsert between them is turned away for want of a role, so the mirror it names is closed. -/
theorem named_mirror_swept :
    ∃ s, run (step .plain) {} (mirrorOfSource ++ [.receive 0 {} (.sync ⟨[9], .phaseBegin⟩),
      .receive 0 {} (.upsert ⟨5, {}⟩), .receive 0 {} (.sync ⟨[9], .phaseEnd⟩), .detachCheck 0,
      .detachSender 0, .detachState 0] ++ replicate 7 (.work {})) = some s ∧ s.swept = [(5, 4)] ∧
      ¬Justified s.received 5 4 := by
  refine exists_some_imp (P := fun s => s.swept = [(5, 4)] ∧
    s.received = [(0, .roles ⟨[1], 1⟩), (0, .upsert ⟨5, {}⟩), (0, .sync ⟨[9], .phaseBegin⟩),
    (0, .upsert ⟨5, {}⟩), (0, .sync ⟨[9], .phaseEnd⟩)])
    ⟨_, rfl, by decide, by decide⟩ (fun s _ ⟨hswept, hrec⟩ => ⟨hswept, ?_⟩)
  rw [hrec]
  rintro ⟨i, syncId, first, _, hfirst, hlast, hno⟩
  obtain ⟨rfl, rfl⟩ : 0 = i ∧ [9] = syncId := by simpa using hlast
  have hcase : first = 0 ∨ first = 1 ∨ first = 2 ∨ first = 3 := by omega
  rcases hcase with rfl | rfl | rfl | rfl
  · simp at hfirst
  · simp at hfirst
  · exact hno 3 ⟨5, {}⟩ (by decide) (by decide) rfl rfl
  · simp at hfirst

end Slot

end OmniBridge.Sink
