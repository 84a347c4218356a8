import OmniBridge.SinkSlot

/-! What the worker makes of one unit of display work when nothing happens between its
steps: the source's `apply_upsert`, `apply_remove`, `apply_sync` and `close_all` as
one piece each, and that the worker, step by step, does the same. -/

namespace OmniBridge.Sink

variable {Id : Type} [LinearOrder Id]

def Work.isDisplay : Work Id → Bool
  | .upsert _ | .remove _ | .sync _ | .closeAll _ => true
  | _ => false

namespace Slot

def closeMirror (s : Slot Id) (id : Id) : Slot Id :=
  s.withState (s.state.withMirrors (s.state.mirrors.remove id).1)

def displayMirror (x : Texts) (e : Reading) (s : Slot Id) (incoming : Incoming Id)
    (presentation : Presentation) : Slot Id :=
  let recorded := s.withState (s.state.record incoming.id)
  if (s.state.mirrors.get incoming.id).any (fun entry =>
    PeerState.isDuplicate entry incoming.message presentation) then
    recorded
  else match e.shown with
    | .ok serverId =>
      recorded.withState (recorded.state.withMirrors
        (recorded.insertMirror x incoming presentation (some serverId)
          incoming.message.contentHash).1)
    | .error _ =>
      recorded.withState (recorded.state.withMirrors (recorded.insertMirror x incoming presentation
        none []).1)

def applyUpsert (x : Texts) (e : Reading) (s : Slot Id) (incoming : Incoming Id) : Slot Id :=
  if e.policy.isDenied then s
  else if !s.state.peerRoles.has .source then s
  else if privacyOrDefault incoming.message.privacy = .isSecret then s.closeMirror incoming.id
  else if Presentation.resolve e.policy e.locked = .suppress then s.closeMirror incoming.id
  else s.displayMirror x e incoming (Presentation.resolve e.policy e.locked)

def applyRemove (e : Reading) (s : Slot Id) (id : Id) : Slot Id :=
  if e.policy.isDenied then s
  else if !s.state.peerRoles.has .source then s
  else s.closeMirror id

/-- `close_mirror` for every stale mirror of a completed snapshot. -/
def sweep (s : Slot Id) (stale : List Id) (mark : Nat) : Slot Id :=
  { s.withState
      (s.state.withMirrors (stale.foldl (fun t id => (t.remove id).1) s.state.mirrors)) with
    swept := s.swept ++ stale.map (fun id => (id, mark)) }

def applySync (e : Reading) (s : Slot Id) (marker : SyncMarker) (mark : Nat) : Slot Id :=
  let marked := s.withState (s.state.mark marker e.now)
  match (s.state.snapshot.marker marker).2 with
  | .complete named => marked.sweep (s.state.mirrors.notNamedIn named) mark
  | _ => marked

def process (x : Texts) (e : Reading) (s : Slot Id) (item : Item Id Nat) : Slot Id :=
  match item.work with
  | .upsert incoming => s.applyUpsert x e incoming
  | .remove id => s.applyRemove e id
  | .sync marker => s.applySync e marker item.mark
  | .closeAll _ => s.withState s.state.clear
  | _ => s

theorem process_frame (x : Texts) (e) (s : Slot Id) (item : Item Id Nat) :
    (s.process x e item).task = s.task ∧ (s.process x e item).batch = s.batch ∧
      (s.process x e item).queue = s.queue := by
  obtain ⟨work, _⟩ := item
  cases work with
  | upsert =>
    simp only [process, applyUpsert, displayMirror]
    split_ifs
    any_goals exact ⟨rfl, rfl, rfl⟩
    split <;> exact ⟨rfl, rfl, rfl⟩
  | remove =>
    simp only [process, applyRemove]
    split_ifs <;> exact ⟨rfl, rfl, rfl⟩
  | sync =>
    simp only [process, applySync]
    split <;> exact ⟨rfl, rfl, rfl⟩
  | _ => exact ⟨rfl, rfl, rfl⟩

section Worker

variable {x : Texts} {e : Reading}

def Reaches (x : Texts) (e : Reading) (s t : Slot Id) : Prop :=
  ∃ steps, run (step x) s (List.replicate steps (.work e)) = some t

theorem Reaches.refl (s : Slot Id) : Reaches x e s s := ⟨0, rfl⟩

variable {s t : Slot Id}

theorem Reaches.step {u} (h : s.step x (.work e) = some u) (hu : Reaches x e u t) :
    Reaches x e s t := by
  obtain ⟨steps, hsteps⟩ := hu
  refine ⟨steps + 1, ?_⟩
  rw [List.replicate_succ]
  simp only [run, h, Option.bind_some]
  exact hsteps

theorem advance_of_task (h : s.task ≠ .idle) :
    s.step x (.work e) = some (s.proceed x e s.task) := by
  change s.advance x e = _
  unfold advance
  split
  · exact absurd ‹_› h
  · rfl

theorem Reaches.onto {task} (u : Slot Id) (h : task ≠ .idle)
    (hnext : (s.withTask task).proceed x e task = u) (hu : Reaches x e u t) :
    Reaches x e (s.withTask task) t :=
  Reaches.step ((@advance_of_task _ _ x e (s.withTask task) h).trans (congrArg some hnext)) hu

theorem Reaches.within {task} (h : task ≠ .idle)
    (hu : Reaches x e ((s.withTask task).proceed x e task) t) : Reaches x e (s.withTask task) t :=
  .onto _ h rfl hu

theorem withTask_self {task} (h : s.task = task) : s.withTask task = s := by
  subst h
  rfl

theorem Reaches.ends (h : s.task = .idle) : Reaches x e (s.withTask .idle) s := by
  rw [withTask_self h]
  exact .refl _

theorem closing_reaches {serverIds rest} (h : Reaches x e (s.withTask rest.task) t) :
    Reaches x e (s.withTask (.closing serverIds [] rest)) t := by
  induction serverIds with
  | nil => exact .within (by simp) h
  | cons n _ ih => exact .within (by simp) ih

theorem dropMirror_reaches {id rest} (h : Reaches x e ((s.closeMirror id).withTask rest.task) t) :
    Reaches x e (s.dropMirror id [] rest) t :=
  @closing_reaches _ _ x e (s.closeMirror id) t _ rest h

theorem closeMirror_reaches (htask : s.task = .idle) (id : Id) :
    Reaches x e (s.withTask (.closing [] [id] .done)) (s.closeMirror id) := by
  have hdone : Reaches x e ((s.closeMirror id).withTask .idle) (s.closeMirror id) := .ends htask
  refine .within (by simp) ?_
  exact dropMirror_reaches hdone

theorem sweep_cons (s : Slot Id) (id) (stale : List Id) (mark : Nat) :
    s.sweep (id :: stale) mark = ({ s with swept := s.swept ++ [(id, mark)] }.closeMirror id).sweep
      stale mark := by
  simp [sweep, closeMirror, withState, PeerState.withMirrors]

theorem sweeping_reaches {stale mark} (hnodup : stale.Nodup)
    (hin : ∀ id ∈ stale, s.state.mirrors.get id ≠ none) :
    Reaches x e (s.withTask (.sweeping stale mark)) ((s.sweep stale mark).withTask .idle) := by
  induction stale generalizing s with
  | nil =>
    refine .within (by simp) ?_
    rw [show s.sweep [] mark = s by simp [sweep, withState, PeerState.withMirrors]]
    exact .refl _
  | cons id stale ih =>
    obtain ⟨hid, hrest⟩ := List.nodup_cons.mp hnodup
    obtain ⟨_, hget⟩ := Option.ne_none_iff_exists'.mp (hin id List.mem_cons_self)
    rw [sweep_cons]
    refine .onto ({ s with swept := s.swept ++ [(id, mark)] }.dropMirror id [] (.sweep stale mark))
      (by simp) ?_ ?_
    · simp [proceed, dropMirror, withTask, withState, hget]
    refine dropMirror_reaches (ih hrest (fun other hoth => ?_))
    have hne : other ≠ id := fun heq => hid (heq ▸ hoth)
    change (s.state.mirrors.remove id).1.get other ≠ none
    rw [MirrorTable.get_remove_of_ne hne]
    exact hin other (List.mem_cons_of_mem _ hoth)

section

variable (htask : s.task = .idle)
include htask

theorem recorded_reaches (state : PeerState Id)
    (evicted : Option (Id × MirrorEntry)) :
    Reaches x e ((s.withState state).withTask (match evicted with
      | none => .idle
      | some (_, entry) => .closing entry.serverId.toList [] .done)) (s.withState state) := by
  have hdone : Reaches x e ((s.withState state).withTask .idle) (s.withState state) := .ends htask
  cases evicted with
  | none => exact hdone
  | some => exact closing_reaches hdone

theorem displayMirror_reaches (incoming : Incoming Id) (presentation : Presentation) :
    Reaches x e (s.withTask (.upsertPresented incoming presentation))
      (s.displayMirror x e incoming presentation) := by
  unfold displayMirror
  by_cases hdup : (s.state.mirrors.get incoming.id).any
      (fun entry => PeerState.isDuplicate entry incoming.message presentation)
  · rw [if_pos hdup]
    exact .onto _ (by simp) (by simp [proceed, withTask, withState, hdup, htask]) (.refl _)
  rw [if_neg hdup]
  refine .onto ((s.withState (s.state.record incoming.id)).withTask
    (.displaying incoming presentation ((s.state.mirrors.get incoming.id).bind (·.serverId))))
    (by simp) (by simp [proceed, withTask, withState, hdup]) ?_
  refine .within (by simp) ?_
  refine .within (by simp) ?_
  cases e.shown with
  | error => exact recorded_reaches htask _ none
  | ok => exact recorded_reaches htask _ _

theorem applySync_reaches (marker : SyncMarker) (mark : Nat) :
    Reaches x e (s.start e ⟨.sync marker, mark⟩) (s.applySync e marker mark) := by
  cases hstep : (s.state.snapshot.marker marker).2 with
  | complete named =>
    have hend : (((s.withState (s.state.mark marker e.now)).sweep (s.state.mirrors.notNamedIn named)
        mark).withTask .idle) = (s.withState (s.state.mark marker e.now)).sweep
        (s.state.mirrors.notNamedIn named) mark := withTask_self htask
    simp only [start, applySync, hstep]
    refine .within (by simp) ?_
    rw [← hend]
    refine sweeping_reaches (s.state.mirrors.entries.nodup_keys.filter _) (fun id hid => ?_)
    obtain ⟨⟨entry, hget⟩, -⟩ := MirrorTable.mem_notNamedIn.mp hid
    have hheld : s.state.mirrors.get id = some entry := hget
    change s.state.mirrors.get id ≠ none
    simp [hheld]
  | _ =>
    simp only [start, applySync, hstep]
    exact .refl _

theorem applyUpsert_reaches (incoming : Incoming Id) (mark) :
    Reaches x e (s.start e ⟨.upsert incoming, mark⟩) (s.applyUpsert x e incoming) := by
  simp only [start, applyUpsert]
  by_cases hden : e.policy.isDenied
  · rw [if_pos hden, if_pos hden]
    exact .refl _
  rw [if_neg hden, if_neg hden]
  by_cases hsrc : (!s.state.peerRoles.has .source)
  · rw [if_pos hsrc]
    exact .onto (s.withTask .idle) (by simp) (by simp [proceed, withTask, hsrc]) (.ends htask)
  rw [if_neg hsrc]
  by_cases hsec : privacyOrDefault incoming.message.privacy = .isSecret
  · rw [if_pos hsec]
    refine .onto (s.withTask (.closing [] [incoming.id] .done)) (by simp) ?_
      (closeMirror_reaches htask incoming.id)
    simp [proceed, withTask, hsrc, hsec]
  rw [if_neg hsec]
  refine .onto (s.withTask (.upsertSourced incoming e.policy)) (by simp) ?_ ?_
  · simp [proceed, withTask, hsrc, hsec]
  by_cases hsupp : Presentation.resolve e.policy e.locked = .suppress
  · rw [if_pos hsupp]
    refine .onto (s.withTask (.closing [] [incoming.id] .done)) (by simp) ?_
      (closeMirror_reaches htask incoming.id)
    simp [proceed, withTask, hsupp]
  rw [if_neg hsupp]
  refine .onto _ (by simp) ?_ (displayMirror_reaches htask incoming _)
  simp [proceed, withTask, hsupp]

theorem applyRemove_reaches (id : Id) (mark) :
    Reaches x e (s.start e ⟨.remove id, mark⟩) (s.applyRemove e id) := by
  simp only [start, applyRemove]
  by_cases hden : e.policy.isDenied
  · rw [if_pos hden, if_pos hden]
    exact .refl _
  rw [if_neg hden, if_neg hden]
  by_cases hsrc : s.state.peerRoles.has .source
  · rw [if_neg (by simp [hsrc])]
    have hdone : Reaches x e ((s.closeMirror id).withTask .idle) (s.closeMirror id) := .ends htask
    refine .onto (s.withTask (.removeSourced id)) (by simp) (by simp [proceed, withTask, hsrc]) ?_
    refine .within (by simp) ?_
    exact dropMirror_reaches hdone
  · rw [if_pos (by simpa using hsrc)]
    exact .onto (s.withTask .idle) (by simp) (by simp [proceed, withTask, hsrc]) (.ends htask)

theorem process_reaches {item rest} (hbat : s.batch = item :: rest) (hdisp : item.work.isDisplay) :
    Reaches x e s ({ s with batch := rest }.process x e item) := by
  have hstart : s.step x (.work e) = some ({ s with batch := rest }.start e item) := by
    simp [step, advance, htask, hbat]
  refine .step hstart ?_
  have hidle : ({ s with batch := rest } : Slot Id).task = .idle := htask
  obtain ⟨work, mark⟩ := item
  cases work with
  | upsert incoming => exact applyUpsert_reaches hidle incoming mark
  | remove id => exact applyRemove_reaches hidle id mark
  | sync marker => exact applySync_reaches hidle marker mark
  | closeAll =>
    have hdone : Reaches x e (({ s with batch := rest }.withState s.state.clear).withTask .idle)
        ({ s with batch := rest }.withState s.state.clear) := .ends htask
    exact closing_reaches hdone
  | _ => cases hdisp

end

end Worker

end Slot

end OmniBridge.Sink
