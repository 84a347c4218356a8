import OmniBridge.SinkSessions

/-! A peer that is no longer a source. What it said is forgotten with its
connection, while its mirrors wait for the reconnect. -/

namespace OmniBridge.Sink

open MirrorTable

variable {Id : Type} [LinearOrder Id]

def Work.isCloseAll : Work Id → Bool
  | .closeAll _ => true
  | _ => false

def Task.isInserting : Task Id → Bool
  | .upsertSourced _ _ | .upsertPresented _ _ | .displaying _ _ _ | .displayed _ _ _ => true
  | _ => false

omit [LinearOrder Id] in
theorem Rest.task_isInserting (rest : Rest Id) : rest.task.isInserting = false := by
  cases rest <;> rfl

omit [LinearOrder Id] in
theorem Work.closeAll_of_isCloseAll {w : Work Id} (h : w.isCloseAll) :
    ∃ reason, w = .closeAll reason := by
  cases w with
  | closeAll reason => exact ⟨reason, rfl⟩
  | _ => cases h

namespace MirrorTable

variable {t : MirrorTable Id}

theorem get_modify_of_none {id other} (f : MirrorEntry → MirrorEntry) (h : t.get id = none) :
    (t.modify other f).get id = none := by
  by_cases hid : id = other
  · subst hid
    rw [get_modify_self, h]
    rfl
  · rw [get_modify_of_ne hid, h]

theorem get_remove_of_none {id} (other : Id) (h : t.get id = none) :
    (t.remove other).1.get id = none := by
  by_cases hid : id = other
  · rw [hid, get_remove_self]
  · rw [get_remove_of_ne hid, h]

end MirrorTable

namespace Slot

variable {id : Id} {x : Texts} {e : Reading} {s t : Slot Id} {a : Action Id}

theorem proceed_absent (x : Texts) (e) {task} (h : task.isInserting = false)
    (hid : s.state.mirrors.get id = none) : (s.proceed x e task).state.mirrors.get id = none := by
  fun_cases Slot.proceed x e s task
  all_goals first
    | exact hid
    | exact get_remove_of_none _ hid
    | exact get_modify_of_none _ hid
    | exact absurd h (by simp [Task.isInserting])

theorem proceed_isInserting {task} (hidle : task ≠ .idle) (h : task.isInserting = false)
    (hrole : s.state.peerRoles.has .source = false) :
    (s.proceed x e task).task.isInserting = false := by
  fun_cases Slot.proceed x e s task
  case case1 => exact absurd rfl hidle
  all_goals first
    | rfl
    | exact Rest.task_isInserting _
    | (simp only [withTask, hrole]; rfl)
    | (simp only [withTask]; split <;> rfl)
    | cases h

theorem start_absent (e : Reading) (item) (hid : s.state.mirrors.get id = none) :
    (s.start e item).state.mirrors.get id = none := by
  fun_cases Slot.start s e item
  all_goals first
    | exact hid
    | exact get_drain _ id

def SameRoles (s t : Slot Id) : Prop :=
  t.state.connected = s.state.connected ∧ t.state.peerRoles = s.state.peerRoles

theorem proceed_sameRoles (x : Texts) (e) (s) (task : Task Id) :
    SameRoles s (s.proceed x e task) := by
  fun_cases Slot.proceed x e s task <;> exact ⟨rfl, rfl⟩

theorem start_sameRoles (s : Slot Id) (e) (item : Item Id Nat) : SameRoles s (s.start e item) := by
  fun_cases Slot.start s e item <;> exact ⟨rfl, rfl⟩

/-- The last announcement accepted on the live connection does not contain `SOURCE`. -/
def Narrowed (s : Slot Id) : Prop :=
  s.state.connected ∧ s.state.peerRoles.epoch ≠ 0 ∧ s.state.peerRoles.has .source = false

theorem SameRoles.narrowed (h : SameRoles s t) (ht : t.Narrowed) : s.Narrowed := by
  rw [Narrowed, h.1, h.2] at ht
  exact ht

def Cleared (s : Slot Id) : Prop := s.state.mirrors.entries = .empty ∧ s.task.isInserting = false

def ClosePending (s : Slot Id) : Prop := ∃ y ∈ s.batch ++ s.queue.items, y.work.isCloseAll

theorem Cleared.get (h : s.Cleared) (id : Id) : s.state.mirrors.get id = none := by
  rw [MirrorTable.get, h.1]
  exact SortedMap.get_empty id

theorem cleared_of_get (h : ∀ id, s.state.mirrors.get id = none) (ht : s.task.isInserting = false) :
    s.Cleared :=
  ⟨SortedMap.ext_get h, ht⟩

def Barren (s : Slot Id) : Prop := s.Narrowed → s.Cleared ∨ s.ClosePending

/-- The queue is below its ceiling, and a peer whose first announcement on a
connection lacks `SOURCE` has no mirrors left from before, or is having them
closed. -/
def Vacated (s : Slot Id) (a : Action Id) : Prop :=
  s.queue.items.length < MAX_QUEUED_WORK ∧
    match a with
    | .receive _ _ (.roles announcement) =>
      s.state.connected → s.state.peerRoles.epoch = 0 →
        Role.source ∉ announcement.roles.filterMap Role.fromWire → s.Cleared ∨ s.ClosePending
    | _ => True

theorem barren_drain (hbat : s.batch = []) (hs : s.Barren) :
    Barren { s with batch := s.queue.items, queue := s.queue.drain.2 } := by
  intro hn
  refine (hs hn).imp_right ?_
  rintro ⟨y, hy, hw⟩
  exact ⟨y, by simpa [hbat, WorkQueue.drain] using hy, hw⟩

theorem barren_start {item : Item Id Nat} {rest} (htask : s.task = .idle)
    (hbat : s.batch = item :: rest) (hs : s.Barren) :
    Barren ({ s with batch := rest }.start e item) := by
  intro hn
  have hn' : s.Narrowed := (start_sameRoles { s with batch := rest } e item).narrowed hn
  have hnone : ({ s with batch := rest }.start e item).task.isInserting = false := by
    fun_cases Slot.start { s with batch := rest } e item
    all_goals first
      | rfl
      | exact htask ▸ rfl
  by_cases hw : item.work.isCloseAll
  · obtain ⟨_, hw⟩ := Work.closeAll_of_isCloseAll hw
    refine .inl (cleared_of_get (fun id => ?_) hnone)
    simp only [start, hw]
    exact get_drain _ id
  rcases hs hn' with hc | ⟨y, hy, hyw⟩
  · exact .inl (cleared_of_get (fun id => start_absent e item (s := { s with batch := rest })
      (hc.get id)) hnone)
  obtain ⟨hqueue, hrest, -⟩ := start_frame { s with batch := rest } e item
  refine .inr ⟨y, ?_, hyw⟩
  rw [hqueue, hrest]
  rw [hbat, List.cons_append, List.mem_cons] at hy
  rcases hy with rfl | hy
  · exact absurd hyw hw
  · exact hy

theorem barren_proceed (htask : s.task ≠ .idle) (hs : s.Barren) :
    Barren (s.proceed x e s.task) := by
  intro hn
  have hn' : s.Narrowed := (proceed_sameRoles x e s s.task).narrowed hn
  obtain ⟨hqueue, hbat⟩ := proceed_frame x e s s.task
  rcases hs hn' with hc | ⟨y, hy, hw⟩
  · exact .inl (cleared_of_get (fun id => proceed_absent x e hc.2 (hc.get id))
      (proceed_isInserting htask hc.2 hn'.2.2))
  · exact .inr ⟨y, by rw [hqueue, hbat]; exact hy, hw⟩

theorem handleControl_sameRoles (s : Slot Id) (policy : NotificationPolicy) {control} (mark : Nat)
    (h : ∀ announcement, control ≠ .roles announcement) :
    SameRoles s (s.handleControl policy control mark) := by
  fun_cases Slot.handleControl s policy control mark
  case case1 announcement => exact absurd rfl (h announcement)
  all_goals exact ⟨rfl, rfl⟩

theorem step_absent (h : s.step x a = some t) (hw : ∀ e, a ≠ .work e)
    (hid : s.state.mirrors.get id = none) : t.state.mirrors.get id = none := by
  rcases step_mirrors h hw with heq | ⟨_, _, other, _, -, -, -, heq⟩ | ⟨-, heq⟩
  · rw [heq, hid]
  · rw [heq]
    exact get_remove_of_none other hid
  · rw [heq, get_invalidateServerIds, hid]
    rfl

theorem barren_of_bystander (h : s.step x a = some t) (hlt : s.queue.items.length < MAX_QUEUED_WORK)
    (hw : ∀ e, a ≠ .work e) (hsame : SameRoles s t) (hs : s.Barren) : t.Barren := by
  intro hn
  obtain ⟨htask, hbat, -⟩ := step_worker h hw
  rcases hs (hsame.narrowed hn) with hc | ⟨y, hy, hyw⟩
  · exact .inl (cleared_of_get (fun id => step_absent h hw (hc.get id)) (by rw [htask]; exact hc.2))
  refine .inr ⟨y, ?_, hyw⟩
  obtain ⟨_, hwork⟩ := Work.closeAll_of_isCloseAll hyw
  rcases List.mem_append.mp hy with hy | hy
  · exact List.mem_append_left _ (by rw [hbat]; exact hy)
  · exact List.mem_append_right _ (step_keeps_pending h hlt hw hy (by simp [hwork]))

theorem barren_applyPeerRoles {announcement} (hlt : s.queue.items.length < MAX_QUEUED_WORK)
    (hclear : s.state.connected → s.state.peerRoles.epoch = 0 →
      Role.source ∉ announcement.roles.filterMap Role.fromWire → s.Cleared ∨ s.ClosePending)
    (hs : s.Barren) : Barren (s.applyPeerRoles announcement) := by
  unfold applyPeerRoles PeerRoles.apply
  by_cases h0 : announcement.epoch = 0
  · simpa [h0] using hs
  by_cases hold : announcement.epoch ≤ s.state.peerRoles.epoch
  · simpa [h0, hold] using hs
  simp only [h0, hold, if_false]
  split
  · intro _
    refine .inr ⟨⟨.closeAll .roleNarrowed, 0⟩, List.mem_append_right _ ?_, rfl⟩
    exact WorkQueue.mem_offer_self_of_lt hlt (by simp) (by simp)
  rename_i hnot
  rintro ⟨hconn, -, hsrc⟩
  change PeerRoles.has ⟨_, announcement.epoch⟩ .source = false at hsrc
  have hnone : Role.source ∉ announcement.roles.filterMap Role.fromWire :=
    by simpa [PeerRoles.has] using hsrc
  have hbef : s.state.peerRoles.has .source = false := by
    rw [hsrc, Bool.not_false, Bool.and_true, Bool.not_eq_true] at hnot
    exact hnot
  by_cases he : s.state.peerRoles.epoch = 0
  · exact hclear hconn he hnone
  · exact hs ⟨hconn, he, hbef⟩

theorem step_barren (hok : s.Vacated a) (h : s.step x a = some t) (hs : s.Barren) : t.Barren := by
  obtain ⟨hlt, hok⟩ := hok
  have hstay : (∀ e, a ≠ .work e) → SameRoles s t → t.Barren :=
    fun hw hsame => barren_of_bystander h hlt hw hsame hs
  cases step_cases h with
  | attachState => exact fun hn => absurd rfl hn.2.1
  | detachState =>
    intro hn
    cases hn.1
  | drain e _ hbat => exact barren_drain hbat hs
  | start e _ _ htask hbat => exact barren_start htask hbat hs
  | proceed e htask => exact barren_proceed htask hs
  | receive i policy control =>
    by_cases hroles : ∃ announcement, control = .roles announcement
    · obtain ⟨announcement, rfl⟩ := hroles
      exact barren_applyPeerRoles
        (s := { s with received := s.received ++ [(i, .roles announcement)] }) hlt hok hs
    · refine hstay (by simp) ?_
      exact handleControl_sameRoles { s with received := s.received ++ [(i, control)] } policy _
        (fun announcement heq => hroles ⟨announcement, heq⟩)
  | detachCheck =>
    refine hstay (by simp) ?_
    unfold detachCheck
    split <;> exact ⟨rfl, rfl⟩
  | timerConnected =>
    refine hstay (by simp) ?_
    unfold timerConnected
    split <;> exact ⟨rfl, rfl⟩
  | askRoles =>
    refine hstay (by simp) ?_
    unfold askRoles
    split <;> exact ⟨rfl, rfl⟩
  | noteClosed =>
    refine hstay (by simp) ?_
    unfold noteClosed
    split <;> exact ⟨rfl, rfl⟩
  | _ => exact hstay (by simp) ⟨rfl, rfl⟩

/-- Where the first announcement of a connection never lacks `SOURCE` while mirrors
are left, a peer that is not a source has none once its queue is drained. -/
theorem narrowed_peer_cleared (x : Texts) {as : List (Action Id)} {s : Slot Id}
    (hrun : run (step x) {} as = some s) (hok : Meets (step x) Vacated {} as) (hnarr : s.Narrowed)
    (hdrain : s.Drained) : s.state.mirrors.entries = .empty := by
  have hstep : ∀ (s : Slot Id) (a : Action Id) (t : Slot Id), s.Vacated a → s.step x a = some t →
      s.Barren → t.Barren := fun s a t hok h hs => step_barren hok h hs
  have hstart : ({} : Slot Id).Barren := fun hn => absurd rfl hn.2.1
  have hinv := run_invariant (step x) hstep hrun hok hstart
  rcases hinv hnarr with hc | ⟨y, hy, -⟩
  · exact hc.1
  · rw [hdrain.1, hdrain.2.1] at hy
    cases hy

instance (s : Slot Id) : Decidable s.Cleared := inferInstanceAs (Decidable (_ ∧ _))

instance (s : Slot Id) : Decidable s.ClosePending := inferInstanceAs (Decidable (∃ y ∈ _, _))

instance (s : Slot Id) (a : Action Id) : Decidable (s.Vacated a) := by
  unfold Vacated
  induction a using Action.casesOn
  case receive _ _ control => induction control using Control.casesOn <;> infer_instance
  all_goals infer_instance

def sourceMirrored : List (Action Nat) :=
  [Action.attachGeneration, .attachSender 0, .attachState 0, .receive 0 {} (.roles ⟨[1], 1⟩),
    .receive 0 {} (.upsert ⟨5, {}⟩)] ++ List.replicate 10 (.work {})

theorem narrowed_peer_cleared_on_connection :
    ∃ s, run (step .plain) {} (sourceMirrored ++ [.receive 0 {} (.roles ⟨[], 2⟩), .work {},
      .work {}, .work {}, .work {}]) = some s ∧ s.Narrowed ∧ s.state.mirrors.entries = .empty := by
  refine exists_some_imp (P := fun s => s.Narrowed ∧ s.Drained) ⟨_, rfl, ⟨rfl, by decide, rfl⟩, rfl,
    rfl, rfl⟩ ?_
  exact fun s hrun ⟨hn, hd⟩ => ⟨hn, narrowed_peer_cleared .plain hrun (by decide) hn hd⟩

/-- The peer reconnects within the grace and announces no role. The roles it had
were reset by the reconnect, so nothing was narrowed and the mirror stays. -/
theorem narrowed_peer_keeps_mirror :
    ∃ s, run (step .plain) {} (sourceMirrored ++ [.detachCheck 0, .detachSender 0, .detachState 0,
      .attachGeneration, .attachSender 1, .attachState 1, .receive 1 {} (.roles ⟨[], 1⟩), .work {},
      .work {}, .work {}, .work {}]) = some s ∧ s.Narrowed ∧ s.Drained ∧
      s.state.mirrors.entries.keys = [5] ∧ s.state.mirrors.entries ≠ .empty := by
  refine ⟨_, rfl, ⟨rfl, by decide, rfl⟩, ⟨rfl, rfl, rfl⟩, rfl, by decide⟩

end Slot

end OmniBridge.Sink
