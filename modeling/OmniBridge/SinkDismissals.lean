import OmniBridge.SinkSessions

/-! The way of a human dismissal through a slot: found by a close signal, asked
about, queued, drained, taken up by the worker and put on a session. The places
form a pipeline, so no step can duplicate a dismissal or change their order. -/

namespace OmniBridge.Sink

open List Item Slot

structure Dismissal (Id : Type) where
  id : Id
  originDeviceId : String
  mark : Nat
deriving DecidableEq

section Places

variable {Id : Type}

def Item.dismissal : Item Id Nat → Option (Dismissal Id)
  | ⟨.dismiss id originDeviceId, mark⟩ => some ⟨id, originDeviceId, mark⟩
  | _ => none

def Task.dismissal : Task Id → Option (Dismissal Id)
  | .dismissing _ id originDeviceId mark => some ⟨id, originDeviceId, mark⟩
  | _ => none

def Outgoing.dismissal : Outgoing Id → Option (Dismissal Id)
  | .dismiss id originDeviceId mark => some ⟨id, originDeviceId, mark⟩
  | _ => none

def Asking.dismissal (a : Asking Id) : Dismissal Id := ⟨a.id, a.originDeviceId, a.mark⟩

theorem Item.dismissal_upsert {item : Item Id Nat} {incoming} (h : item.work = .upsert incoming) :
    item.dismissal = none := by
  obtain ⟨work, _⟩ := item
  obtain rfl : work = .upsert incoming := h
  rfl

theorem Rest.task_dismissal (rest : Rest Id) : rest.task.dismissal = none := by cases rest <;> rfl

end Places

variable {Id : Type} [LinearOrder Id]

namespace Slot

def sentDismissals (s : Slot Id) : List (Dismissal Id) := s.sent.filterMap (·.2.dismissal)

def pendingDismissals (s : Slot Id) : List (Dismissal Id) :=
  s.batch.filterMap dismissal ++ s.queue.items.filterMap dismissal ++
    (s.asking.map Asking.dismissal).toList

def carried (s : Slot Id) : List (Dismissal Id) :=
  s.sentDismissals ++ s.task.dismissal.toList ++ s.pendingDismissals

theorem offer_pending (s : Slot Id) {work : Work Id} {mark}
    (h : (⟨work, mark⟩ : Item Id Nat).dismissal = none) :
    ((s.offer work mark).pendingDismissals).Sublist s.pendingDismissals := by
  have hq := s.queue.offer_filterMap_sublist dismissal (fun _ _ => dismissal_upsert) ⟨work, mark⟩
  rw [h, Option.toList_none, append_nil] at hq
  exact (hq.append_left _).append_right _

variable {x : Texts} {e : Reading} {s t : Slot Id} {a : Action Id} {d : Dismissal Id}

theorem proceed_dismissal {task} (h : task ≠ .idle) :
    (s.proceed x e task).task.dismissal = none := by
  fun_cases proceed x e s task
  case case1 => exact absurd rfl h
  all_goals first
    | rfl
    | exact Rest.task_dismissal _
    | (simp only [withTask]; split <;> first | rfl | (split <;> rfl))

theorem proceed_pending (x : Texts) (e) (s : Slot Id) (task : Task Id) :
    (s.proceed x e task).pendingDismissals = s.pendingDismissals := by
  fun_cases proceed x e s task <;> rfl

theorem proceed_carried (h : s.task ≠ .idle) : (s.proceed x e s.task).carried = s.carried := by
  have hout : (s.task.outgoing.toList).filterMap (·.2.dismissal) = s.task.dismissal.toList := by
    cases s.task <;> rfl
  rw [carried, carried, proceed_pending, proceed_dismissal h, sentDismissals, proceed_sent,
    filterMap_append, hout, Option.toList_none, append_nil, sentDismissals]

theorem start_pending (s : Slot Id) (e) (item : Item Id Nat) :
    (s.start e item).pendingDismissals = s.pendingDismissals ∧ (s.start e item).sent = s.sent := by
  fun_cases start s e item <;> exact ⟨rfl, rfl⟩

theorem start_task (h : s.task = .idle) (e : Reading) (item) :
    (s.start e item).task.dismissal = none ∨ ∃ session d, item.dismissal = some d ∧
      s.outbound = some session ∧ (s.start e item).task = .dismissing session d.id d.originDeviceId
      d.mark := by
  have hnone : ∀ t : Slot Id, t.task = .idle → t.task.dismissal = none := fun t ht =>
    by rw [ht]; rfl
  obtain ⟨work, mark⟩ := item
  cases work with
  | dismiss id originDeviceId =>
    cases hout : s.outbound with
    | none => exact .inl (hnone _ (by simp [start, hout, h]))
    | some session =>
      exact .inr ⟨session, ⟨id, originDeviceId, mark⟩, rfl, rfl, by simp [start, hout, withTask]⟩
  | announceRoles =>
    refine .inl ?_
    cases hout : s.outbound with
    | none => exact hnone _ (by simp [start, hout, h])
    | some => simp [start, hout, withTask, Task.dismissal]
  | upsert | remove =>
    refine .inl ?_
    simp only [start]
    split
    · exact hnone s h
    · rfl
  | sync =>
    refine .inl ?_
    simp only [start]
    split
    · rfl
    · exact hnone _ h
  | _ => exact .inl rfl

variable {rest : List (Item Id Nat)} {item : Item Id Nat}

theorem start_carried (htask : s.task = .idle) (hbat : s.batch = item :: rest) :
    (({ s with batch := rest }.start e item).carried).Sublist s.carried := by
  obtain ⟨hpending, hsent⟩ := start_pending { s with batch := rest } e item
  have hs : s.carried = s.sentDismissals ++
      (item.dismissal.toList ++ ({ s with batch := rest } : Slot Id).pendingDismissals) := by
    cases hd : item.dismissal <;> simp [carried, pendingDismissals, htask, hbat, Task.dismissal, hd]
  have ht : ({ s with batch := rest }.start e item).task.dismissal.toList.Sublist
    item.dismissal.toList := by
    have hst : ({ s with batch := rest } : Slot Id).task = .idle := htask
    rcases start_task hst e item with hnone | ⟨_, d, hitem, -, heq⟩
    · simp [hnone]
    · rw [hitem, heq]
      exact List.Sublist.refl _
  rw [carried, hpending, sentDismissals, hsent, hs, append_assoc]
  exact (ht.append_right _).append_left _

theorem handleControl_pending (s : Slot Id) (policy : NotificationPolicy)
    (control : Control Id) (mark) :
    ((s.handleControl policy control mark).pendingDismissals).Sublist s.pendingDismissals := by
  fun_cases handleControl s policy control mark
  case case1 announcement =>
    unfold applyPeerRoles
    split
    · exact List.Sublist.refl _
    · split
      · exact offer_pending _ rfl
      · exact List.Sublist.refl _
  all_goals first
    | exact List.Sublist.refl _
    | exact offer_pending s rfl

theorem askRoles_pending {a : Asking Id} (ha : s.asking = some a) :
    ((s.askRoles a).pendingDismissals).Sublist s.pendingDismissals := by
  have hs : s.pendingDismissals =
      s.batch.filterMap dismissal ++ (s.queue.items.filterMap dismissal ++ [a.dismissal]) := by
    simp [pendingDismissals, ha]
  rw [hs]
  unfold askRoles
  split
  · have hq := s.queue.offer_filterMap_sublist dismissal (fun _ _ => dismissal_upsert)
      ⟨.dismiss a.id a.originDeviceId, a.mark⟩
    simp only [pendingDismissals, offer, Option.map_none, Option.toList_none, append_nil]
    exact hq.append_left _
  · simp [pendingDismissals]

theorem noteClosed_cases (s : Slot Id) (serverId : ServerId) (reason : CloseReason) :
    s.noteClosed serverId reason = s ∨
      ∃ id entry, s.state.mirrors.get id = some entry ∧ entry.serverId = some serverId ∧
        s.noteClosed serverId reason =
        { s.withState (s.state.withMirrors (s.state.mirrors.remove id).1) with
            closes := s.closes ++ [⟨serverId, reason, id, entry.originDeviceId, s.outbound⟩]
            asking := if reason.isHumanDismissal then some ⟨id, entry.originDeviceId,
              s.closes.length, false⟩
              else none } := by
  unfold noteClosed
  rcases s.state.mirrors.forgetServerId_cases serverId with ⟨hnone, -⟩
    | ⟨id, entry, hget, hid, hsome⟩
  · rw [hnone]
    exact .inl rfl
  · rw [hsome]
    exact .inr ⟨id, entry, hget, hid, rfl⟩

structure FoundMirror (s : Slot Id) (c : ClosedMirror Id) : Prop where
  session : c.session = s.outbound
  held : ∃ entry, s.state.mirrors.get c.id = some entry ∧ entry.serverId = some c.serverId ∧
    entry.originDeviceId = c.originDeviceId

structure Moves (s t : Slot Id) : Prop where
  carried : t.carried.Sublist s.carried
  pending : t.pendingDismissals.Sublist s.pendingDismissals
  closes : s.closes <+: t.closes

theorem Moves.of_pending (hsent : t.sent = s.sent) (htask : t.task = s.task)
    (hcls : s.closes <+: t.closes) (hpending : t.pendingDismissals.Sublist s.pendingDismissals) :
    Moves s t := by
  refine ⟨?_, hpending, hcls⟩
  rw [Slot.carried, Slot.carried, sentDismissals, sentDismissals, hsent, htask]
  exact hpending.append_left _

theorem handleControl_moves (s : Slot Id) (policy : NotificationPolicy) (control : Control Id)
    (mark) : Moves s (s.handleControl policy control mark) := by
  have hpending := handleControl_pending s policy control mark
  obtain ⟨_, _, _, heq⟩ := s.handleControl_eq policy control mark
  rw [heq] at hpending ⊢
  exact .of_pending rfl rfl prefix_rfl hpending

theorem start_moves (htask : s.task = .idle) (hbat : s.batch = item :: rest) :
    Moves s ({ s with batch := rest }.start e item) := by
  have hcls : ({ s with batch := rest }.start e item).closes = s.closes := by
    fun_cases start { s with batch := rest } e item <;> rfl
  refine ⟨start_carried htask hbat, ?_, by rw [hcls]⟩
  rw [(start_pending _ e item).1]
  simp only [pendingDismissals, hbat]
  exact ((sublist_cons_self _ _).filterMap _).append_right _ |>.append_right _

theorem proceed_moves (h : s.task ≠ .idle) : Moves s (s.proceed x e s.task) := by
  have hcls : (s.proceed x e s.task).closes = s.closes := by
    generalize s.task = task
    fun_cases proceed x e s task <;> rfl
  refine ⟨?_, ?_, by rw [hcls]⟩
  · rw [proceed_carried h]
  · rw [proceed_pending]

theorem step_moves (h : s.step x a = some t) :
    Moves s t ∨ ∃ c, FoundMirror s c ∧ c.reason = .dismissed ∧ t.outbound = s.outbound ∧
      t.closes = s.closes ++ [c] ∧ t.sent = s.sent ∧ t.task = s.task ∧
      t.pendingDismissals = s.pendingDismissals ++ [⟨c.id, c.originDeviceId, s.closes.length⟩] := by
  cases step_cases h with
  | attachGeneration | attachSender | detachSender | detachState | timerGeneration | syncTimeout =>
    exact .inl (.of_pending rfl rfl prefix_rfl (List.Sublist.refl _))
  | attachState | serverBack => exact .inl (.of_pending rfl rfl prefix_rfl (offer_pending _ rfl))
  | detachCheck =>
    unfold detachCheck
    split <;> exact .inl (.of_pending rfl rfl prefix_rfl (List.Sublist.refl _))
  | timerConnected =>
    unfold timerConnected
    split
    · exact .inl (.of_pending rfl rfl prefix_rfl (List.Sublist.refl _))
    · exact .inl (.of_pending rfl rfl prefix_rfl (offer_pending _ rfl))
  | receive i policy control =>
    have hm := handleControl_moves { s with received := s.received ++ [(i, control)] } policy
      control s.received.length
    exact .inl ⟨hm.carried, hm.pending, hm.closes⟩
  | drain e _ hbat =>
    refine .inl (.of_pending rfl rfl prefix_rfl ?_)
    simp [pendingDismissals, hbat, WorkQueue.drain]
  | start e _ _ htask hbat => exact .inl (start_moves htask hbat)
  | proceed e htask => exact .inl (proceed_moves htask)
  | serverGone | lockSignal | revoke =>
    exact .inl (.of_pending rfl rfl prefix_rfl (s.offer_pending rfl))
  | askPolicy policy a ha =>
    refine .inl (.of_pending rfl rfl prefix_rfl ?_)
    cases policy.maySyncDismissals <;> simp [pendingDismissals, ha, Asking.dismissal]
  | askRoles a ha =>
    have hframe : (s.askRoles a).sent = s.sent ∧ (s.askRoles a).task = s.task ∧
        (s.askRoles a).closes = s.closes := by
      unfold askRoles
      split <;> exact ⟨rfl, rfl, rfl⟩
    exact .inl (.of_pending hframe.1 hframe.2.1 (hframe.2.2 ▸ prefix_rfl) (askRoles_pending ha))
  | noteClosed serverId reason hasking =>
    rcases s.noteClosed_cases serverId reason with hsame | ⟨_, entry, hget, hid, heq⟩
    · rw [hsame]
      exact .inl (.of_pending rfl rfl prefix_rfl (List.Sublist.refl _))
    rw [heq]
    by_cases hr : reason = .dismissed
    · refine .inr ⟨_, ⟨rfl, entry, hget, hid, rfl⟩, hr, rfl, rfl, rfl, rfl, ?_⟩
      simp [pendingDismissals, hasking, hr, CloseReason.isHumanDismissal, Asking.dismissal,
        withState]
    · refine .inl (.of_pending rfl rfl (prefix_append _ _) ?_)
      simp [pendingDismissals, hasking, hr, CloseReason.isHumanDismissal, withState]

def decided (s : Slot Id) : List (Dismissal Id) :=
  s.sentDismissals ++ s.task.dismissal.toList ++
    (s.batch.filterMap dismissal ++ s.queue.items.filterMap dismissal)

theorem carried_eq (s : Slot Id) :
    s.carried = s.decided ++ (s.asking.map Asking.dismissal).toList := by
  simp [carried, decided, pendingDismissals]

def asks : Action Id → Bool
  | .noteClosed _ _ | .askPolicy _ | .askRoles => true
  | _ => false

theorem step_unasked (h : s.step x a = some t) (ha : asks a = false) :
    t.closes = s.closes ∧ t.asking = s.asking := by
  cases step_cases h with
  | noteClosed | askPolicy | askRoles => cases ha
  | detachCheck =>
    unfold detachCheck
    split <;> exact ⟨rfl, rfl⟩
  | timerConnected =>
    unfold timerConnected
    split <;> exact ⟨rfl, rfl⟩
  | receive i policy control =>
    obtain ⟨_, _, _, heq⟩ := s.receive_eq i policy control
    rw [heq]
    exact ⟨rfl, rfl⟩
  | start e item rest => fun_cases start { s with batch := rest } e item <;> exact ⟨rfl, rfl⟩
  | proceed e =>
    generalize s.task = task
    fun_cases proceed x e s task <;> exact ⟨rfl, rfl⟩
  | _ => exact ⟨rfl, rfl⟩

theorem step_closes (h : s.step x a = some t)
    (hn : ∀ serverId reason, a ≠ .noteClosed serverId reason) : t.closes = s.closes := by
  cases step_cases h with
  | noteClosed serverId reason => exact absurd rfl (hn serverId reason)
  | askPolicy => rfl
  | askRoles =>
    unfold askRoles
    split <;> rfl
  | _ => exact (step_unasked h rfl).1

theorem decided_of_unasked (h : s.step x a = some t) (ha : asks a = false) (hd : d ∈ t.decided) :
    d ∈ s.decided := by
  obtain ⟨hcls, hasking⟩ := step_unasked h ha
  rcases step_moves h with hm | ⟨c, -, -, -, hc, -⟩
  · have hsub := hm.carried
    rw [carried_eq, carried_eq, hasking, append_sublist_append_right] at hsub
    exact hsub.subset hd
  · rw [hcls] at hc
    simp at hc

theorem mem_decided :
    d ∈ s.decided ↔ d ∈ s.sentDismissals ∨ d ∈ s.task.dismissal.toList ∨
      d ∈ s.batch.filterMap dismissal ∨ d ∈ s.queue.items.filterMap dismissal := by
  simp only [decided, mem_append, or_assoc]

theorem step_decided (h : s.step x a = some t) (hd : d ∈ t.decided) :
    d ∈ s.decided ∨ a = .askRoles ∧ ∃ ask, s.asking = some ask ∧ ask.allowed ∧ ask.dismissal = d ∧
      s.state.peerRoles.has .dismissTarget ∧ s.state.localRoles.hasAnnounced .dismissReporter := by
  cases step_cases h with
  | noteClosed serverId reason =>
    rcases s.noteClosed_cases serverId reason with hsame | ⟨_, _, -, -, heq⟩
    · exact .inl (hsame ▸ hd)
    · rw [heq] at hd
      exact .inl hd
  | askPolicy => exact .inl hd
  | askRoles ask hasking hall =>
    unfold askRoles at hd
    split at hd
    · rename_i hroles
      rw [Bool.and_eq_true] at hroles
      have hq := s.queue.offer_filterMap_sublist dismissal (fun _ _ => dismissal_upsert)
        ⟨.dismiss ask.id ask.originDeviceId, ask.mark⟩
      rcases mem_decided.mp hd with hd | hd | hd | hd
      · exact .inl (mem_decided.mpr (.inl hd))
      · exact .inl (mem_decided.mpr (.inr (.inl hd)))
      · exact .inl (mem_decided.mpr (.inr (.inr (.inl hd))))
      rcases mem_append.mp (hq.subset hd) with hd | hd
      · exact .inl (mem_decided.mpr (.inr (.inr (.inr hd))))
      · obtain rfl : d = ask.dismissal := by simpa [dismissal, Asking.dismissal] using hd
        exact .inr ⟨rfl, ask, hasking, hall, rfl, hroles⟩
    · exact .inl hd
  | _ => exact .inl (decided_of_unasked h rfl hd)

theorem step_asking (h : s.step x a = some t) {ask} (hask : t.asking = some ask)
    (hall : ask.allowed) :
    s.asking = some ask ∨ ∃ policy before, a = .askPolicy policy ∧ policy.maySyncDismissals ∧
      s.asking = some before ∧ before.mark = ask.mark := by
  cases step_cases h with
  | noteClosed serverId reason =>
    rcases s.noteClosed_cases serverId reason with hsame | ⟨_, _, -, -, heq⟩
    · exact .inl (hsame ▸ hask)
    rw [heq] at hask
    simp only [Option.ite_none_right_eq_some, Option.some.injEq] at hask
    obtain ⟨-, rfl⟩ := hask
    cases hall
  | askPolicy policy before hbef =>
    simp only [Option.ite_none_right_eq_some, Option.some.injEq] at hask
    obtain ⟨hpol, rfl⟩ := hask
    exact .inr ⟨policy, before, rfl, hpol, hbef, rfl⟩
  | askRoles =>
    unfold askRoles at hask
    split at hask <;> cases hask
  | _ => exact .inl ((step_unasked h rfl).2 ▸ hask)

def Reports (closes : List (ClosedMirror Id)) (d : Dismissal Id) (c : ClosedMirror Id) : Prop :=
  closes[d.mark]? = some c ∧ c.reason = .dismissed ∧ c.id = d.id ∧
    c.originDeviceId = d.originDeviceId

omit [LinearOrder Id] in
theorem Reports.mono {closes closes'} (h : closes <+: closes') {c} (hr : Reports closes d c) :
    Reports closes' d c := by
  obtain ⟨_, rfl⟩ := h
  refine ⟨?_, hr.2⟩
  rw [List.getElem?_append_left (List.getElem?_eq_some_iff.mp hr.1).1]
  exact hr.1

structure Carries (s : Slot Id) : Prop where
  order : (s.carried.map Dismissal.mark).Pairwise (· < ·)
  reports : ∀ d ∈ s.carried, ∃ c, Reports s.closes d c

theorem step_carries (h : s.step x a = some t) (hs : Carries s) : Carries t := by
  rcases step_moves h with hm | ⟨c, -, hreason, -, hc, hsent, htask, hpend⟩
  · refine ⟨hs.order.sublist (hm.carried.map _), fun d hd => ?_⟩
    obtain ⟨c, hr⟩ := hs.reports d (hm.carried.subset hd)
    exact ⟨c, hr.mono hm.closes⟩
  have hcarr : t.carried = s.carried ++ [⟨c.id, c.originDeviceId, s.closes.length⟩] := by
    simp [carried, sentDismissals, hsent, htask, hpend]
  have hcl : s.closes <+: t.closes := hc ▸ prefix_append _ _
  refine ⟨?_, fun d hd => ?_⟩
  · rw [hcarr, map_append, pairwise_append]
    refine ⟨hs.order, pairwise_singleton _ _, ?_⟩
    intro m hm m' hm'
    obtain ⟨d, hd, rfl⟩ := mem_map.mp hm
    obtain rfl : m' = s.closes.length := by simpa using hm'
    obtain ⟨_, hr⟩ := hs.reports d hd
    exact (List.getElem?_eq_some_iff.mp hr.1).1
  · rw [hcarr] at hd
    rcases mem_append.mp hd with hd | hd
    · obtain ⟨c', hr⟩ := hs.reports d hd
      exact ⟨c', hr.mono hcl⟩
    · obtain rfl := mem_singleton.mp hd
      exact ⟨c, by simp [hc], hreason, rfl, rfl⟩

/-- A session stores its sender only once every earlier dismissal has been sent or dropped. -/
def Undelayed (s : Slot Id) : Action Id → Prop
  | .attachSender _ => s.pendingDismissals = []
  | _ => True

/-- Whatever is pending was observed on the session whose sender the slot holds. -/
structure Tied (s : Slot Id) : Prop where
  pending : ∀ d ∈ s.pendingDismissals, ∃ c, Reports s.closes d c ∧
    (s.outbound = none ∨ c.session = s.outbound)
  taken : ∀ session d, s.task = .dismissing session d.id d.originDeviceId d.mark →
    ∃ c, Reports s.closes d c ∧ c.session = some session
  sent : ∀ p ∈ s.sent, ∀ d, p.2.dismissal = some d → ∃ c, Reports s.closes d c ∧
    c.session = some p.1

theorem step_taken (h : s.step x a = some t) {session}
    (ht : t.task = .dismissing session d.id d.originDeviceId d.mark) :
    s.task = .dismissing session d.id d.originDeviceId d.mark ∨ d ∈ s.pendingDismissals ∧
      s.outbound = some session := by
  by_cases ha : ∀ e, a ≠ .work e
  · exact .inl ((step_worker h ha).1 ▸ ht)
  have hdis : t.task.dismissal = some d := by rw [ht]; rfl
  cases step_cases h with
  | drain => exact .inl ht
  | proceed e htask =>
    rw [proceed_dismissal htask] at hdis
    cases hdis
  | start e item rest htask hbat =>
    have hst : ({ s with batch := rest } : Slot Id).task = .idle := htask
    rcases start_task hst e item with hnone | ⟨_, d', hitem, hout, htask'⟩
    · rw [hnone] at hdis
      cases hdis
    rw [htask'] at ht
    obtain ⟨rfl, _, _, _⟩ := Task.dismissing.inj ht
    obtain rfl : d' = d := by cases d'; cases d; simp_all
    refine .inr ⟨?_, hout⟩
    simp [pendingDismissals, hbat, hitem]
  | _ => exact absurd (fun e => by simp) ha

theorem step_sent (h : s.step x a = some t) :
    t.sent = s.sent ∨ t.sent = s.sent ++ s.task.outgoing.toList := by
  by_cases ha : ∀ e, a ≠ .work e
  · exact .inl (step_worker h ha).2.2.1
  cases step_cases h with
  | drain => exact .inl rfl
  | proceed e => exact .inr (proceed_sent x e s s.task)
  | start e item => exact .inl (start_pending _ e item).2
  | _ => exact absurd (fun e => by simp) ha

theorem step_tied (hok : s.Undelayed a) (h : s.step x a = some t) (hs : Tied s) : Tied t := by
  have hcls : s.closes <+: t.closes := by
    rcases step_moves h with hm | ⟨c, -, -, -, hc, -⟩
    · exact hm.closes
    · exact hc ▸ prefix_append _ _
  refine ⟨?_, ?_, ?_⟩
  · intro d hd
    rcases step_moves h with hm | ⟨c, hfound, hreason, hout, hc, -, -, hpend⟩
    · have hds := hm.pending.subset hd
      obtain ⟨c, hr, _⟩ := hs.pending d hds
      refine ⟨c, hr.mono hcls, ?_⟩
      by_cases ha : ∀ i, a ≠ .attachSender i
      · rcases step_outbound h ha with heq | hnone
        · rwa [heq]
        · exact .inl hnone
      push Not at ha
      obtain ⟨i, rfl⟩ := ha
      rw [show s.pendingDismissals = [] from hok] at hds
      cases hds
    · rw [hpend] at hd
      rcases mem_append.mp hd with hd | hd
      · obtain ⟨c', hr, _⟩ := hs.pending d hd
        exact ⟨c', hr.mono hcls, by rwa [hout]⟩
      · obtain rfl := mem_singleton.mp hd
        refine ⟨c, ⟨by simp [hc], hreason, rfl, rfl⟩, .inr ?_⟩
        rw [hout, hfound.session]
  · intro session d ht
    rcases step_taken h ht with htask | ⟨hd, hout⟩
    · obtain ⟨c, hr, hsess⟩ := hs.taken session d htask
      exact ⟨c, hr.mono hcls, hsess⟩
    obtain ⟨c, hr, hsess⟩ := hs.pending d hd
    refine ⟨c, hr.mono hcls, ?_⟩
    rcases hsess with hnone | heq
    · rw [hnone] at hout
      cases hout
    · rw [heq, hout]
  · intro p hp d hd
    have hold : p ∈ s.sent → ∃ c, Reports t.closes d c ∧ c.session = some p.1 := by
      intro hps
      obtain ⟨c, hr, hsess⟩ := hs.sent p hps d hd
      exact ⟨c, hr.mono hcls, hsess⟩
    rcases step_sent h with heq | heq
    · exact hold (heq ▸ hp)
    rw [heq] at hp
    rcases mem_append.mp hp with hps | hout
    · exact hold hps
    have htask : s.task = .dismissing p.1 d.id d.originDeviceId d.mark := by
      cases htask : s.task with
      | dismissing session id originDeviceId mark =>
        obtain rfl : p = (session, .dismiss id originDeviceId mark) :=
          by simpa [htask, Task.outgoing] using hout
        cases hd
        rfl
      | announced session announcement =>
        obtain rfl : p = (session, .roles announcement) :=
          by simpa [htask, Task.outgoing] using hout
        cases hd
      | _ => simp [htask, Task.outgoing] at hout
    obtain ⟨c, hr, hsess⟩ := hs.taken p.1 d htask
    exact ⟨c, hr.mono hcls, hsess⟩

instance (s : Slot Id) (a : Action Id) : Decidable (s.Undelayed a) := by
  unfold Undelayed
  induction a using Action.casesOn <;> infer_instance

/-- Where no session attaches over a pending dismissal, a request on a session
reports a human close that was observed while that session was attached. -/
theorem dismissals_stay_on_session (x : Texts) {as : List (Action Id)} {s : Slot Id}
    (hrun : run (step x) {} as = some s) (hok : Meets (step x) Undelayed {} as) (session : Nat)
    (id : Id) (originDeviceId : String) (mark : Nat)
    (hsent : (session, .dismiss id originDeviceId mark) ∈ s.sent) :
    ∃ c, s.closes[mark]? = some c ∧ c.reason = .dismissed ∧ c.id = id ∧
      c.session = some session := by
  have hstart : Tied ({} : Slot Id) := ⟨by simp [pendingDismissals], by simp, by simp⟩
  have htied := run_invariant (step x) (fun _ _ _ => step_tied) hrun hok hstart
  obtain ⟨c, hr, hsess⟩ := htied.sent _ hsent ⟨id, originDeviceId, mark⟩ rfl
  exact ⟨c, hr.1, hr.2.1, hr.2.2.1, hsess⟩

def mirrorDismissed : List (Action Nat) :=
  [.attachGeneration, .attachSender 0, .attachState 0, .work {}, .work {}, .work {}, .work {},
    .receive 0 {} (.roles ⟨[1, 3], 1⟩), .receive 0 {} (.upsert ⟨5, {}⟩),
    .work {}, .work {}, .work {}, .work {}, .work {}, .work { shown := .ok 7 }, .work {},
    .noteClosed 7 .dismissed, .askPolicy { allowDismissSync := true }, .askRoles]

theorem dismissals_stay_on_session_prompt :
    ∃ s, run (step .plain) {} (mirrorDismissed ++ [.work {}, .work {}, .work {}]) = some s ∧
      (0, .dismiss 5 "" 0) ∈ s.sent ∧ ∃ c, s.closes[0]? = some c ∧ c.reason = .dismissed ∧
      c.id = 5 ∧ c.session = some 0 := by
  refine exists_some_imp (P := fun s => (0, .dismiss 5 "" 0) ∈ s.sent) ⟨_, rfl, by decide⟩ ?_
  exact fun s hrun hsent =>
    ⟨hsent, dismissals_stay_on_session .plain hrun (by decide) 0 5 "" 0 hsent⟩

/-- Session 0 ends and session 1 attaches before the worker runs: the dismissal
observed on session 0 is put on session 1. -/
theorem dismissal_carried_to_later_session :
    ∃ s, run (step .plain) {} (mirrorDismissed ++ [.detachCheck 0, .detachSender 0, .detachState 0,
      .attachGeneration, .attachSender 1, .attachState 1, .work {}, .work {}, .work {}]) = some s ∧
      (1, .dismiss 5 "" 0) ∈ s.sent ∧ s.closes = [⟨7, .dismissed, 5, "", some 0⟩] :=
  ⟨_, rfl, by decide, by decide⟩

end Slot

end OmniBridge.Sink
