import OmniBridge.PhoneReceive

/-! Which computer a transfer speaks to. The sender and the transport of the
manager are one slot each; what still has to be sent or dialled is followed
across the sessions that come and go. -/

namespace OmniBridge.Files

open List Option Files.Task

variable {Peer : Type}

def FinishStage.wasActive : FinishStage → Bool
  | .enter => false
  | .lock w | .cancel w | .dropChallenge w | .withdraw w | .detach w | .close w _ | .delete w _
  | .tell w => w

def Task.owes (t : Task Peer) : Bool :=
  match t.job with
  | .offering | .approval .accepting | .stream .telling => true
  | .finish call => call.tells && call.stage.wasActive
  | _ => false

def Task.waits (t : Task Peer) : Bool :=
  match t.job with
  | .stream .launched | .stream (.transport _) => true
  | _ => false

def Handler.targets : Handler Peer → Option Nat
  | .idle => none
  | .accept r _ | .acceptSet r | .ready r _ => some r

namespace System

structure AllOf (s : System Peer) (peer : Peer) : Prop where
  measuring : ∀ p ∈ s.measuring, p = peer
  active : ∀ (r : Nat) tr, s.transfers[r]? = some tr →
    tr.state.isActive → tr.peer = peer
  owed : ∀ (i : Nat) t tr, s.tasks[i]? = some t → t.owes →
    s.transfers[t.transfer]? = some tr → tr.peer = peer

section

variable (s : System Peer)

def Live (r : Nat) (tr : Transfer Peer) : Prop :=
  tr.state.isActive ∨ tr.challenge.isSome ∨
    ∃ session ∈ s.session, session.handler.targets = some r

def StreamFits (t : Task Peer) (tr : Transfer Peer) : Prop :=
  match t.job with
  | .stream .launched => s.Live t.transfer tr → ∀ tp ∈ s.transport, tp.pinned = tr.peer ∧
    ∀ c ∈ tr.challenge, tp.profile = c.session.profile
  | .stream (.transport transport) => s.Live t.transfer tr → ∀ tp ∈ transport, tp.pinned = tr.peer ∧
    (∀ c ∈ tr.challenge, tp.profile = c.session.profile) ∧
    ∀ session ∈ s.session, tp.profile = session.info.profile
  | .stream (.challenge transport challenge) | .stream (.taken transport challenge) =>
    ∀ tp ∈ transport, ∀ c ∈ challenge, tp.pinned = tr.peer ∧ tp.profile = c.session.profile
  | _ => True

/-- The session's own transport is the one in the slot until the session clears it. -/
def TransportFits (session : Session Peer) : Prop :=
  match session.phase with
  | .sweeping _ => s.transport = none
  | _ => s.transport = some ⟨session.info.address, session.info.peer, session.info.profile⟩

def HandlerFits (session : Session Peer) : Prop :=
  match session.handler with
  | .idle => True
  | .accept r c | .ready r c => session.phase = .running ∧ c.session = session.info ∧
    ∃ tr, s.transfers[r]? = some tr ∧ tr.peer = session.info.peer
  | .acceptSet r => session.phase = .running ∧
    ∃ tr, s.transfers[r]? = some tr ∧ tr.peer = session.info.peer

end

structure Owned (s : System Peer) : Prop where
  valid : ∀ (i : Nat) t, s.tasks[i]? = some t → t.transfer < s.transfers.length
  sink : ∀ q ∈ s.controlSink,
    (∃ session ∈ s.session, session.info = q ∧ session.phase = .running ∧ q.carriesFiles) ∧
      s.AllOf q.peer
  slot : ∀ session ∈ s.session, s.TransportFits session
  handler : ∀ session ∈ s.session, s.HandlerFits session
  issued : ∀ session ∈ s.session, ∀ (r : Nat) tr, s.transfers[r]? = some tr →
    tr.state.isActive → ∀ c ∈ tr.challenge, c.session = session.info
  streams : ∀ (i : Nat) t tr, s.tasks[i]? = some t →
    s.transfers[t.transfer]? = some tr → s.StreamFits t tr
  sent : ∀ m ∈ s.sent, m.session.peer = m.transferPeer
  dials : ∀ d ∈ s.dials, d.transport.pinned = d.transferPeer ∧
    d.transport.profile = d.challenge.session.profile

/-- A transfer as a later step may leave it: no more active, no new challenge. -/
structure Shrinks (tr tr' : Transfer Peer) : Prop where
  peer : tr'.peer = tr.peer
  active : tr'.state.isActive → tr.state.isActive
  challenge : ∀ c ∈ tr'.challenge, c ∈ tr.challenge

variable {i r : Nat} {peer : Peer} {input : Input} {job : Job Peer} {t : Task Peer}
  {s s' : System Peer} {f : Transfer Peer → Transfer Peer} {session session' : Session Peer}
  {tr : Transfer Peer} {sha256 : List UInt8 → List UInt8} {tr' : Transfer Peer}

theorem Live.of_shrinks (hsess : s'.session = s.session) (hshr : Shrinks tr tr')
    (h : s'.Live r tr') : s.Live r tr := by
  rcases h with hact | hsome | htgt
  · exact .inl (hshr.active hact)
  · obtain ⟨c, hc⟩ := isSome_iff_exists.mp hsome
    exact .inr (.inl (isSome_iff_exists.mpr ⟨c, hshr.challenge c hc⟩))
  · exact .inr (.inr (hsess ▸ htgt))

theorem StreamFits.of_shrinks (hsess : s'.session = s.session) (htran : s'.transport = s.transport)
    (hshr : Shrinks tr tr') (h : s.StreamFits t tr) : s'.StreamFits t tr' := by
  unfold StreamFits at h ⊢
  split at h
  case h_3 | h_4 =>
    intro tp htp c hc
    rw [hshr.peer]
    exact h tp htp c hc
  · intro hlive tp htp
    obtain ⟨hpinned, hprof⟩ := h (hlive.of_shrinks hsess hshr) tp (htran ▸ htp)
    exact ⟨hpinned.trans hshr.peer.symm, fun c hc => hprof c (hshr.challenge c hc)⟩
  · intro hlive tp htp
    obtain ⟨hpinned, hprof, hinfo⟩ := h (hlive.of_shrinks hsess hshr) tp htp
    exact ⟨hpinned.trans hshr.peer.symm, fun c hc => hprof c (hshr.challenge c hc), hsess ▸ hinfo⟩
  · trivial

theorem HandlerFits.of_peers
    (hpeers : ∀ (r : Nat) tr, s.transfers[r]? = some tr → ∃ tr', s'.transfers[r]? = some tr' ∧
      tr'.peer = tr.peer) (h : s.HandlerFits session) : s'.HandlerFits session := by
  have htgt (r : Nat) (hs : ∃ tr, s.transfers[r]? = some tr ∧ tr.peer = session.info.peer) :
      ∃ tr, s'.transfers[r]? = some tr ∧ tr.peer = session.info.peer := by
    obtain ⟨tr, htr, hpeer⟩ := hs
    obtain ⟨tr', htr', heq⟩ := hpeers r tr htr
    exact ⟨tr', htr', heq.trans hpeer⟩
  unfold HandlerFits at h ⊢
  split at h
  · trivial
  · exact ⟨h.1, h.2.1, htgt _ h.2.2⟩
  · exact ⟨h.1, h.2.1, htgt _ h.2.2⟩
  · exact ⟨h.1, htgt _ h.2⟩

section

variable (h : s.Owned)
include h

theorem Owned.setTables (table : List (List UInt8 × Nat)) (entries : List Entry) :
    Owned { s with table, entries } := by
  refine { h with sink := ?_ }
  intro q hq
  obtain ⟨hrunn, hall⟩ := h.sink q hq
  exact ⟨hrunn, hall.measuring, hall.active, hall.owed⟩

theorem Owned.rewrite
    (hf : ∀ tr, s.transfers[r]? = some tr → (f tr).peer = tr.peer ∧
      ((f tr).state.isActive → tr.state.isActive))
    (hiss : ∀ session ∈ s.session, ∀ tr, s.transfers[r]? = some tr → (f tr).state.isActive →
      ∀ c ∈ (f tr).challenge, c.session = session.info)
    (hstr : ∀ t tr, s.transfers[r]? = some tr → t.transfer = r → s.StreamFits t tr →
      s.StreamFits t (f tr)) : (s.modifyTransfer r f).Owned := by
  have hcase {r' : Nat} {tr' : Transfer Peer}
      (htr' : (s.modifyTransfer r f).transfers[r']? = some tr') :
      s.transfers[r']? = some tr' ∨ r = r' ∧ ∃ tr, s.transfers[r]? = some tr ∧ tr' = f tr := by
    obtain ⟨tr, htr, rfl⟩ := getElem?_modify_eq_some htr'
    by_cases hr : r = r'
    · subst hr
      exact .inr ⟨rfl, tr, htr, if_pos rfl⟩
    · rw [if_neg hr]
      exact .inl htr
  have hold {r' : Nat} {tr' : Transfer Peer}
      (htr' : (s.modifyTransfer r f).transfers[r']? = some tr') :
      ∃ tr, s.transfers[r']? = some tr ∧ tr'.peer = tr.peer ∧
        (tr'.state.isActive → tr.state.isActive) := by
    rcases hcase htr' with htr | ⟨rfl, tr, htr, rfl⟩
    · exact ⟨tr', htr, rfl, id⟩
    · exact ⟨tr, htr, hf tr htr⟩
  refine { h with valid := ?_, sink := ?_, handler := ?_, issued := ?_, streams := ?_ }
  · intro i t ht
    have hlt := h.valid i t ht
    simpa [System.modifyTransfer] using hlt
  · intro q hq
    obtain ⟨hrunn, hall⟩ := h.sink q hq
    refine ⟨hrunn, hall.measuring, ?_, ?_⟩
    · intro r' _ htr' hact
      obtain ⟨tr, htr, hpeer, hold⟩ := hold htr'
      exact hpeer.trans (hall.active r' tr htr (hold hact))
    · intro i t _ ht howes htr'
      obtain ⟨tr, htr, hpeer, -⟩ := hold htr'
      exact hpeer.trans (hall.owed i t tr ht howes htr)
  · intro session hsess
    refine (h.handler session hsess).of_peers ?_
    intro _ tr htr
    refine ⟨_, getElem?_modify_of_eq_some htr r f, ?_⟩
    split
    · next hr => exact (hf tr (hr ▸ htr)).1
    · rfl
  · intro session hsess r' tr' htr' hact c hc
    rcases hcase htr' with htr | ⟨rfl, tr, htr, rfl⟩
    · exact h.issued session hsess r' tr' htr hact c hc
    · exact hiss session hsess tr htr hact c hc
  · intro i t tr' ht htr'
    rcases hcase htr' with htr | ⟨hr, tr, htr, rfl⟩
    · exact h.streams i t tr' ht htr
    · exact hstr t tr htr hr.symm (h.streams i t tr ht (hr ▸ htr))

theorem Owned.modifyTransfer (r) (hf : ∀ tr, s.transfers[r]? = some tr → Shrinks tr (f tr)) :
    (s.modifyTransfer r f).Owned := by
  refine h.rewrite (fun tr htr => ⟨(hf tr htr).peer, (hf tr htr).active⟩) ?_
    (fun _ tr htr _ => StreamFits.of_shrinks rfl rfl (hf tr htr))
  intro session hsess tr htr hact c hc
  exact h.issued session hsess r tr htr ((hf tr htr).active hact) c ((hf tr htr).challenge c hc)

theorem Owned.modifyTask (ht : s.tasks[i]? = some t) (htr : s.transfers[t.transfer]? = some tr)
    {f : Task Peer → Task Peer} (htrans : (f t).transfer = t.transfer)
    (howes : (f t).owes → ∀ q ∈ s.controlSink, tr.peer = q.peer) (hfits : s.StreamFits (f t) tr) :
    (s.modifyTask i f).Owned := by
  have htask (j : Nat) (u : Task Peer) (hu : (s.modifyTask i f).tasks[j]? = some u) :
      u = f t ∨ s.tasks[j]? = some u := (modify_cases ht hu).imp And.right And.right
  refine { h with valid := ?_, sink := ?_, streams := ?_ }
  · intro j u hu
    rcases htask j u hu with rfl | hu'
    · rw [htrans]
      exact h.valid i t ht
    · exact h.valid j u hu'
  · intro q hq
    obtain ⟨hrunn, hall⟩ := h.sink q hq
    refine ⟨hrunn, hall.measuring, hall.active, ?_⟩
    intro j u tr' hu huowes htr'
    rcases htask j u hu with rfl | hu'
    · rw [htrans] at htr'
      obtain rfl := mem_unique htr htr'
      exact howes huowes q hq
    · exact hall.owed j u tr' hu' huowes htr'
  · intro j u tr' hu htr'
    rcases htask j u hu with rfl | hu'
    · rw [htrans] at htr'
      obtain rfl := mem_unique htr htr'
      exact hfits
    · exact h.streams j u tr' hu' htr'

theorem Owned.setJob (ht : s.tasks[i]? = some t) (htr : s.transfers[t.transfer]? = some tr)
    (howes : owes { t with job := job } → ∀ q ∈ s.controlSink, tr.peer = q.peer)
    (hfits : s.StreamFits { t with job := job } tr) : (s.setJob i job).Owned :=
  h.modifyTask ht htr rfl howes hfits

theorem Owned.spawn (htr : s.transfers[r]? = some tr)
    (howes : owes { transfer := r, job := job } → ∀ q ∈ s.controlSink, tr.peer = q.peer)
    (hfits : s.StreamFits { transfer := r, job := job } tr) : (s.spawn r job).Owned := by
  refine { h with valid := ?_, sink := ?_, streams := ?_ }
  · exact forall_getElem?_concat h.valid (List.getElem?_eq_some_iff.mp htr).1
  · intro q hq
    obtain ⟨hrunn, hall⟩ := h.sink q hq
    refine ⟨hrunn, hall.measuring, hall.active, ?_⟩
    intro i t tr' ht htowes htr'
    rcases getElem?_concat_eq_some ht with ht | ⟨-, rfl⟩
    · exact hall.owed i t tr' ht htowes htr'
    · obtain rfl := mem_unique htr htr'
      exact howes htowes q hq
  · intro i t tr' ht htr'
    rcases getElem?_concat_eq_some ht with ht | ⟨-, rfl⟩
    · exact h.streams i t tr' ht htr'
    · obtain rfl := mem_unique htr htr'
      exact hfits

theorem Owned.insert (hpeer : ∀ q ∈ s.controlSink, tr.peer = q.peer) (hchal : tr.challenge = none) :
    (s.insert tr).Owned := by
  have hold (r : Nat) (tr' : Transfer Peer) (hr : r < s.transfers.length)
      (htr' : (s.insert tr).transfers[r]? = some tr') : s.transfers[r]? = some tr' := by
    rcases getElem?_concat_eq_some htr' with htr' | ⟨rfl, -⟩
    · exact htr'
    · omega
  refine { h with valid := ?_, sink := ?_, handler := ?_, issued := ?_, streams := ?_ }
  · intro i t ht
    have hlt := h.valid i t ht
    simp only [System.insert, length_append]
    omega
  · intro q hq
    obtain ⟨hrunn, hall⟩ := h.sink q hq
    refine ⟨hrunn, hall.measuring, ?_, ?_⟩
    · exact forall_getElem?_concat hall.active (fun _ => hpeer q hq)
    · intro i t tr' ht howes htr'
      exact hall.owed i t tr' ht howes (hold _ tr' (h.valid i t ht) htr')
  · intro session hsess
    refine (h.handler session hsess).of_peers ?_
    intro r tr' htr'
    exact ⟨tr', getElem?_concat_of_eq_some htr' tr, rfl⟩
  · intro session hsess r tr' htr' hact c hc
    rcases getElem?_concat_eq_some htr' with htr' | ⟨-, rfl⟩
    · exact h.issued session hsess r tr' htr' hact c hc
    · rw [hchal] at hc
      cases hc
  · intro i t tr' ht htr'
    exact h.streams i t tr' ht (hold _ tr' (h.valid i t ht) htr')

theorem Owned.sendControl (hpeer : ∀ q ∈ s.controlSink, peer = q.peer) (id) (body : ControlBody)
    (ok : Bool) : (s.sendControl peer id body ok).2.Owned := by
  unfold System.sendControl
  split
  · next q hq =>
    refine { h with sink := ?_, sent := ?_ }
    · intro q' hq'
      obtain ⟨hrunn, hall⟩ := h.sink q' hq'
      exact ⟨hrunn, hall.measuring, hall.active, hall.owed⟩
    · exact forall_mem_concat h.sent (hpeer q hq).symm
  · exact h

theorem Owned.peer_of_owes (ht : s.tasks[i]? = some t) (htr : s.transfers[t.transfer]? = some tr)
    (howes : t.owes) : ∀ q ∈ s.controlSink, tr.peer = q.peer :=
  fun q hq => (h.sink q hq).2.owed i t tr ht howes htr

theorem Owned.peer_of_active (htr : s.transfers[r]? = some tr) (hact : tr.state.isActive) :
    ∀ q ∈ s.controlSink, tr.peer = q.peer :=
  fun q hq => (h.sink q hq).2.active r tr htr hact

end

section

variable (h : s.Owned) (ht : s.tasks[i]? = some t) (htr : s.transfers[t.transfer]? = some tr)
include h ht htr

theorem Owned.sendThenSetJob (howes : t.owes) {body ok} (hidle : owes { t with job := job } = false)
    (hfits : ∀ s' : System Peer, s'.StreamFits { t with job := job } tr) :
    ((s.sendControl tr.peer tr.id body ok).2.setJob i job).Owned := by
  have hs := h.sendControl (h.peer_of_owes ht htr howes) tr.id body ok
  obtain ⟨htransf, htasks⟩ : (s.sendControl tr.peer tr.id body ok).2.transfers = s.transfers ∧
      (s.sendControl tr.peer tr.id body ok).2.tasks = s.tasks := by
    unfold System.sendControl
    split <;> exact ⟨rfl, rfl⟩
  refine hs.setJob (t := t) (by rw [htasks]; exact ht) (by rw [htransf]; exact htr) ?_ (hfits _)
  intro hjob
  rw [hidle] at hjob
  cases hjob

theorem Owned.shrinkThenSetJob (hf : Shrinks tr (f tr))
    (howes : owes { t with job := job } → ∀ q ∈ s.controlSink, tr.peer = q.peer)
    (hfits : (s.modifyTransfer t.transfer f).StreamFits { t with job := job } (f tr)) :
    ((s.modifyTransfer t.transfer f).setJob i job).Owned := by
  have hm : (s.modifyTransfer t.transfer f).Owned := by
    apply h.modifyTransfer
    intro _ htr'
    obtain rfl := mem_unique htr htr'
    exact hf
  have htr' : (s.modifyTransfer t.transfer f).transfers[t.transfer]? = some (f tr) :=
    getElem?_modify_self htr f
  refine hm.setJob ht htr' ?_ hfits
  intro hjob q hq
  exact hf.peer.trans (howes hjob q hq)

theorem finishStep_owned {call} (hjob : t.job = .finish call)
    (hstep : s.finishStep i t.transfer tr call input = some s') : s'.Owned := by
  have howed : t.owes = (call.tells && call.stage.wasActive) := by
    unfold owes
    rw [hjob]
  have hkeep (w : Bool) (hw : call.stage.wasActive = w) (htrue : (call.tells && w)) :
      ∀ q ∈ s.controlSink, tr.peer = q.peer := by
    apply h.peer_of_owes ht htr
    rw [howed, hw]
    exact htrue
  unfold finishStep at hstep
  split at hstep
  case h_3 w hst | h_5 w hst =>
    cases hstep
    exact h.shrinkThenSetJob ht htr ⟨rfl, id, fun _ hc => hc⟩ (hkeep w (by rw [hst]; rfl)) trivial
  · cases hstep
    refine h.setJob ht htr ?_ trivial
    intro howes
    exact h.peer_of_active htr (Bool.and_eq_true_iff.mp howes).2
  · next w hst =>
    have hw : call.stage.wasActive = w := by rw [hst]; rfl
    split at hstep
    · next hcan =>
      cases hstep
      have hact := TransferState.isActive_of_canTransitionTo hcan
      exact h.shrinkThenSetJob ht htr ⟨rfl, fun _ => hact, fun _ hc => hc⟩ (hkeep w hw) trivial
    · cases hstep
      exact h.setJob ht htr (hkeep w hw) trivial
  · next w hst =>
    cases hstep
    exact h.shrinkThenSetJob ht htr ⟨rfl, id, by intro c hc; cases hc⟩
      (hkeep w (by rw [hst]; rfl)) trivial
  · next w hst =>
    have hw : call.stage.wasActive = w := by rw [hst]; rfl
    split at hstep
    · cases hstep
      exact h.setJob ht htr (hkeep w hw) trivial
    · cases hstep
      exact h.shrinkThenSetJob ht htr ⟨rfl, id, fun _ hc => hc⟩ (hkeep w hw) trivial
  · next w _ hst =>
    cases hstep
    refine (h.setJob ht htr ?_ ?_).setTables _ _
    exacts [hkeep w (by rw [hst]; rfl), trivial]
  · next w _ _ hst =>
    cases hstep
    refine (h.setJob ht htr ?_ ?_).setTables _ _
    exacts [hkeep w (by rw [hst]; rfl), trivial]
  · next hst =>
    split at hstep
    · next htells _ =>
      cases hstep
      refine h.sendThenSetJob ht htr ?_ rfl (fun _ => trivial)
      rw [howed, hst, htells]
      rfl
    · cases hstep
      exact h.setJob ht htr nofun trivial
  · cases hstep

end

variable {next : TransferState} {u : System Peer}

theorem Owned.setState (h : s.Owned) (htr : s.transfers[r]? = some tr)
    (hu : s.transition r next = some u) :
    tr.state.isActive ∧ u = s.modifyTransfer r ({ · with state := next }) ∧ u.Owned := by
  unfold transition at hu
  rw [htr] at hu
  split at hu
  · next hcan =>
    cases hu
    have hact := TransferState.isActive_of_canTransitionTo hcan
    refine ⟨hact, rfl, h.modifyTransfer r ?_⟩
    intro _ htr'
    obtain rfl := mem_unique htr htr'
    exact ⟨rfl, fun _ => hact, fun _ hc => hc⟩
  · cases hu

section

variable (h : s.Owned) (ht : s.tasks[i]? = some t) (htr : s.transfers[t.transfer]? = some tr)
include h ht htr

theorem Owned.transitThenSetJob (hu : s.transition t.transfer next = some u)
    (hfits : ∀ tr', u.StreamFits { t with job := job } tr') : (u.setJob i job).Owned := by
  obtain ⟨hact, rfl, hm⟩ := h.setState htr hu
  refine hm.setJob ht (getElem?_modify_self htr _) ?_ (hfits _)
  intro _ q hq
  exact h.peer_of_active htr hact q hq

theorem approvalStep_owned {stage} (hjob : t.job = .approval stage)
    (hstep : s.approvalStep i t.transfer tr stage input = some s') : s'.Owned := by
  unfold approvalStep at hstep
  split at hstep
  case h_2 | h_3 =>
    cases hstep
    exact h.setJob ht htr nofun trivial
  · obtain ⟨accepted, -, rfl⟩ := map_eq_some_iff.mp hstep
    exact h.setJob ht htr nofun trivial
  · split at hstep
    all_goals
      cases hstep
      exact h.setJob ht htr nofun trivial
  · split at hstep
    · cases hstep
      refine (h.setJob ht htr ?_ ?_).setTables _ _
      exacts [nofun, trivial]
    · cases hstep
      exact h.setJob ht htr nofun trivial
  · cases hstep
    exact h.shrinkThenSetJob ht htr ⟨rfl, id, fun _ hc => hc⟩ nofun trivial
  · split at hstep
    · cases hstep
      exact h.setJob ht htr nofun trivial
    · next u hu =>
      cases hstep
      exact h.transitThenSetJob ht htr hu (fun _ => trivial)
  · next ok =>
    have howes : t.owes := by
      unfold owes
      rw [hjob]
    split at hstep
    all_goals
      next u hu =>
      cases hstep
      obtain rfl : (s.sendControl tr.peer tr.id .accept ok).2 = u := by rw [hu]
      exact h.sendThenSetJob ht htr howes rfl (fun _ => trivial)
  · cases hstep

theorem Owned.writeThenSetJob (k : Nat) (bytes : List UInt8)
    (hidle : owes { t with job := job } = false)
    (hfits : ∀ (s' : System Peer) (u : Task Peer), s'.StreamFits { u with job := job } tr) :
    ((s.writeEntry i k bytes).setJob i job).Owned := by
  have he : (s.modifyEntry k (fun e =>
      { e with written := e.written ++ bytes, writers := e.writers ++ [i] })).Owned :=
    h.setTables _ _
  have hw : (s.writeEntry i k bytes).Owned :=
    he.modifyTask ht htr rfl (fun howes => h.peer_of_owes ht htr howes) (he.streams i t tr ht htr)
  have htask : (s.writeEntry i k bytes).tasks[i]? = some { t with wrote := t.wrote ++ bytes } :=
    getElem?_modify_self ht _
  refine hw.setJob htask htr ?_ (hfits _ _)
  intro howes
  exact absurd (hidle.symm.trans howes) nofun

theorem receiveStep_owned {k read polled}
    (hstep : s.receiveStep i k tr read polled input = some s') : s'.Owned := by
  have hclose (job : Job Peer) (hidle : owes { t with job := job } = false)
      (hfits : s.StreamFits { t with job := job } tr) : ((s.closeEntry k).setJob i job).Owned :=
    (h.setJob ht htr (fun howes => absurd (hidle.symm.trans howes) nofun) hfits).setTables _ _
  unfold receiveStep at hstep
  dsimp only at hstep
  split at hstep
  case h_4 | h_5 =>
    split at hstep
    · cases hstep
      exact hclose _ rfl trivial
    · cases hstep
  · split at hstep
    · cases hstep
    split at hstep
    · cases hstep
      exact hclose _ rfl trivial
    · cases hstep
      exact h.setJob ht htr nofun trivial
  · split at hstep
    · cases hstep
    split at hstep
    · cases hstep
      exact h.writeThenSetJob ht htr k _ rfl (fun _ _ => trivial)
    · cases hstep
      exact h.setJob ht htr nofun trivial
  · cases hstep
    exact hclose _ rfl trivial
  · split at hstep
    · cases hstep
      exact hclose _ rfl trivial
    split at hstep
    · next part _ _ =>
      cases hstep
      refine (h.writeThenSetJob ht htr k part ?_ ?_).setTables _ _
      exacts [rfl, fun _ _ => trivial]
    · cases hstep
  · cases hstep

end

theorem TransportFits.profile {tp} (h : s.TransportFits session) (htp : s.transport = some tp) :
    tp.profile = session.info.profile := by
  unfold TransportFits at h
  split at h
  · rw [h] at htp
    cases htp
  · rw [h] at htp
    cases htp
    rfl

theorem streamStep_owned (h : s.Owned) (ht : s.tasks[i]? = some t)
    (htr : s.transfers[t.transfer]? = some tr) {stage} (hjob : t.job = .stream stage)
    (hstep : s.streamStep sha256 i t.transfer tr stage input = some s') : s'.Owned := by
  have hfits := h.streams i t tr ht htr
  unfold StreamFits at hfits
  rw [hjob] at hfits
  unfold streamStep at hstep
  split at hstep
  case h_5 | h_6 | h_8 | h_9 =>
    cases hstep
    exact h.setJob ht htr nofun trivial
  case h_11 | h_14 =>
    split at hstep
    all_goals
      cases hstep
      exact h.setJob ht htr nofun trivial
  case h_13 | h_17 =>
    split at hstep
    · cases hstep
      exact h.setJob ht htr nofun trivial
    · next hu =>
      cases hstep
      exact h.transitThenSetJob ht htr hu (fun _ => trivial)
  · cases hstep
    refine h.setJob ht htr nofun ?_
    intro hlive tp htp
    obtain ⟨hpinned, hprof⟩ := hfits hlive tp htp
    exact ⟨hpinned, hprof, fun session hsess => (h.slot session hsess).profile htp⟩
  · cases hstep
    refine h.modifyTask ht htr rfl nofun ?_
    intro tp htp c hc
    have hlive : s.Live t.transfer tr := .inr (.inl (isSome_iff_exists.mpr ⟨c, hc⟩))
    obtain ⟨hpinned, hprof, -⟩ := hfits hlive tp htp
    exact ⟨hpinned, hprof c hc⟩
  · cases hstep
    exact h.shrinkThenSetJob ht htr ⟨rfl, id, by intro c hc; cases hc⟩ nofun hfits
  · next transport challenge _ =>
    have hd : Owned { s with dials := s.dials ++ [⟨tr.peer, tr.id, transport, challenge⟩] } := by
      refine { h with sink := ?_, dials := ?_ }
      · intro q hq
        obtain ⟨hrunn, hall⟩ := h.sink q hq
        exact ⟨hrunn, hall.measuring, hall.active, hall.owed⟩
      · exact forall_mem_concat h.dials (hfits transport rfl challenge rfl)
    split at hstep
    all_goals
      cases hstep
      exact hd.setJob ht htr nofun trivial
  · split at hstep
    · cases hstep
      exact h.setJob ht htr nofun trivial
    split at hstep
    · cases hstep
      exact h.setJob ht htr nofun trivial
    · cases hstep
      exact h.modifyTask ht htr rfl nofun trivial
  · split at hstep
    · cases hstep
      exact h.setJob ht htr nofun trivial
    · cases hstep
  · exact receiveStep_owned h ht htr hstep
  · next =>
    split at hstep
    · cases hstep
      refine (h.setJob ht htr ?_ ?_).setTables _ _
      exacts [nofun, trivial]
    · cases hstep
      exact h.setJob ht htr nofun trivial
  · cases hstep
    exact h.shrinkThenSetJob ht htr ⟨rfl, id, fun _ hc => hc⟩ nofun trivial
  · cases hstep
    have howes : t.owes := by
      unfold owes
      rw [hjob]
    exact h.sendThenSetJob ht htr howes rfl (fun _ => trivial)
  · cases hstep

theorem taskStep_owned (h : s.Owned) (ht : s.tasks[i]? = some t)
    (htr : s.transfers[t.transfer]? = some tr) (hstep : s.taskStep sha256 i t tr input = some s') :
    s'.Owned := by
  unfold taskStep at hstep
  split at hstep
  · next ok hjob =>
    have howes : t.owes := by
      unfold owes
      rw [hjob]
    split at hstep
    all_goals
      next u hu =>
      cases hstep
      obtain rfl : (s.sendControl tr.peer tr.id .offer ok).2 = u := by rw [hu]
      exact h.sendThenSetJob ht htr howes rfl (fun _ => trivial)
  · next hjob => exact approvalStep_owned h ht htr hjob hstep
  · next hjob => exact streamStep_owned h ht htr hjob hstep
  · next hjob => exact finishStep_owned h ht htr hjob hstep
  · cases hstep

theorem StreamFits.imp (hlive : s'.Live t.transfer tr → s.Live t.transfer tr)
    (htran : ∀ tp ∈ s'.transport, tp ∈ s.transport)
    (hinfo : ∀ new ∈ s'.session, ∃ old ∈ s.session, new.info = old.info) (h : s.StreamFits t tr) :
    s'.StreamFits t tr := by
  unfold StreamFits at h ⊢
  split at h
  · exact fun hl tp htp => h (hlive hl) tp (htran tp htp)
  · intro hl tp htp
    obtain ⟨hpinned, hprof, hold⟩ := h (hlive hl) tp htp
    refine ⟨hpinned, hprof, ?_⟩
    intro new hnew
    obtain ⟨old, hmem, heq⟩ := hinfo new hnew
    rw [heq]
    exact hold old hmem
  · exact h
  · exact h
  · trivial

theorem Owned.switch (h : s.Owned) {session transport}
    (hinfo : ∀ new ∈ session, ∃ old ∈ s.session, new.info = old.info)
    (htran : ∀ tp ∈ transport, tp ∈ s.transport)
    (htarg : ∀ new ∈ session, ∀ r, new.handler.targets = some r →
      (∃ old ∈ s.session, old.handler.targets = some r) ∨ ∃ tr, s.transfers[r]? = some tr ∧
      tr.state.isActive)
    (hsink : ∀ q ∈ s.controlSink, ∃ new ∈ session, new.info = q ∧ new.phase = .running)
    (hslot : ∀ new ∈ session, TransportFits { s with transport } new)
    (hhand : ∀ new ∈ session, s.HandlerFits new) : Owned { s with session, transport } := by
  refine { h with sink := ?_, slot := hslot, handler := hhand, issued := ?_, streams := ?_ }
  · intro q hq
    obtain ⟨⟨_, -, -, -, hfiles⟩, hall⟩ := h.sink q hq
    obtain ⟨new, hnew, hqinfo, hrunn⟩ := hsink q hq
    exact ⟨⟨new, hnew, hqinfo, hrunn, hfiles⟩, hall.measuring, hall.active, hall.owed⟩
  · intro new hnew r tr htr hact c hc
    obtain ⟨old, hold, heq⟩ := hinfo new hnew
    rw [heq]
    exact h.issued old hold r tr htr hact c hc
  · intro i t tr ht htr
    refine (h.streams i t tr ht htr).imp ?_ htran hinfo
    rintro (hact | hsome | ⟨new, hnew, htgt⟩)
    · exact .inl hact
    · exact .inr (.inl hsome)
    rcases htarg new hnew _ htgt with hold | ⟨_, htr', hact⟩
    · exact .inr (.inr hold)
    · obtain rfl := mem_unique htr htr'
      exact .inl hact

theorem Owned.setSession (h : s.Owned) (hs : s.session = some session)
    (hinfo : session'.info = session.info)
    (htarg : ∀ r, session'.handler.targets = some r → session.handler.targets = some r ∨
      ∃ tr, s.transfers[r]? = some tr ∧ tr.state.isActive) (hslot : s.TransportFits session')
    (hhand : s.HandlerFits session') (hsink : ∀ q ∈ s.controlSink, session'.phase = .running) :
    (s.setSession session').Owned := by
  refine h.switch ?_ (fun _ htp => htp) ?_ ?_ ?_ ?_
  · rintro _ ⟨⟩
    exact ⟨session, hs, hinfo⟩
  · rintro _ ⟨⟩ r hr
    exact (htarg r hr).imp_left (fun hold => ⟨session, hs, hold⟩)
  · intro q hq
    obtain ⟨⟨_, hold, hqinfo, -⟩, -⟩ := h.sink q hq
    obtain rfl := mem_unique hs hold
    exact ⟨session', rfl, hinfo.trans hqinfo, hsink q hq⟩
  · rintro _ ⟨⟩
    exact hslot
  · rintro _ ⟨⟩
    exact hhand

theorem Owned.endSession (h : s.Owned) (hsink : s.controlSink = none) :
    Owned { s with session := none } :=
  h.switch nofun (fun _ htp => htp) nofun (by simp [hsink]) nofun nofun

theorem Owned.clearTransport (h : s.Owned) {left} (hs : s.session = some session)
    (hinfo : session'.info = session.info) (hidle : session'.handler = .idle)
    (hleft : session'.phase = .sweeping left) (hsink : s.controlSink = none) :
    (System.setSession session' { s with transport := none }).Owned := by
  refine h.switch ?_ nofun ?_ (by simp [hsink]) ?_ ?_
  · rintro _ ⟨⟩
    exact ⟨session, hs, hinfo⟩
  · rintro _ ⟨⟩ r hr
    rw [hidle] at hr
    cases hr
  · rintro _ ⟨⟩
    unfold TransportFits
    rw [hleft]
  · rintro _ ⟨⟩
    unfold HandlerFits
    rw [hidle]
    trivial

theorem Owned.setChallenge (h : s.Owned) {challenge} (hs : s.session = some session)
    (htgt : session.handler.targets = some r) (hiss : challenge.session = session.info) :
    (s.modifyTransfer r ({ · with challenge := some challenge })).Owned := by
  refine h.rewrite (fun _ _ => ⟨rfl, id⟩) ?_ ?_
  · intro _ hsess' _ _ _ c hc
    obtain rfl := mem_unique hs hsess'
    cases hc
    exact hiss
  · intro t tr _ hr hfits
    have hlive : s.Live t.transfer tr := .inr (.inr ⟨session, hs, by rw [htgt, hr]⟩)
    unfold StreamFits at hfits ⊢
    split at hfits
    · intro _ tp htp
      refine ⟨(hfits hlive tp htp).1, ?_⟩
      intro c hc
      cases hc
      rw [hiss]
      exact (h.slot session hs).profile htp
    · intro _ tp htp
      obtain ⟨hpinned, -, hinfo⟩ := hfits hlive tp htp
      refine ⟨hpinned, ?_, hinfo⟩
      intro c hc
      cases hc
      rw [hiss]
      exact hinfo session hs
    · exact hfits
    · exact hfits
    · trivial

def Rested (s : System Peer) : Prop :=
  (∀ tr ∈ s.transfers, tr.state.isActive → tr.challenge.isNone) ∧
  ∀ t ∈ s.tasks, t.waits → ∀ tr ∈ s.transfers[t.transfer]?,
    tr.state.isActive = false ∧ tr.challenge.isNone

def OnlyFor (s : System Peer) (peer : Peer) : Prop :=
  (∀ p ∈ s.measuring, p = peer) ∧
  (∀ tr ∈ s.transfers, tr.state.isActive → tr.peer = peer) ∧
  ∀ t ∈ s.tasks, t.owes → ∀ tr ∈ s.transfers[t.transfer]?, tr.peer = peer

instance (s : System Peer) : Decidable s.Rested := inferInstanceAs (Decidable (_ ∧ _))

theorem connect_owned (h : s.Owned) (hnone : s.session = none) (hok : s.Rested)
    (info : SessionInfo Peer) :
    Owned { s with transport := some ⟨info.address, info.peer, info.profile⟩
                   session := some { info := info } } := by
  refine { h with sink := ?_, slot := ?_, handler := ?_, issued := ?_, streams := ?_ }
  · intro q hq
    obtain ⟨⟨_, hs, -⟩, -⟩ := h.sink q hq
    rw [hnone] at hs
    cases hs
  · intro _ hs
    cases hs
    rfl
  · intro _ hs
    cases hs
    trivial
  · intro _ _ r tr htr hact c hc
    have hc' := hok.1 tr (mem_of_getElem? htr) hact
    rw [isNone_iff_eq_none.mp hc'] at hc
    cases hc
  · intro i t tr ht htr
    have hdead (hwaits : t.waits)
        (hl : Live { s with transport := some ⟨info.address, info.peer, info.profile⟩
                            session := some { info := info } } t.transfer tr) : False := by
      obtain ⟨hinact, hchal⟩ := hok.2 t (mem_of_getElem? ht) hwaits tr htr
      rcases hl with hact | hsome | ⟨_, hs, htgt⟩
      · rw [hinact] at hact
        cases hact
      · rw [isNone_iff_eq_none.mp hchal] at hsome
        cases hsome
      · cases hs
        cases htgt
    have hfits := h.streams i t tr ht htr
    unfold waits at hdead
    unfold StreamFits at hfits ⊢
    generalize t.job = job at hdead hfits ⊢
    split at hfits
    · exact fun hl => (hdead rfl hl).elim
    · exact fun hl => (hdead rfl hl).elim
    · exact hfits
    · exact hfits
    · trivial

theorem attachControl_owned (h : s.Owned) (hs : s.session = some session)
    (hph : session.phase = .connected)
    (hok : session.info.carriesFiles → s.OnlyFor session.info.peer) :
    (System.setSession { session with phase := .running }
      { s with controlSink := (if session.info.carriesFiles then some session.info
                               else s.controlSink) }).Owned := by
  have hslot : s.TransportFits { session with phase := .running } := by
    have hold := h.slot session hs
    unfold TransportFits at hold
    rw [hph] at hold
    exact hold
  have hhand : s.HandlerFits { session with phase := .running } := by
    have hold := h.handler session hs
    unfold HandlerFits at hold ⊢
    split at hold
    · next hidle => simp only [hidle]
    all_goals cases hph.symm.trans hold.1
  have hold : (s.setSession { session with phase := .running }).Owned :=
    h.setSession hs rfl (fun r hr => .inl hr) hslot hhand (fun _ _ => rfl)
  cases hfiles : session.info.carriesFiles with
  | false => exact hold
  | true =>
    refine { hold with sink := ?_ }
    intro q hq
    obtain rfl : session.info = q := by simpa [System.setSession] using hq
    refine ⟨⟨{ session with phase := .running }, rfl, rfl, rfl, hfiles⟩, ?_, ?_, ?_⟩
    · exact (hok hfiles).1
    · exact fun r tr htr hact => (hok hfiles).2.1 tr (mem_of_getElem? htr) hact
    · exact fun i t tr ht howes htr => (hok hfiles).2.2 t (mem_of_getElem? ht) howes tr htr

theorem Owned.insertThenSpawn (h : s.Owned) (hpeer : ∀ q ∈ s.controlSink, tr.peer = q.peer)
    (hchal : tr.challenge = none)
    (hfits : ∀ t : Task Peer, (s.insert tr).StreamFits { t with job := job } tr) :
    ((s.insert tr).spawn s.transfers.length job).Owned := by
  have htr : (s.insert tr).transfers[s.transfers.length]? = some tr := by simp [System.insert]
  exact (h.insert hpeer hchal).spawn htr (fun _ => hpeer) (hfits { transfer := _, job := job })

section

variable (h : s.Owned) (hs : s.session = some session)
include h hs

theorem spawnAndWait_owned {call} (htr : s.transfers[r]? = some tr)
    (howes : (call.tells && call.stage.wasActive) = false) (hinfo : session'.info = session.info)
    (hhand : session'.handler = session.handler) (hslot : s.TransportFits session')
    (hfits : s.HandlerFits session') (hsink : ∀ q ∈ s.controlSink, session'.phase = .running) :
    (s.spawnAndWait session' r (.finish call)).Owned := by
  have hspawn : (s.spawn r (.finish call)).Owned := by
    refine h.spawn htr ?_ trivial
    intro htrue
    exact absurd (howes.symm.trans htrue) nofun
  exact hspawn.setSession hs hinfo (fun r hr => .inl (hhand ▸ hr)) hslot hfits hsink

theorem handlerStep_owned (hstep : s.handlerStep session = some s') : s'.Owned := by
  have hslot := h.slot session hs
  have hfits := h.handler session hs
  have hlaunch {u : System Peer} (hu : u.Owned) (hus : u.session = some session) {r : Nat}
      {tr : Transfer Peer} (htr : u.transfers[r]? = some tr) (hph : session.phase = .running)
      (hpeer : tr.peer = session.info.peer) (hc : ∀ c ∈ tr.challenge, c.session = session.info) :
      ((u.spawn r (.stream .launched)).setSession { session with handler := .idle }).Owned := by
    have huslot := hu.slot session hus
    have hspawn : (u.spawn r (.stream .launched)).Owned := by
      refine hu.spawn htr nofun ?_
      intro _ _ htp
      refine ⟨?_, ?_⟩
      · unfold TransportFits at huslot
        rw [hph] at huslot
        obtain rfl := mem_unique huslot htp
        exact hpeer.symm
      · intro c hcmem
        rw [hc c hcmem]
        exact huslot.profile htp
    exact hspawn.setSession hus rfl nofun huslot trivial (fun _ _ => hph)
  unfold handlerStep at hstep
  unfold HandlerFits at hfits
  split at hstep
  · cases hstep
  · next r _ hhand =>
    rw [hhand] at hfits
    obtain ⟨hph, hiss, _, htr, hpeer⟩ := hfits
    cases hstep
    have htgt : session.handler.targets = some r := by rw [hhand]; rfl
    have hm := h.setChallenge hs htgt hiss
    refine hm.setSession hs rfl ?_ hslot ?_ (fun _ _ => hph)
    · intro r' hr'
      obtain rfl : r = r' := some.inj hr'
      exact .inl htgt
    · exact ⟨hph, _, getElem?_modify_self htr _, hpeer⟩
  · next r hhand =>
    rw [hhand] at hfits
    obtain ⟨hph, tr, htr, hpeer⟩ := hfits
    split at hstep
    · cases hstep
      exact h.setSession hs rfl nofun hslot trivial (fun _ _ => hph)
    · next hu =>
      cases hstep
      obtain ⟨hact, rfl, hm⟩ := h.setState htr hu
      refine hlaunch hm hs (getElem?_modify_self htr _) hph hpeer ?_
      exact fun c hc => h.issued session hs r tr htr hact c hc
  · next r _ hhand =>
    rw [hhand] at hfits
    obtain ⟨hph, hiss, _, htr, hpeer⟩ := hfits
    cases hstep
    have htgt : session.handler.targets = some r := by rw [hhand]; rfl
    have hm := h.setChallenge hs htgt hiss
    refine hlaunch hm hs (getElem?_modify_self htr _) hph hpeer ?_
    intro c hc
    cases hc
    exact hiss

end

theorem HandlerFits.idle_of_phase (h : s.HandlerFits session) (hph : session.phase ≠ .running) :
    session.handler = .idle := by
  unfold HandlerFits at h
  split at h
  · assumption
  all_goals exact absurd h.1 hph

section

variable (h : s.Owned)
include h

theorem Owned.sink_none_of_phase (hs : s.session = some session) (hph : session.phase ≠ .running) :
    s.controlSink = none := by
  cases hsink : s.controlSink with
  | none => rfl
  | some q =>
    obtain ⟨⟨_, hold, -, hrunn, -⟩, -⟩ := h.sink q hsink
    obtain rfl := mem_unique hs hold
    exact absurd hrunn hph

theorem sweepStep_owned (hs : s.session = some session) (hstep : s.sweepStep session = some s') :
    s'.Owned := by
  have hslot := h.slot session hs
  unfold sweepStep at hstep
  split at hstep
  · next hph =>
    cases hstep
    have hne : session.phase ≠ .running := by rw [hph]; nofun
    exact h.clearTransport hs rfl ((h.handler session hs).idle_of_phase hne) rfl
      (h.sink_none_of_phase hs hne)
  · next left hph =>
    have hne : session.phase ≠ .running := by rw [hph]; nofun
    have hidle := (h.handler session hs).idle_of_phase hne
    have hsink := h.sink_none_of_phase hs hne
    have hslot' : s.TransportFits { session with phase := .sweeping left } := by
      unfold TransportFits at hslot
      rw [hph] at hslot
      exact hslot
    have hfits' : s.HandlerFits { session with phase := .sweeping left } := by
      rw [hidle]
      trivial
    have hnone : ∀ q ∈ s.controlSink,
        ({ session with phase := .sweeping left } : Session Peer).phase = .running := by
      rw [hsink]
      nofun
    split at hstep
    · next hact =>
      cases hstep
      obtain ⟨_, htr, -⟩ := (any_eq_true _ _).mp hact
      exact spawnAndWait_owned h hs htr rfl rfl rfl hslot' hfits' hnone
    · cases hstep
      exact h.setSession hs rfl (fun _ hr => .inl hr) hslot' hfits' hnone
  · next hph =>
    cases hstep
    have hne : session.phase ≠ .running := by rw [hph]; nofun
    exact h.endSession (h.sink_none_of_phase hs hne)
  · cases hstep

theorem Owned.setMeasuring {measuring} (hm : ∀ q ∈ s.controlSink, ∀ p ∈ measuring, p = q.peer) :
    Owned { s with measuring := measuring } := by
  refine { h with sink := ?_ }
  intro q hq
  obtain ⟨hsess, hall⟩ := h.sink q hq
  exact ⟨hsess, hm q hq, hall.active, hall.owed⟩

theorem measured_owned {index} (hpeer : s.measuring[index]? = some peer)
    {id sha256 filename mimeType} {sizeBytes} :
    Owned (({ s with measuring := s.measuring.eraseIdx index }.insert ⟨id, peer, true, filename,
      sizeBytes, sha256, mimeType, .OFFERED, none, false, none, none, none⟩).spawn
      s.transfers.length .offering) := by
  have hm : Owned { s with measuring := s.measuring.eraseIdx index } := by
    refine h.setMeasuring ?_
    intro q hq p hp
    exact (h.sink q hq).2.measuring p (mem_of_mem_eraseIdx hp)
  refine hm.insertThenSpawn ?_ rfl (fun _ => trivial)
  exact fun q hq => (h.sink q hq).2.measuring peer (mem_of_getElem? hpeer)

theorem respondToOffer_owned (id) (accept : Bool) : (s.respondToOffer id accept).Owned := by
  unfold respondToOffer
  split
  · exact h
  · next t _ =>
    refine h.modifyTransfer t.transfer ?_
    exact fun _ _ => ⟨rfl, fun hact => hact, fun _ hc => hc⟩

theorem cancel_owned (id) (hr : (s.lookup id).filter s.transferActive = some r) :
    (((s.modifyTransfer r ({ · with cancelled := true })).respondToOffer id false).spawn r
      (.finishAndTell .CANCELLED .CANCELLED_BY_USER)).Owned := by
  have hflag : (s.modifyTransfer r ({ · with cancelled := true })).Owned :=
    h.modifyTransfer r (fun _ _ => ⟨rfl, fun hact => hact, fun _ hc => hc⟩)
  obtain ⟨tr, htr, -⟩ := (any_eq_true _ _).mp (filter_eq_some_iff.mp hr).2
  obtain ⟨tr', htr'⟩ : ∃ tr',
      ((s.modifyTransfer r ({ · with cancelled := true })).respondToOffer id false).transfers[r]? =
      some tr' := by
    have htr₁ := getElem?_modify_self htr (fun tr : Transfer Peer => { tr with cancelled := true })
    unfold respondToOffer
    split
    · exact ⟨_, htr₁⟩
    · exact ⟨_, getElem?_modify_of_eq_some htr₁ _ _⟩
  exact (respondToOffer_owned hflag id false).spawn htr' nofun trivial

theorem endSession_owned (hs : s.session = some session) (hph : session.phase = .running)
    (hidle : session.handler = .idle)
    (hstep : (if session.info.carriesFiles then some (setSession { session with phase := .clearing }
      { s with controlSink := none }) else some { s with session := none }) = some s') :
    s'.Owned := by
  split at hstep
  · cases hstep
    refine Owned.setSession { h with sink := nofun } hs rfl (fun _ hr => .inl hr) ?_ ?_ nofun
    · have hslot := h.slot session hs
      unfold TransportFits at hslot
      rw [hph] at hslot
      exact hslot
    · rw [hidle]
      trivial
  · next hfiles =>
    cases hstep
    refine h.endSession ?_
    cases hsink : s.controlSink with
    | none => rfl
    | some q =>
      obtain ⟨⟨_, hold, rfl, -, hq⟩, -⟩ := h.sink q hsink
      obtain rfl := mem_unique hs hold
      exact absurd hq hfiles

end

theorem init_owned : Owned ({} : System Peer) := by
  constructor <;> simp

variable [DecidableEq Peer]

instance (s : System Peer) (peer : Peer) : Decidable (s.OnlyFor peer) :=
  inferInstanceAs (Decidable (_ ∧ _ ∧ _))

/-- A session attaches only when nothing of another computer or session is left
to send or to dial, and files are offered only to the session's computer. -/
def SwitchesClean (s : System Peer) : Action Peer → Prop
  | .connect _ => s.Rested
  | .attachControl => ∀ session ∈ s.session, session.info.carriesFiles →
    s.OnlyFor session.info.peer
  | .offer peer authorized => authorized → s.activeCount peer < MAX_CONCURRENT_TRANSFERS →
    ∀ q ∈ s.controlSink, q.peer = peer
  | _ => True

instance (s : System Peer) (a : Action Peer) : Decidable (s.SwitchesClean a) := by
  unfold SwitchesClean
  induction a using Action.casesOn <;> infer_instance

theorem onOffer_owned (h : s.Owned) (hs : s.session = some session)
    (sanitize : String → Option String) (offer : FileOffer) (authorized : Bool) :
    (s.onOffer sanitize session.info.peer offer authorized).Owned := by
  have hpeer : ∀ q ∈ s.controlSink, session.info.peer = q.peer := by
    intro q hq
    obtain ⟨⟨_, hold, hinfo, -⟩, -⟩ := h.sink q hq
    obtain rfl := mem_unique hs hold
    rw [hinfo]
  have hrej (reason : FailureReason) :
      (s.sendControl session.info.peer offer.transferId (.reject reason) true).2.Owned :=
    h.sendControl hpeer offer.transferId (.reject reason) true
  unfold onOffer
  split
  · exact h
  split
  · exact hrej _
  split
  · exact hrej _
  split
  · exact hrej _
  split
  · exact hrej _
  split
  · exact hrej _
  split
  · exact hrej _
  · exact h.insertThenSpawn hpeer rfl (fun _ => trivial)

theorem ownedActive_some {id sending} (h : s.ownedActive id peer sending = some r) :
    ∃ tr, s.transfers[r]? = some tr ∧ tr.peer = peer ∧ tr.state.isActive := by
  unfold ownedActive at h
  split at h
  · cases h
  obtain ⟨-, hany⟩ := filter_eq_some_iff.mp h
  obtain ⟨tr, htr, hall⟩ := (any_eq_true _ _).mp hany
  simp only [Bool.and_eq_true, decide_eq_true_eq] at hall
  exact ⟨tr, htr, hall.1.1, hall.2⟩

theorem handleControl_owned (h : s.Owned) (hs : s.session = some session)
    (hph : session.phase = .running) (sanitize : String → Option String) (message : Control) :
    (s.handleControl sanitize session message).Owned := by
  have hslot := h.slot session hs
  have hcall (r : Nat) (tr : Transfer Peer) (call : FinishCall) (htr : s.transfers[r]? = some tr)
      (howes : (call.tells && call.stage.wasActive) = false) :
      (s.spawnAndWait session r (.finish call)).Owned :=
    spawnAndWait_owned h hs htr howes rfl rfl hslot (h.handler session hs) (fun _ _ => hph)
  unfold handleControl
  cases message with
  | offer offer authorized => exact onOffer_owned h hs sanitize offer authorized
  | accept | ready =>
    dsimp only
    split
    · exact h
    · next r hr =>
      obtain ⟨tr, htr, hpeer, hact⟩ := ownedActive_some hr
      split
      · exact hcall r tr _ htr rfl
      refine h.setSession hs rfl ?_ hslot ⟨hph, rfl, tr, htr, hpeer⟩ (fun _ _ => hph)
      intro _ hr'
      cases hr'
      exact .inr ⟨tr, htr, hact⟩
  | complete =>
    dsimp only
    split
    · exact h
    · next r hr =>
      obtain ⟨tr, htr, -, -⟩ := ownedActive_some hr
      exact hcall r tr _ htr rfl
  | ended =>
    dsimp only
    split
    · exact h
    · next r hr =>
      obtain ⟨-, hany⟩ := filter_eq_some_iff.mp hr
      obtain ⟨tr, htr, -⟩ := (any_eq_true _ _).mp hany
      exact hcall r tr _ htr rfl

theorem step_owned {sanitize : String → Option String} {a} (hok : s.SwitchesClean a)
    (hstep : s.step sha256 sanitize a = some s') (h : s.Owned) : s'.Owned := by
  cases a with
  | connect info =>
    unfold step at hstep
    dsimp only at hstep
    split at hstep
    · cases hstep
    · next hnone =>
      cases hstep
      exact connect_owned h hnone hok info
  | attachControl =>
    obtain ⟨session, hs, hstep⟩ := bind_eq_some_iff.mp hstep
    split at hstep
    · next hph =>
      cases hstep
      exact attachControl_owned h hs hph (hok session hs)
    · cases hstep
  | control message =>
    obtain ⟨_, hs, hstep⟩ := bind_eq_some_iff.mp hstep
    split at hstep
    · next hph _ _ _ =>
      cases hstep
      exact handleControl_owned h hs hph sanitize message
    · cases hstep
  | handle =>
    obtain ⟨_, hs, hstep⟩ := bind_eq_some_iff.mp hstep
    exact handlerStep_owned h hs hstep
  | endSession =>
    obtain ⟨_, hs, hstep⟩ := bind_eq_some_iff.mp hstep
    split at hstep
    · next hph hidle _ => exact endSession_owned h hs hph hidle hstep
    · cases hstep
  | sweep =>
    obtain ⟨_, hs, hstep⟩ := bind_eq_some_iff.mp hstep
    split at hstep
    · exact sweepStep_owned h hs hstep
    · cases hstep
  | offer =>
    unfold step at hstep
    dsimp only at hstep
    split at hstep
    · cases hstep
      exact h
    · next hguard =>
      cases hstep
      simp only [Bool.or_eq_true, decide_eq_true_eq, not_or, Bool.not_eq_true, Nat.not_le,
        Bool.not_eq_false'] at hguard
      refine h.setMeasuring ?_
      exact fun q hq => forall_mem_concat (h.sink q hq).2.measuring
        (hok hguard.1.1 hguard.2 q hq).symm
  | measured =>
    obtain ⟨_, hpeer, rfl⟩ := map_eq_some_iff.mp hstep
    split
    · refine h.setMeasuring ?_
      intro q hq p hp
      exact (h.sink q hq).2.measuring p (mem_of_mem_eraseIdx hp)
    · exact measured_owned h hpeer
  | respond id accept =>
    cases hstep
    exact respondToOffer_owned h id accept
  | cancel id =>
    unfold step at hstep
    dsimp only at hstep
    split at hstep
    · cases hstep
      exact h
    · next hr =>
      cases hstep
      exact cancel_owned h id hr
  | clearFinished =>
    cases hstep
    exact h.setTables _ _
  | task =>
    obtain ⟨t, ht, hstep⟩ := bind_eq_some_iff.mp hstep
    obtain ⟨_, htr, hstep⟩ := bind_eq_some_iff.mp hstep
    exact taskStep_owned h ht htr hstep

/-- Over clean switches, every message and every dial goes to the computer of its transfer. -/
theorem transfer_reaches_own_computer (sha256 : List UInt8 → List UInt8)
    (sanitize : String → Option String) (as : List (Action Peer)) {t : System Peer}
    (hrun : run (step sha256 sanitize) {} as = some t)
    (hok : Meets (step sha256 sanitize) SwitchesClean {} as) :
    (∀ m ∈ t.sent, m.session.peer = m.transferPeer) ∧
    ∀ d ∈ t.dials, d.transport.pinned = d.transferPeer ∧
      d.transport.profile = d.challenge.session.profile := by
  have h : t.Owned := run_invariant (step sha256 sanitize) (fun _ _ _ => step_owned) hrun hok
    init_owned
  exact ⟨h.sent, h.dials⟩

def cleanSwitchRun : List (Action Nat) :=
  oneStreamRun ++ [Action.task 1 .go, .task 1 .go, .task 1 (.outcome true), .endSession, .sweep,
    .sweep, .sweep, .connect ⟨1, "other", .pliwee, true⟩, .attachControl, .offer 1 true,
    .measured 0 (some { sampleOffer with transferId := replicate 16 8 }), .task 2 (.outcome true)]

theorem transfer_reaches_own_computer_clean_switch :
    ∃ t, run (step paddedBytes some) {} cleanSwitchRun = some t ∧
      t.sent.map (·.session.peer) = [0, 0, 1] ∧ t.dials.length = 1 ∧
      (∀ m ∈ t.sent, m.session.peer = m.transferPeer) ∧ ∀ d ∈ t.dials,
      d.transport.pinned = d.transferPeer ∧ d.transport.profile = d.challenge.session.profile :=
  ⟨_, rfl, by decide, by decide,
    transfer_reaches_own_computer paddedBytes some cleanSwitchRun rfl (by decide)⟩

/-- While the file for computer 0 is being hashed, its session ends and
computer 1's attaches: the FILE_OFFER goes to computer 1. -/
def offerAcrossSwitchRun : List (Action Nat) :=
  [.connect ⟨0, "desk", .pliwee, true⟩, .attachControl, .offer 0 true, .endSession, .sweep, .sweep,
    .connect ⟨1, "other", .pliwee, true⟩, .attachControl, .measured 0 (some sampleOffer),
    .task 0 (.outcome true)]

theorem offer_sent_to_other_computer :
    (run (step paddedBytes some) {} offerAcrossSwitchRun).map
      (fun s => s.sent.map (fun m => (m.transferPeer, m.session.peer))) = some [(0, 1)] := by
  decide

end System

end OmniBridge.Files
