import OmniBridge.LastWrite
import OmniBridge.PhoneNotificationRun
import Mathlib.Data.List.TakeWhile

/-! Which sessions and which listener state the source ends up with, once it has
handled every event its queue kept. -/

namespace OmniBridge.Notifications

open List Option NotificationEvent Session

variable {Peer : Type}

def connectedAfter (connected : Bool) : NotificationEvent Peer → Bool
  | .listenerConnected => true
  | .listenerDisconnected => false
  | _ => connected

/-- What a lifecycle event decides: a peer's session, or the listener (`none`). -/
def NotificationEvent.slot : NotificationEvent Peer → Option (Option Peer)
  | .sessionAttached p _ | .sessionDetached p => some (some p)
  | .listenerConnected | .listenerDisconnected => some none
  | _ => none

variable {e : NotificationEvent Peer}

theorem connectedAfter_of_slot (h : e.slot = some none) (a b : Bool) :
    connectedAfter a e = connectedAfter b e := by
  cases e <;> simp_all [slot, connectedAfter]

theorem connectedAfter_of_slot_ne (h : e.slot ≠ some none) (a : Bool) : connectedAfter a e = a := by
  cases e <;> simp_all [slot, connectedAfter]

/-- The first of the events is superseded: each slot it decides is decided again
by one behind it. -/
def Superseded : List (NotificationEvent Peer) → Prop
  | [] => True
  | e :: behind => ∀ slot ∈ e.slot, ∃ e' ∈ behind, e'.slot = some slot

namespace NotificationOutboundQueue

theorem slot_of_isPostedOf {key} (h : e.isPostedOf key) : e.slot = none := by
  cases e <;> simp_all [slot, isPostedOf]

variable {β : Type}

theorem foldl_replaceFirst {f : β → NotificationEvent Peer → β} {p : NotificationEvent Peer → Bool}
    {b} (hb : ∀ c, f c b = c) (hp : ∀ e, p e → ∀ c, f c e = c) {l l'}
    (h : replaceFirst p b l = some l') (c : β) : l'.foldl f c = l.foldl f c := by
  induction l generalizing l' c with
  | nil => cases h
  | cons a l ih =>
    unfold replaceFirst at h
    split at h
    · next ha =>
      cases h
      rw [foldl_cons, foldl_cons, hb, hp a ha]
    · obtain ⟨m, hm, rfl⟩ := map_eq_some_iff.mp h
      exact ih hm (f c a)

variable {q : NotificationOutboundQueue Peer} {event : NotificationEvent Peer}

theorem offer_events (h : coalesce event q.events = none) :
    ∃ front, purge event q.events ++ [event] = front ++ q.thrownOut event ∧
      (q.offer event).events = front ++ (q.thrownOut event).tail := by
  unfold offer thrownOut
  simp only [h]
  generalize purge event q.events = events
  by_cases hlen : events.length < EVENT_QUEUE_CAPACITY
  · refine ⟨events ++ [event], ?_⟩
    simp [hlen]
  simp only [hlen, if_false]
  cases hdrop : events.dropWhile isTerminal with
  | cons e behind =>
    obtain ⟨front, hevents, herase, hany⟩ := eraseP_of_dropWhile hdrop
    refine ⟨front, ?_, ?_⟩
    · rw [← append_assoc, ← hevents]
    · rw [if_pos hany, herase]
      simp
  | nil =>
    have hany : events.any (fun e => !e.isTerminal) = false :=
      by simpa using dropWhile_eq_nil_iff.mp hdrop
    rw [hany]
    by_cases hterm : event.isTerminal
    · refine ⟨[], ?_, ?_⟩
      · simp [hterm]
      · cases events with
        | nil => exact absurd (Nat.zero_lt_succ 255) hlen
        | cons => simp [hterm]
    · refine ⟨events, ?_, ?_⟩
      all_goals simp [hterm]

theorem foldl_offer [DecidableEq Peer] {f : β → NotificationEvent Peer → β} {slot}
    (hdec : ∀ e : NotificationEvent Peer, e.slot = some slot → ∀ b c, f b e = f c e)
    (hneut : ∀ e : NotificationEvent Peer, e.slot ≠ some slot → ∀ b, f b e = b)
    (hok : Superseded (q.thrownOut event)) (b : β) :
    (q.offer event).events.foldl f b = f (q.events.foldl f b) event := by
  have hpost (key : String) (e : NotificationEvent Peer) (he : e.isPostedOf key) (c : β) :
      f c e = c := hneut e (by rw [slot_of_isPostedOf he]; nofun) c
  cases hc : coalesce event q.events with
  | some events =>
    cases event with
    | posted n =>
      have hevent : ∀ c, f c (.posted n) = c := fun c =>
        hneut _ (by simp [NotificationEvent.slot]) c
      have hoff : (q.offer (.posted n)).events = events := by simp [offer, hc]
      rw [hoff, hevent]
      exact foldl_replaceFirst hevent (hpost n.platformKey) hc b
    | _ => cases hc
  | none =>
    obtain ⟨front, hspl, hoff⟩ := offer_events hc
    have hpurge : (purge event q.events).foldl f b = q.events.foldl f b := by
      cases event with
      | removed key =>
        refine foldl_filter_of_neutral ?_ b
        intro e _ he c
        exact hpost key e (by simpa using he) c
      | _ => rfl
    have hfull : (front ++ q.thrownOut event).foldl f b = f (q.events.foldl f b) event := by
      rw [← hspl, foldl_append, hpurge]
      rfl
    rw [hoff, ← hfull, foldl_append, foldl_append]
    cases hout : q.thrownOut event with
    | nil => rfl
    | cons e =>
      rw [hout] at hok
      rw [tail_cons, foldl_cons]
      by_cases hslot : e.slot = some slot
      · obtain ⟨e', he', hslot'⟩ := hok slot hslot
        exact foldl_eq_of_overwrites he' (hdec e' hslot') _ _
      · rw [hneut e hslot]

end NotificationOutboundQueue

def Session.ends (t : Session Peer) : Peer × Nat := (t.peer, t.sender)

structure Session.Continues (t u : Session Peer) : Prop where
  ends : u.ends = t.ends
  log : t.log <+: u.log

theorem Session.Continues.refl (t : Session Peer) : t.Continues t := ⟨rfl, prefix_rfl⟩

theorem Session.Continues.trans {t u w : Session Peer} (h : t.Continues u) (h' : u.Continues w) :
    t.Continues w :=
  ⟨h'.ends.trans h.ends, h.log.trans h'.log⟩

theorem Session.emit_continues (alive : Bool) (m : Message) (t : Session Peer) :
    t.Continues (t.emit alive m) := by
  unfold emit
  split
  · exact ⟨rfl, prefix_append _ _⟩
  · exact .refl t

theorem Session.remember_continues (id hash : List UInt8) (t : Session Peer) :
    t.Continues (t.remember id hash) :=
  ⟨by simp [ends], by simp⟩

theorem Session.announceRoles_continues (sourcing alive : Bool) (t : Session Peer) :
    t.Continues (t.announceRoles sourcing alive) := by
  rcases t.announceRoles_cases sourcing alive with ⟨-, h⟩ | ⟨-, h⟩
  · rw [h]
    exact .refl t
  have hemit := emit_continues alive (.roles (rolesWhen sourcing) (t.epoch + 1))
    { t with announced := some (rolesWhen sourcing), epoch := t.epoch + 1 }
  rw [h]
  exact ⟨hemit.ends, hemit.log⟩

theorem Session.applyRoles_continues {roles : List NotificationRole} {epoch} {t u : Session Peer}
    (h : t.applyRoles roles epoch = some u) : t.Continues u := by
  unfold applyRoles at h
  split at h
  · cases h
  · cases h
    exact ⟨rfl, prefix_rfl⟩

theorem Session.post_continues (x : Device) (v : View Peer) (n : PlatformNotification)
    (t : Session Peer) : t.Continues (t.post x v n) := by
  rcases t.post_cases x v n with h | ⟨_, _, -, h⟩
  · rw [h]
    exact .refl t
  · rw [h]
    exact (t.remember_continues _ _).trans (emit_continues _ _ _)

theorem Session.unpost_continues [DecidableEq Peer] (v : View Peer) (id : List UInt8)
    (asked : Option Peer) (t : Session Peer) : t.Continues (t.unpost v id asked) := by
  rcases t.unpost_cases v id asked with ⟨-, h⟩ | ⟨-, h⟩ | h
  · rw [h]
    exact .refl t
  · rw [h]
    exact ⟨rfl, prefix_rfl⟩
  · have hemit := emit_continues (v.alive t.sender) (.remove id) { t with
      sent := Linked.remove id t.sent }
    rw [h]
    exact ⟨hemit.ends, hemit.log⟩

theorem sendSnapshot_continues (x : Device) (v : View Peer) (m : SourceIdMap) (t : Session Peer) :
    t.Continues (sendSnapshot x v m t).2 := by
  rcases sendSnapshot_cases x v m t with ⟨-, h⟩ | ⟨_, -, _, -, r, hr, h⟩
  · rw [h]
    exact .refl t
  have hitems : t.Continues r.2 := by
    rw [hr]
    refine snapshotItems_rule (Q := fun _ u => t.Continues u) ?_ 0 (t.emit_continues _ _)
    intro m u n _ _ _ _ hu
    exact ⟨hu, hu.trans ((u.remember_continues _ _).trans (emit_continues _ _ _))⟩
  have hended := hitems.trans (r.2.emit_continues (v.alive t.sender) .syncEnd)
  rw [h]
  exact ⟨hended.ends, hended.log⟩

theorem converge_continues (x : Device) (v : View Peer) (sourcing : Bool) (m : SourceIdMap)
    (t : Session Peer) : t.Continues (Source.converge x v sourcing m t).2 := by
  obtain ⟨a, ha, hcase⟩ := Source.converge_cases x v sourcing m t
  have hann : t.Continues a := by
    rw [ha]
    exact t.announceRoles_continues _ _
  rcases hcase with ⟨-, h⟩ | ⟨-, -, h⟩ | ⟨-, -, h⟩
  · rw [h]
    exact ⟨hann.ends, hann.log⟩
  · rw [h]
    exact hann.trans (sendSnapshot_continues x v m a)
  · rw [h]
    exact hann

variable [DecidableEq Peer]

def sessionAfter (peer : Peer) (sender : Option Nat) : NotificationEvent Peer → Option Nat
  | .sessionAttached p s => if p = peer then some s else sender
  | .sessionDetached p => if p = peer then none else sender
  | _ => sender

theorem sessionAfter_of_slot_ne {peer} (h : e.slot ≠ some (some peer)) (a : Option Nat) :
    sessionAfter peer a e = a := by
  cases e <;> simp_all [slot, sessionAfter]

instance (events : List (NotificationEvent Peer)) : Decidable (Superseded events) := by
  unfold Superseded
  induction events using List.casesOn <;> infer_instance

namespace Source

def senderOf (peer : Peer) (s : Source Peer) : Option Nat := (s.find peer).map sender

theorem find_put (t : Session Peer) (s : Source Peer) (peer : Peer) :
    (s.put t).find peer = if t.peer = peer then some t else s.find peer := by
  unfold put find
  split
  · next hany =>
    have hcomp : ((fun u : Session Peer => decide (u.peer = peer)) ∘
        (fun u => if u.peer = t.peer then t else u)) = fun u => decide (u.peer = peer) := by
      funext u
      by_cases hu : u.peer = t.peer
      all_goals simp [hu]
    rw [find?_map, hcomp]
    cases hfind : s.sessions.find? (·.peer = peer) with
    | none =>
      by_cases hpeer : t.peer = peer
      · obtain ⟨u, _, _⟩ := any_eq_true.mp hany
        simp_all
      · simp [hpeer]
    | some u =>
      have hup : u.peer = peer := by simpa using find?_some hfind
      by_cases hpeer : t.peer = peer
      · simp [hpeer, hup]
      · have hne : u.peer ≠ t.peer := fun h => hpeer (h ▸ hup)
        simp [hpeer, hne]
  · next hany =>
    by_cases hpeer : t.peer = peer
    · have hnone : s.sessions.find? (·.peer = peer) = none := by
        refine find?_eq_none.mpr ?_
        intro u hu _
        refine hany (any_eq_true.mpr ⟨u, hu, ?_⟩)
        simp_all
      simp [hnone, hpeer]
    · simp [hpeer]

variable {peer : Peer} {s s' : Source Peer} {t : Session Peer}

theorem find_peer (h : s.find peer = some t) : t.peer = peer := by
  simpa using find?_some h

def Kept (peer : Peer) (s s' : Source Peer) : Prop :=
  Option.Rel Continues (s.find peer) (s'.find peer)

theorem Kept.of_find_eq (h : s'.find peer = s.find peer) : Kept peer s s' := by
  unfold Kept
  rw [h]
  cases s.find peer with
  | none => exact .none
  | some t => exact .some (.refl t)

theorem Kept.trans {t u : Source Peer} (h : Kept peer s t) (h' : Kept peer t u) :
    Kept peer s u := by
  unfold Kept at h h' ⊢
  generalize s.find peer = a at h ⊢
  generalize t.find peer = b at h h'
  generalize u.find peer = c at h' ⊢
  cases h with
  | none =>
    cases h' with
    | none => exact .none
  | some h =>
    cases h' with
    | some h' => exact .some (h.trans h')

theorem Kept.senderOf (h : Kept peer s s') : s'.senderOf peer = s.senderOf peer := by
  unfold Kept at h
  unfold Source.senderOf
  generalize s.find peer = a at h ⊢
  generalize s'.find peer = b at h ⊢
  cases h with
  | none => rfl
  | some h =>
    obtain ⟨-, hsndr⟩ := Prod.mk.inj h.ends
    exact congrArg some hsndr

structure Steady (s s' : Source Peer) : Prop where
  sessions : ∀ peer, Kept peer s s'
  connected : s'.listenerConnected = s.listenerConnected

theorem Steady.trans {t u} (h : Steady s t) (h' : Steady t u) : Steady s u :=
  ⟨fun peer => (h.sessions peer).trans (h'.sessions peer), h'.connected.trans h.connected⟩

theorem Steady.of_sessions (h : s'.sessions = s.sessions)
    (hconn : s'.listenerConnected = s.listenerConnected) : Steady s s' := by
  refine ⟨fun peer => .of_find_eq ?_, hconn⟩
  unfold find
  rw [h]

theorem Steady.of_forall₂ (h : List.Forall₂ Continues s.sessions s'.sessions)
    (hconn : s'.listenerConnected = s.listenerConnected) : Steady s s' := by
  refine ⟨fun peer => ?_, hconn⟩
  unfold Kept find
  generalize s.sessions = l, s'.sessions = l' at h
  induction h with
  | nil => exact .none
  | @cons t u l _ htu _ ih =>
    obtain ⟨hpeer, -⟩ := Prod.mk.inj htu.ends
    by_cases hp : t.peer = peer
    · rw [find?_cons_of_pos (by simpa using hp), find?_cons_of_pos (by simpa [hpeer] using hp)]
      exact .some htu
    · rw [find?_cons_of_neg (by simpa using hp), find?_cons_of_neg (by simpa [hpeer] using hp)]
      exact ih

theorem put_connected (t : Session Peer) (s : Source Peer) :
    (s.put t).listenerConnected = s.listenerConnected := by
  unfold put
  split <;> rfl

theorem put_steady {u} (ht : s.find peer = some t) (hu : t.Continues u) : Steady s (s.put u) := by
  obtain ⟨hpeer, -⟩ := Prod.mk.inj hu.ends
  have htp := find_peer ht
  refine ⟨fun q => ?_, put_connected u s⟩
  unfold Kept
  rw [find_put]
  split
  · next hq =>
    rw [← hq, hpeer, htp, ht]
    exact .some hu
  · exact Kept.of_find_eq rfl

theorem answer_steady (ht : s.find peer = some t) (v : View Peer) (id : List UInt8)
    (outcome : NotificationOutcome) : Steady s (s.answer v id outcome t) := by
  unfold answer
  split
  · exact .of_sessions rfl rfl
  · exact put_steady ht (t.emit_continues _ _)

theorem handleDismiss_steady (ht : s.find peer = some t) (x : Device) (v : View Peer)
    (id : List UInt8) (origin : Trust.Chars) : Steady s (s.handleDismiss x v t id origin) := by
  have hansw {u : Source Peer} (hu : u.sessions = s.sessions)
      (hc : u.listenerConnected = s.listenerConnected) (outcome : NotificationOutcome) :
      Steady s (u.answer v id outcome t) := by
    have hfind : u.find peer = some t := by
      unfold find
      rw [hu]
      exact ht
    exact Steady.trans (.of_sessions hu hc) (answer_steady hfind v id outcome)
  unfold handleDismiss
  split
  · exact .of_sessions rfl rfl
  split
  · exact hansw rfl rfl _
  split
  · exact hansw rfl rfl _
  split
  · exact hansw rfl rfl _
  dsimp only
  split
  · split <;> apply hansw <;> rfl
  · apply hansw <;> rfl
  · exact hansw rfl rfl _

variable (x : Device)

variable (v : View Peer)

theorem handleInbound_steady (peer : Peer) (control : Control) (s : Source Peer) :
    Steady s (s.handleInbound x v peer control) := by
  unfold handleInbound
  split
  · exact .of_sessions rfl rfl
  · next ht =>
    split
    · split
      · exact .of_sessions rfl rfl
      · next u hu =>
        have hcont := (applyRoles_continues hu).trans
          (converge_continues x v (s.isSourcing x) s.idMap u)
        have hput := put_steady (s := { s with
          idMap := (converge x v (s.isSourcing x) s.idMap u).1 }) ht hcont
        exact ⟨hput.sessions, hput.connected⟩
    · split
      · exact answer_steady ht v _ _
      · exact handleDismiss_steady ht x v _ _
    · exact answer_steady ht v _ _
    · exact answer_steady ht v _ _
    all_goals exact .of_sessions rfl rfl

theorem handlePosted_steady (n : PlatformNotification) (s : Source Peer) :
    Steady s (s.handlePosted x v n) := by
  unfold handlePosted
  split
  · exact .of_forall₂ (forall₂_map_right_iff.mpr
      (forall₂_same.mpr fun t _ => t.post_continues x v n)) rfl
  · exact .of_sessions rfl rfl

theorem handleRemoved_steady (key : String) (listenerCancelled : Bool) (s : Source Peer) :
    Steady s (s.handleRemoved v key listenerCancelled) := by
  unfold handleRemoved
  split
  · exact .of_sessions rfl rfl
  · next id _ => exact .of_forall₂ (forall₂_map_right_iff.mpr
      (forall₂_same.mpr fun t _ => t.unpost_continues v id _)) rfl

theorem convergeAll_steady (s : Source Peer) : Steady s (s.convergeAll x v) :=
  .of_forall₂ (each_forall₂ (converge_continues x v (s.isSourcing x)) _ _) rfl

omit [DecidableEq Peer] in
theorem updateBinding_eq (s : Source Peer) :
    ∃ requests, s.updateBinding x v = { s with requests := requests } := by
  unfold updateBinding
  dsimp only
  repeat' split
  all_goals exact ⟨_, rfl⟩

theorem updateBinding_steady (s : Source Peer) : Steady s (s.updateBinding x v) := by
  obtain ⟨_, h⟩ := updateBinding_eq x v s
  rw [h]
  exact .of_sessions rfl rfl

theorem rebuildIdMap_steady (s : Source Peer) : Steady s (s.rebuildIdMap x v) := by
  unfold rebuildIdMap
  split <;> exact .of_sessions rfl rfl

theorem attach_find (peer : Peer) (sender : Nat) (s : Source Peer) :
    (s.handle x v (.sessionAttached peer sender)).senderOf peer = some sender ∧
      (s.handle x v (.sessionAttached peer sender)).listenerConnected = s.listenerConnected ∧
      ∀ q, q ≠ peer → (s.handle x v (.sessionAttached peer sender)).find q = s.find q := by
  have hends := (announceRoles_continues (s.isSourcing x) (v.alive sender)
    ({ peer := peer, sender := sender } : Session Peer)).ends
  unfold handle
  dsimp only
  generalize announceRoles (s.isSourcing x) (v.alive sender)
    ({ peer := peer, sender := sender } : Session Peer) = r at hends ⊢
  obtain ⟨hpeer, hsndr⟩ : r.peer = peer ∧ r.sender = sender := by simpa [ends] using hends
  have hoth {u : Session Peer} (hu : u.peer = peer) (s' : Source Peer) {q : Peer}
      (hq : q ≠ peer) : (s'.put u).find q = s'.find q := by
    rw [find_put, if_neg (by rw [hu]; exact hq.symm)]
  have hc := (converge_continues x v ((updateBinding x v (s.put r)).isSourcing x)
    (updateBinding x v (s.put r)).idMap r).ends
  obtain ⟨_, hbind⟩ := updateBinding_eq x v (s.put r)
  rw [hbind] at hc ⊢
  obtain ⟨hcpeer, hcsend⟩ := Prod.mk.inj hc
  refine ⟨?_, (put_connected _ _).trans (put_connected _ _), ?_⟩
  · unfold senderOf
    rw [find_put, if_pos (hcpeer.trans hpeer), map_some, hcsend, hsndr]
  · intro q hq
    rw [hoth (hcpeer.trans hpeer) _ hq]
    exact hoth hpeer s hq

theorem detach_find (peer : Peer) (s : Source Peer) (q : Peer) :
    (s.handle x v (.sessionDetached peer)).find q = if peer = q then none else s.find q := by
  obtain ⟨_, hbind⟩ := updateBinding_eq x v { s with
    sessions := s.sessions.filter (·.peer ≠ peer) }
  dsimp only [handle]
  rw [hbind]
  unfold find
  rw [find?_filter]
  split
  · next hq =>
    refine find?_eq_none.mpr ?_
    intro t _
    simp [hq]
  · next hq =>
    have hpred : (fun a : Session Peer =>
        decide (decide (a.peer ≠ peer) ∧ decide (a.peer = q))) = fun a => decide (a.peer = q) := by
      funext a
      by_cases ha : a.peer = q
      · simp [ha, Ne.symm hq]
      · simp [ha]
    rw [hpred]

structure Handled (s : Source Peer) (e : NotificationEvent Peer) (s' : Source Peer) : Prop where
  senders : ∀ peer, s'.senderOf peer = sessionAfter peer (s.senderOf peer) e
  kept : ∀ peer, e.slot ≠ some (some peer) → Kept peer s s'
  connected : s'.listenerConnected = connectedAfter s.listenerConnected e

theorem Steady.handled {e} (h : Steady s s') (he : e.slot = none) : Handled s e s' := by
  refine ⟨fun peer => ?_, fun peer _ => h.sessions peer, ?_⟩
  · rw [(h.sessions peer).senderOf, sessionAfter_of_slot_ne (by rw [he]; nofun)]
  · rw [h.connected, connectedAfter_of_slot_ne (by rw [he]; nofun)]

theorem handle_lifecycle (s : Source Peer) (e : NotificationEvent Peer) :
    Handled s e (s.handle x v e) := by
  cases e with
  | sessionAttached peer sender =>
    obtain ⟨hsndr, hconn, hoth⟩ := attach_find x v peer sender s
    refine ⟨fun q => ?_, fun q hq => ?_, hconn⟩
    · dsimp only [sessionAfter]
      split
      · next hq => rw [← hq, hsndr]
      · next hq =>
        unfold senderOf
        rw [hoth q (Ne.symm hq)]
    · exact .of_find_eq (hoth q (fun heq => hq (by rw [heq]; rfl)))
  | sessionDetached peer =>
    have hfind := detach_find x v peer s
    refine ⟨fun q => ?_, fun q hq => .of_find_eq ?_, (updateBinding_steady x v _).connected⟩
    · dsimp only [senderOf, sessionAfter]
      rw [hfind q]
      split <;> rfl
    · rw [hfind q, if_neg (fun heq => hq (by rw [heq]; rfl))]
  | listenerConnected =>
    have h := (updateBinding_steady x v { s with listenerConnected := true }).trans
      ((rebuildIdMap_steady x v _).trans (convergeAll_steady x v _))
    exact ⟨fun peer => (h.sessions peer).senderOf, fun peer _ => h.sessions peer, h.connected⟩
  | listenerDisconnected =>
    have h := convergeAll_steady x v { s with listenerConnected := false }
    exact ⟨fun peer => (h.sessions peer).senderOf, fun peer _ => h.sessions peer, h.connected⟩
  | policyChanged =>
    exact ((updateBinding_steady x v s).trans (convergeAll_steady x v _)).handled rfl
  | posted n => exact (handlePosted_steady x v n s).handled rfl
  | removed key cancelled => exact (handleRemoved_steady v key cancelled s).handled rfl
  | inbound peer control => exact (handleInbound_steady x v peer control s).handled rfl

end Source

namespace Phone

/-- What the pending events will make of the sessions and the listener is what
all the events offered so far say. -/
structure Tracked (s : Phone Peer) : Prop where
  senders : ∀ peer, s.pending.foldl (sessionAfter peer) (s.source.senderOf peer) =
    s.offered.foldl (sessionAfter peer) none
  connected : s.pending.foldl connectedAfter s.source.listenerConnected =
    s.offered.foldl connectedAfter false

/-- An offer to a full queue throws out nothing that still decides a session or
the listener. -/
def KeepsLifecycle (s : Phone Peer) (a : Action Peer) : Prop :=
  ∀ e ∈ s.event a, Superseded (s.queue.thrownOut e)

instance (s : Phone Peer) (a : Action Peer) : Decidable (s.KeepsLifecycle a) :=
  inferInstanceAs (Decidable (∀ e ∈ s.event a, Superseded (s.queue.thrownOut e)))

theorem Tracked.offer {s : Phone Peer} (h : s.Tracked) {e}
    (hok : Superseded (s.queue.thrownOut e)) : (s.offer e).Tracked := by
  constructor
  · intro peer
    have hq := NotificationOutboundQueue.foldl_offer (f := sessionAfter peer)
      (fun e he b c => by cases e <;> simp_all [slot, sessionAfter]) (fun e he b =>
        sessionAfter_of_slot_ne he b) hok
      (s.batch.foldl (sessionAfter peer) (s.source.senderOf peer))
    have hs := h.senders peer
    simp only [pending, foldl_append] at hs
    simp only [pending, Phone.offer, foldl_append, foldl_cons, foldl_nil]
    rw [hq, hs]
  · have hq := NotificationOutboundQueue.foldl_offer (f := connectedAfter) (fun e he b c =>
      connectedAfter_of_slot he b c) (fun e he b => connectedAfter_of_slot_ne he b) hok
      (s.batch.foldl connectedAfter s.source.listenerConnected)
    have hs := h.connected
    simp only [pending, foldl_append] at hs
    simp only [pending, Phone.offer, foldl_append, foldl_cons, foldl_nil]
    rw [hq, hs]

variable {s : Phone Peer}

theorem Tracked.world (h : s.Tracked) (a : Action Peer) : (s.world a).Tracked := by
  cases a <;> exact ⟨h.senders, h.connected⟩

variable {a : Action Peer}

theorem act_tracked (h : s.Tracked) (hok : s.KeepsLifecycle a) :
    ((s.event a).elim (s.world a) (s.world a).offer).Tracked := by
  cases he : s.event a with
  | none => exact h.world a
  | some e =>
    refine (h.world a).offer ?_
    rw [show (s.world a).queue = s.queue by cases a <;> rfl]
    exact hok e he

theorem step_tracked {x t} (hok : s.KeepsLifecycle a) (hstep : s.step x a = some t)
    (h : s.Tracked) : t.Tracked := by
  cases a with
  | drain =>
    simp only [step] at hstep
    split at hstep
    · next hbat =>
      cases hstep
      constructor
      · intro peer
        simpa [pending, hbat] using h.senders peer
      · simpa [pending, hbat] using h.connected
    · cases hstep
  | handle cancels =>
    simp only [step] at hstep
    split at hstep
    · cases hstep
    · next e _ hbat =>
      cases hstep
      have hhand := s.source.handle_lifecycle x (s.view cancels) e
      constructor
      · intro peer
        have hs := h.senders peer
        simp only [pending, hbat, cons_append, foldl_cons] at hs
        rw [← hhand.senders peer] at hs
        exact hs
      · have hs := h.connected
        simp only [pending, hbat, cons_append, foldl_cons] at hs
        rw [← hhand.connected] at hs
        exact hs
  | _ =>
    cases hstep
    exact act_tracked h hok

theorem init_tracked : Tracked ({} : Phone Peer) := ⟨fun _ => rfl, rfl⟩

/-- Once every kept event is handled, a peer has a session exactly when the last
of its attach and detach events was an attach, with that attach's sender, and the
listener is as its last event left it. -/
theorem lifecycle_follows_offers (x : Device) (as : List (Action Peer)) {t : Phone Peer}
    (hrun : run (step x) {} as = some t) (hok : Meets (step x) KeepsLifecycle {} as)
    (hdone : t.pending = []) :
    (∀ peer, t.source.senderOf peer = t.offered.foldl (sessionAfter peer) none) ∧
      t.source.listenerConnected = t.offered.foldl connectedAfter false := by
  have h : t.Tracked := run_invariant (step x) (fun _ _ _ => step_tracked) hrun hok init_tracked
  have hsend := h.senders
  have hconn := h.connected
  rw [hdone] at hsend hconn
  exact ⟨hsend, hconn⟩

def sampleDevice : Device where
  ownPackage := "own"
  localDeviceId := replicate 32 48
  accessGranted := true
  secretAvailable := true
  derive := fun key => key.toByteArray.data.toList
  labelFor := id
  reduceText := fun text _ => text
  contentHash := fun n _ reduced => (n.title ++ reduced.title).toByteArray.data.toList
  withinCeiling := fun _ _ _ => true

def twoSessionsRun : List (Action Nat) :=
  [.attachSession 0 1, .createService, .connectListener, .drain, .handle true, .attachSession 1 2,
    .handle true, .detachSession 0, .drain, .handle true, .handle true]

theorem lifecycle_follows_offers_two_sessions :
    ∃ t, run (step sampleDevice) {} twoSessionsRun = some t ∧ t.source.senderOf 1 = some 2 ∧
      t.source.senderOf 0 = none ∧ t.source.listenerConnected ∧
      (∀ peer, t.source.senderOf peer = t.offered.foldl (sessionAfter peer) none) ∧
      t.source.listenerConnected = t.offered.foldl connectedAfter false :=
  ⟨_, rfl, by decide, by decide, by decide,
    lifecycle_follows_offers sampleDevice twoSessionsRun rfl (by decide) rfl⟩

/-- The computer already connected sends 256 messages before the producer drains: the attach of
the other is the oldest event that may be evicted. -/
def floodedRun : List (Action Nat) :=
  [Action.attachSession 1 1, .drain, .handle true, .attachSession 0 2] ++
    replicate 256 (.receive 1 .result) ++ [.drain] ++ replicate 256 (.handle true)

theorem attach_lost_in_flood :
    (run (step sampleDevice) {} floodedRun).map
      (fun s => (s.pending, s.source.senderOf 0, s.offered.foldl (sessionAfter 0) none)) = some ([],
      none, some 2) := by
  decide +kernel

end Phone

end OmniBridge.Notifications
