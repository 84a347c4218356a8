import OmniBridge.PhoneConverge

/-! Every notification a computer holds is on its way out, about to be judged
again, or on the shade and allowed: the invariant, and that the platform, the
settings and the sessions keep it. -/

namespace OmniBridge.Notifications

open List Option NotificationOutboundQueue NotificationEvent PlatformNotification
open Trust (NotificationPolicy)

variable {Peer : Type}

section Posts

variable {shade shade' : List PlatformNotification} {bound bound' : Bool}
  {e : NotificationEvent Peer}

/-- The events behind a post of a notification tell of every later change to it:
it goes, the listener goes, or the shade has it as posted or as posted again. -/
def Fresh (shade : List PlatformNotification) (bound : Bool) (n : PlatformNotification)
    (behind : List (NotificationEvent Peer)) : Prop :=
  (∃ c, .removed n.platformKey c ∈ behind) ∨ .listenerDisconnected ∈ behind ∨
    bound ∧ ∃ m ∈ shade, m.platformKey = n.platformKey ∧
      (m = n ∨ ∃ k, .posted k ∈ behind ∧ k.platformKey = n.platformKey)

def Posts (shade : List PlatformNotification) (bound : Bool) : List (NotificationEvent Peer) → Prop
  | [] => True
  | .posted n :: behind => Fresh shade bound n behind ∧ Posts shade bound behind
  | _ :: behind => Posts shade bound behind

variable {n : PlatformNotification} {behind events : List (NotificationEvent Peer)}

theorem Posts.tail (h : Posts shade bound (e :: behind)) : Posts shade bound behind := by
  cases e with
  | posted => exact h.2
  | _ => exact h

theorem Posts.cons {behind} (hfresh : ∀ n, e = .posted n → Fresh shade bound n behind)
    (h : Posts shade bound behind) : Posts shade bound (e :: behind) := by
  cases e with
  | posted n => exact ⟨hfresh n rfl, h⟩
  | _ => exact h

theorem Posts.fresh (h : Posts shade bound (.posted n :: behind)) :
    Fresh shade bound n behind := h.1

variable {behind' : List (NotificationEvent Peer)}

open Posts

theorem Posts.front (front : List (NotificationEvent Peer))
    (hfresh : ∀ n rest, .posted n ∈ front → Fresh shade bound n (rest ++ behind) →
      Fresh shade' bound' n (rest ++ behind')) (h : Posts shade bound (front ++ behind))
    (hbeh : Posts shade' bound' behind') : Posts shade' bound' (front ++ behind') := by
  induction front with
  | nil => exact hbeh
  | cons e front ih =>
    refine cons ?_ (ih (fun n rest hn => hfresh n rest (mem_cons_of_mem e hn)) h.tail)
    rintro n rfl
    exact hfresh n front mem_cons_self h.fresh

theorem Posts.suffix (front : List (NotificationEvent Peer))
    (h : Posts shade bound (front ++ behind)) : Posts shade bound behind := by
  induction front with
  | nil => exact h
  | cons e front ih => exact ih h.tail

theorem Fresh.imp (h : Fresh shade bound n behind)
    (hrem : ∀ c, .removed n.platformKey c ∈ behind → .removed n.platformKey c ∈ behind')
    (hdisc : listenerDisconnected ∈ behind → .listenerDisconnected ∈ behind')
    (hshade : bound → ∀ m ∈ shade, m.platformKey = n.platformKey →
      (m = n ∨ ∃ k, .posted k ∈ behind ∧ k.platformKey = n.platformKey) →
      Fresh shade' bound' n behind') : Fresh shade' bound' n behind' := by
  rcases h with ⟨c, hc⟩ | hd | ⟨hb, m, hm, hkey, hpost⟩
  · exact .inl ⟨c, hrem c hc⟩
  · exact .inr (.inl (hdisc hd))
  · exact hshade hb m hm hkey hpost

theorem Posts.concat (h : Posts shade bound events) (hbound : bound → bound')
    (he : ∀ n, e ≠ .posted n) : Posts shade bound' (events ++ [e]) := by
  rw [← append_nil events] at h
  refine front events ?_ h (cons (fun n hn => absurd hn (he n)) trivial)
  intro n _ _ hfresh
  rw [append_nil] at hfresh
  refine hfresh.imp (fun c hc => mem_append_left _ hc) (mem_append_left _) ?_
  intro hb m hm hkey hpost
  refine .inr (.inr ⟨hbound hb, m, hm, hkey, ?_⟩)
  rcases hpost with rfl | ⟨k, hk, hkkey⟩
  · exact .inl rfl
  · exact .inr ⟨k, mem_append_left _ hk, hkkey⟩

theorem Posts.of_unbound (h : Posts shade false events) : Posts shade' bound' events := by
  rw [← append_nil events] at h ⊢
  refine front events ?_ h trivial
  intro n _ _ hfresh
  exact hfresh.imp (fun c hc => hc) (fun hd => hd) nofun

theorem Posts.disconnect (h : Posts shade bound events) :
    Posts shade' bound' (events ++ [.listenerDisconnected]) := by
  have hlast : Posts shade' bound' [(.listenerDisconnected : NotificationEvent Peer)] := trivial
  rw [← append_nil events] at h
  refine front events ?_ h hlast
  intro n _ _ _
  exact .inr (.inl (by simp))

theorem Posts.post {front old} (h : Posts shade true (front ++ (old ++ behind)))
    (hold : ∀ e ∈ old, e.isPostedOf n.platformKey)
    (hbeh : ∀ e ∈ behind, e.isPostedOf n.platformKey = false) :
    Posts (shade.filter (·.platformKey ≠ n.platformKey) ++ [n]) true
      (front ++ (.posted n :: behind)) := by
  have hkept {e : NotificationEvent Peer} {rest : List (NotificationEvent Peer)}
      (he : e.isPostedOf n.platformKey = false) (hmem : e ∈ rest ++ (old ++ behind)) :
      e ∈ rest ++ (.posted n :: behind) := by
    rcases mem_append.mp hmem with hrest | hmem
    · exact mem_append_left _ hrest
    rcases mem_append.mp hmem with hmem | hmem
    · rw [hold e hmem] at he
      cases he
    · exact mem_append_right _ (mem_cons_of_mem _ hmem)
  have hfresh (k : PlatformNotification) (rest : List (NotificationEvent Peer))
      (_ : .posted k ∈ front) (hk : Fresh shade true k (rest ++ (old ++ behind))) :
      Fresh (shade.filter (·.platformKey ≠ n.platformKey) ++ [n]) true k
        (rest ++ (.posted n :: behind)) := by
    refine hk.imp (fun c hc => hkept rfl hc) (hkept rfl) ?_
    intro _ m hm hmk hpost
    by_cases hkey : k.platformKey = n.platformKey
    · exact .inr (.inr ⟨rfl, n, by simp, hkey.symm, .inr ⟨n, by simp, hkey.symm⟩⟩)
    refine .inr (.inr ⟨rfl, m, ?_, hmk, ?_⟩)
    · refine mem_append_left _ (mem_filter.mpr ⟨hm, ?_⟩)
      simpa [hmk] using hkey
    · rcases hpost with rfl | ⟨j, hj, hjk⟩
      · exact .inl rfl
      · refine .inr ⟨j, hkept ?_ hj, hjk⟩
        simpa [isPostedOf, hjk] using hkey
  -- what stands behind is about other keys, so the new shade changes nothing for it
  have hrest : Posts (shade.filter (·.platformKey ≠ n.platformKey) ++ [n]) true behind := by
    have hsuffix := (h.suffix front).suffix old
    rw [← append_nil behind] at hsuffix ⊢
    refine Posts.front behind ?_ hsuffix trivial
    intro k _ hk hfresh
    have hkey : k.platformKey ≠ n.platformKey := by simpa [isPostedOf] using hbeh _ hk
    refine hfresh.imp (fun c hc => hc) (fun hd => hd) ?_
    intro _ m hm hmk hpost
    refine .inr (.inr ⟨rfl, m, ?_, hmk, hpost⟩)
    refine mem_append_left _ (mem_filter.mpr ⟨hm, ?_⟩)
    simpa [hmk] using hkey
  refine Posts.front front hfresh h (Posts.cons ?_ hrest)
  rintro k hk
  obtain rfl := posted.inj hk
  exact .inr (.inr ⟨rfl, n, by simp, rfl, .inl rfl⟩)

theorem Posts.remove {front key c} (h : Posts shade true (front ++ events)) :
    Posts (shade.filter (·.platformKey ≠ key)) true
      (front ++ (events.filter (fun e => !e.isPostedOf key) ++ [.removed key c])) := by
  have hfresh (n : PlatformNotification) (rest rest' : List (NotificationEvent Peer))
      (hsub : ∀ e ∈ rest, e.isPostedOf key = false → e ∈ rest') (hlast : .removed key c ∈ rest')
      (hn : Fresh shade true n rest) : Fresh (shade.filter (·.platformKey ≠ key)) true n rest' := by
    refine hn.imp (fun c hc => hsub _ hc rfl) (fun hd => hsub _ hd rfl) ?_
    intro _ m hm hmn hpost
    by_cases hkey : n.platformKey = key
    · exact .inl ⟨c, hkey ▸ hlast⟩
    refine .inr (.inr ⟨rfl, m, mem_filter.mpr ⟨hm, by simpa [hmn] using hkey⟩, hmn, ?_⟩)
    rcases hpost with rfl | ⟨k, hk, hkn⟩
    · exact .inl rfl
    · exact .inr ⟨k, hsub _ hk (by simpa [isPostedOf, hkn] using hkey), hkn⟩
  have hevents (l : List (NotificationEvent Peer)) (hl : Posts shade true l) :
      Posts (shade.filter (·.platformKey ≠ key)) true
        (l.filter (fun e => !e.isPostedOf key) ++ [.removed key c]) := by
    induction l with
    | nil => trivial
    | cons e l ih =>
      cases he : e.isPostedOf key with
      | true =>
        rw [filter_cons_of_neg (by simp [he])]
        exact ih hl.tail
      | false =>
        rw [filter_cons_of_pos (by simp [he]), cons_append]
        refine Posts.cons ?_ (ih hl.tail)
        rintro n rfl
        refine hfresh n l _ ?_ (by simp) hl.fresh
        intro e he hkept
        exact mem_append_left _ (mem_filter.mpr ⟨he, by simp [hkept]⟩)
  refine Posts.front front ?_ h (hevents events (h.suffix front))
  intro n _ _ hn
  refine hfresh n _ _ ?_ (by simp) hn
  intro e he hkept
  rcases mem_append.mp he with hrest | hmem
  · exact mem_append_left _ hrest
  · refine mem_append_right _ (mem_append_left _ (mem_filter.mpr ⟨hmem, by simp [hkept]⟩))

end Posts

/-- A held id is on its way out, or its notification is on the shade and is
either about to be judged again or allowed. -/
def Covered (x : Device) (events : List (NotificationEvent Peer))
    (shade : List PlatformNotification) (policy : NotificationPolicy) (shape : Option SnapshotShape)
    (id : List UInt8) : Prop :=
  ∃ key, x.derive key = id ∧ ((∃ c, .removed key c ∈ events) ∨ .listenerDisconnected ∈ events ∨
    ∃ n ∈ shade, n.platformKey = key ∧ ((∃ k, .posted k ∈ events ∧ k.platformKey = key) ∨
      .policyChanged ∈ events ∧ shape ≠ some (shapeOf policy) ∨ Allowed x policy n))

structure Session.Sound (x : Device) (s : Phone Peer) (t : Session Peer) :
    Prop extends t.Tidy x s.source.idMap where
  announced : s.source.isSourcing x → t.announced = some SOURCING
  narrowed : s.source.listenerConnected = false → t.announced ≠ some SOURCING
  covered : ∀ id ∈ t.held, Covered x s.pending s.shade (s.policies t.peer) t.snapshotShape id

def NotificationEvent.tells (key : String) : NotificationEvent Peer → Bool
  | .posted n => n.platformKey = key
  | .removed k _ => k = key
  | .listenerDisconnected => true
  | _ => false

namespace Phone

/-- What handling an event needs: a notification a session holds is not posted in
a form its policy forbids, mirroring is not switched off or given up under what a
session holds, the listener connects once, and no dismissal comes in, unless later
events make up for it. -/
def HandlesSoundly (x : Device) (s : Phone Peer) (later : List (NotificationEvent Peer)) :
    NotificationEvent Peer → Prop
  | .posted n => ∀ t ∈ s.source.sessions, t.sender ∉ s.closed → x.derive n.platformKey ∈ t.held →
    Allowed x (s.policies t.peer) n ∨
    .policyChanged ∈ later ∧ t.snapshotShape ≠ some (shapeOf (s.policies t.peer)) ∨
    ∃ e ∈ later, e.tells n.platformKey
  | .listenerConnected => s.source.listenerConnected = false
  | .policyChanged => s.source.isSourcing x → ∀ t ∈ s.source.sessions, t.sender ∉ s.closed →
    .SINK ∉ t.peerRoles ∨ (s.policies t.peer).allowMirror = false →
    ∀ n ∈ s.shade, x.derive n.platformKey ∈ t.held → Allowed x (s.policies t.peer) n ∨
      .policyChanged ∈ later ∨ ∃ e ∈ later, e.tells n.platformKey
  | .inbound _ (.dismiss _ _) => False
  | .inbound _ _ | .removed _ _ | .listenerDisconnected | .sessionAttached _ _
  | .sessionDetached _ => True

/-- The id map and the sent tables have room for the whole shade. -/
def Roomy (s : Phone Peer) : Prop :=
  s.source.idMap.byId.length + s.shade.length < MAX_TRACKED_NOTIFICATIONS ∧
    ∀ t ∈ s.source.sessions, t.sent.length + s.shade.length < MAX_TRACKED_NOTIFICATIONS

/-- Below the capacities: a policy does not go back to the one of the last
snapshot before its change is handled, the listener service comes back only when
its end has been handled, and events are handled soundly. -/
def Settles (x : Device) (s : Phone Peer) (a : Action Peer) : Prop :=
  ((s.event a).isSome → s.queue.events.length < EVENT_QUEUE_CAPACITY) ∧
  match a with
  | .setPolicy peer policy => ∀ t ∈ s.source.sessions, t.peer = peer →
    t.snapshotShape = some (shapeOf policy) → shapeOf (s.policies peer) = shapeOf policy
  | .createService | .connectListener =>
    s.source.listenerControl ∨ s.source.listenerConnected = false
  | .handle _ => s.Roomy ∧ ∀ e ∈ s.pending.head?, s.HandlesSoundly x s.pending.tail e
  | _ => True

structure Settling (x : Device) (s : Phone Peer) : Prop where
  keys : (s.shade.map platformKey).Nodup
  single : ∀ key, s.queue.events.countP (isPostedOf key) ≤ 1
  posts : Posts s.shade s.bound s.pending
  unbound : s.bound = false → s.pending.foldl connectedAfter s.source.listenerConnected = false
  ids : s.source.idMap.Within x (Linked.keys s.source.idMap.byId)
  echo : s.source.echo = []
  sessions : ∀ t ∈ s.source.sessions, t.sender ∉ s.closed → t.Sound x s

end Phone

section Offers

variable {event : NotificationEvent Peer} {q : NotificationOutboundQueue Peer} {α : Type} {b : α}

theorem replaceFirst_some {p : α → Bool} {l l'} (h : replaceFirst p b l = some l') :
    ∃ front a behind, l = front ++ a :: behind ∧ p a ∧ l' = front ++ b :: behind := by
  induction l generalizing l' with
  | nil => cases h
  | cons c l ih =>
    unfold replaceFirst at h
    split at h
    · next hc =>
      cases h
      exact ⟨[], c, l, rfl, hc, rfl⟩
    · obtain ⟨m, hm, rfl⟩ := map_eq_some_iff.mp h
      obtain ⟨front, a, behind, rfl, ha, rfl⟩ := ih hm
      exact ⟨c :: front, a, behind, rfl, ha, rfl⟩

theorem replaceFirst_none {p : α → Bool} {l} (h : replaceFirst p b l = none) :
    ∀ a ∈ l, p a = false := by
  induction l with
  | nil => exact nofun
  | cons c l ih =>
    unfold replaceFirst at h
    split at h
    · cases h
    · next hc =>
      intro a ha
      rcases mem_cons.mp ha with rfl | hl
      · simpa using hc
      · exact ih (map_eq_none_iff.mp h) a hl

section

variable (hroom : q.events.length < EVENT_QUEUE_CAPACITY)
include hroom

theorem length_purge_lt (event : NotificationEvent Peer) :
    (purge event q.events).length < EVENT_QUEUE_CAPACITY := by
  refine Nat.lt_of_le_of_lt ?_ hroom
  unfold purge
  split
  · exact length_filter_le _ _
  · exact Nat.le_refl _

theorem offer_of_room (hc : coalesce event q.events = none) :
    (q.offer event).events = purge event q.events ++ [event] := by
  simp [offer, hc, length_purge_lt hroom]

theorem offer_cases :
    (∃ n front a behind, event = .posted n ∧ q.events = front ++ a :: behind ∧
      a.isPostedOf n.platformKey = true ∧ (q.offer event).events = front ++ event :: behind) ∨
      coalesce event q.events = none ∧ (q.offer event).events = purge event q.events ++
      [event] := by
  cases hc : coalesce event q.events with
  | some events =>
    have hofr : (q.offer event).events = events := by simp [offer, hc]
    cases event with
    | posted n =>
      obtain ⟨front, a, behind, hq, ha, rfl⟩ := replaceFirst_some hc
      exact .inl ⟨n, front, a, behind, rfl, hq, ha, hofr⟩
    | _ => cases hc
  | none => exact .inr ⟨rfl, offer_of_room hroom hc⟩

theorem thrownOut_of_room : q.thrownOut event = [] := by
  unfold thrownOut
  split
  · rfl
  · exact if_pos (length_purge_lt hroom event)

theorem mem_offer (he : e ∈ q.events) :
    e ∈ (q.offer event).events ∨ ∃ k, e = .posted k ∧
      ((∃ n, event = .posted n ∧ n.platformKey = k.platformKey) ∨
      ∃ c, event = .removed k.platformKey c) := by
  have hposted {key : String} (h : e.isPostedOf key) :
      ∃ k, e = .posted k ∧ k.platformKey = key := by
    cases e with
    | posted k => exact ⟨k, rfl, by simpa [isPostedOf] using h⟩
    | _ => cases h
  rcases @offer_cases Peer event q hroom with ⟨n, _, a, _, rfl, hq, ha, hofr⟩ | ⟨-, hofr⟩
  · rw [hq] at he
    rw [hofr]
    rcases mem_append.mp he with hfront | hrest
    · exact .inl (mem_append_left _ hfront)
    rcases mem_cons.mp hrest with rfl | hbeh
    · obtain ⟨k, rfl, hk⟩ := hposted ha
      exact .inr ⟨k, rfl, .inl ⟨n, rfl, hk.symm⟩⟩
    · exact .inl (mem_append_right _ (mem_cons_of_mem _ hbeh))
  · rw [hofr]
    cases event with
    | removed key c =>
      cases hp : e.isPostedOf key with
      | true =>
        obtain ⟨k, rfl, rfl⟩ := hposted hp
        exact .inr ⟨k, rfl, .inr ⟨c, rfl⟩⟩
      | false => exact .inl (mem_append_left _ (mem_filter.mpr ⟨he, by simp [hp]⟩))
    | _ => exact .inl (mem_append_left _ he)

theorem mem_offer_self : event ∈ (q.offer event).events := by
  rcases @offer_cases Peer event q hroom with ⟨_, _, _, _, -, -, -, hofr⟩ | ⟨-, hofr⟩
  all_goals simp [hofr]

theorem countP_offer (h : ∀ key, q.events.countP (isPostedOf key) ≤ 1) (key : String) :
    (q.offer event).events.countP (isPostedOf key) ≤ 1 := by
  rcases @offer_cases Peer event q hroom with ⟨n, _, a, _, rfl, hq, ha, hofr⟩ | ⟨hc, hofr⟩
  · have hold := h key
    rw [hq] at hold
    have hsame : a.isPostedOf key = isPostedOf key (.posted n : NotificationEvent Peer) := by
      cases a with
      | posted k =>
        have hk : k.platformKey = n.platformKey := by simpa [isPostedOf] using ha
        simp [isPostedOf, hk]
      | _ => cases ha
    simpa only [hofr, countP_append, countP_cons, hsame] using hold
  · rw [hofr, countP_append]
    cases event with
    | posted n =>
      have hnone := replaceFirst_none hc
      by_cases hkey : n.platformKey = key
      · have hzero : q.events.countP (isPostedOf key) = 0 := by
          refine countP_eq_zero.mpr ?_
          intro e he
          rw [← hkey]
          simp [hnone e he]
        simp [purge, hzero, countP_cons]
        split <;> omega
      · have hnew : isPostedOf key (.posted n : NotificationEvent Peer) = false :=
          by simpa [isPostedOf] using hkey
        simpa [purge, countP_cons, hnew] using h key
    | removed k =>
      have hle : (q.events.filter (fun e => !e.isPostedOf k)).countP (isPostedOf key) ≤
          q.events.countP (isPostedOf key) := filter_sublist.countP_le
      have hold := h key
      exact hle.trans hold
    | _ => exact h key

end

end Offers

section Coverage

variable {x : Device} {policy : NotificationPolicy} {shape : Option SnapshotShape} {id : List UInt8}
  {events : List (NotificationEvent Peer)} {shade : List PlatformNotification} {s : Phone Peer}
  {policy' : NotificationPolicy}

theorem Covered.of_disconnected {events' : List (NotificationEvent Peer)} {shade' shape'}
    (h : Covered x events shade policy shape id) (hd : listenerDisconnected ∈ events') :
    Covered x events' shade' policy' shape' id := by
  obtain ⟨key, hkey, -⟩ := h
  exact ⟨key, hkey, .inr (.inl hd)⟩

section

variable (hroom : s.queue.events.length < EVENT_QUEUE_CAPACITY)
include hroom

variable (event : NotificationEvent Peer)

theorem mem_pending_offer (he : e ∈ s.pending) :
    e ∈ (s.offer event).pending ∨ ∃ k, e = .posted k ∧
      ((∃ n, event = .posted n ∧ n.platformKey = k.platformKey) ∨
      ∃ c, event = .removed k.platformKey c) := by
  rcases mem_append.mp he with hbat | hqueue
  · exact .inl (mem_append_left _ hbat)
  · rcases mem_offer hroom hqueue with hmem | hlost
    · exact .inl (mem_append_right _ hmem)
    · exact .inr hlost

theorem mem_pending_offer_self : event ∈ (s.offer event).pending :=
  mem_append_right _ (mem_offer_self hroom)

theorem Covered.offer (h : Covered x s.pending shade policy shape id) :
    Covered x (s.offer event).pending shade policy shape id := by
  have hkept {e : NotificationEvent Peer} (he : e ∈ s.pending) (hne : ∀ k, e ≠ .posted k) :
      e ∈ (s.offer event).pending := by
    rcases mem_pending_offer hroom event he with hmem | ⟨k, rfl, -⟩
    · exact hmem
    · exact absurd rfl (hne k)
  obtain ⟨key, hkey, hcase⟩ := h
  refine ⟨key, hkey, ?_⟩
  rcases hcase with ⟨c, hc⟩ | hd | ⟨n, hn, hnk, hpost | ⟨howed, hshape⟩ | hallow⟩
  · exact .inl ⟨c, hkept hc (by simp)⟩
  · exact .inr (.inl (hkept hd (by simp)))
  · obtain ⟨k, hk, rfl⟩ := hpost
    rcases mem_pending_offer hroom event hk with hmem | ⟨_, hk', ⟨m, rfl, hm⟩ | ⟨c, rfl⟩⟩
    · exact .inr (.inr ⟨n, hn, hnk, .inl ⟨k, hmem, rfl⟩⟩)
    · obtain rfl := posted.inj hk'
      exact .inr (.inr ⟨n, hn, hnk, .inl ⟨m, mem_pending_offer_self hroom _, hm⟩⟩)
    · obtain rfl := posted.inj hk'
      exact .inl ⟨c, mem_pending_offer_self hroom _⟩
  · exact .inr (.inr ⟨n, hn, hnk, .inr (.inl ⟨hkept howed (by simp), hshape⟩)⟩)
  · exact .inr (.inr ⟨n, hn, hnk, .inr (.inr hallow)⟩)

theorem Covered.post (n : PlatformNotification) (h : Covered x s.pending shade policy shape id) :
    Covered x (s.offer (.posted n)).pending (shade.filter (·.platformKey ≠ n.platformKey) ++ [n])
      policy shape id := by
  obtain ⟨key, hkey, hcase⟩ := h.offer hroom (.posted n)
  refine ⟨key, hkey, ?_⟩
  rcases hcase with hc | hd | ⟨m, hm, hmk, hrest⟩
  · exact .inl hc
  · exact .inr (.inl hd)
  by_cases hn : key = n.platformKey
  · exact .inr (.inr ⟨n, by simp, hn.symm, .inl ⟨n, mem_pending_offer_self hroom _, hn.symm⟩⟩)
  · refine .inr (.inr ⟨m, ?_, hmk, hrest⟩)
    exact mem_append_left _ (mem_filter.mpr ⟨hm, by simpa [hmk] using hn⟩)

theorem Covered.remove (key : String) (c : Bool) (h : Covered x s.pending shade policy shape id) :
    Covered x (s.offer (.removed key c)).pending (shade.filter (·.platformKey ≠ key)) policy shape
      id := by
  obtain ⟨k, hk, hcase⟩ := h.offer hroom (.removed key c)
  refine ⟨k, hk, ?_⟩
  rcases hcase with hc | hd | ⟨m, hm, hmk, hrest⟩
  · exact .inl hc
  · exact .inr (.inl hd)
  · by_cases hkey : k = key
    · exact .inl ⟨c, hkey ▸ mem_pending_offer_self hroom _⟩
    · exact .inr (.inr ⟨m, mem_filter.mpr ⟨hm, by simpa [hmk] using hkey⟩, hmk, hrest⟩)

theorem Covered.setPolicy
    (hback : shape = some (shapeOf policy') → shapeOf policy = shapeOf policy')
    (h : Covered x s.pending shade policy shape id) :
    Covered x (s.offer .policyChanged).pending shade policy' shape id := by
  obtain ⟨key, hkey, hcase⟩ := h.offer hroom .policyChanged
  refine ⟨key, hkey, ?_⟩
  rcases hcase with hc | hd | ⟨m, hm, hmk, hrest⟩
  · exact .inl hc
  · exact .inr (.inl hd)
  refine .inr (.inr ⟨m, hm, hmk, ?_⟩)
  by_cases hshape : shape = some (shapeOf policy')
  · have hsame := hback hshape
    rcases hrest with hpost | ⟨-, hne⟩ | hallow
    · exact .inl hpost
    · exact absurd (hshape.trans (congrArg some hsame.symm)) hne
    · exact .inr (.inr (hallow.of_shape hsame))
  · exact .inr (.inl ⟨mem_pending_offer_self hroom _, hshape⟩)

end

end Coverage

theorem mem_of_foldl_connectedAfter {events : List (NotificationEvent Peer)}
    (h : events.foldl connectedAfter true = false) : .listenerDisconnected ∈ events := by
  induction events with
  | nil => cases h
  | cons e _ ih =>
    cases e with
    | listenerDisconnected => exact mem_cons_self
    | _ => exact mem_cons_of_mem _ (ih h)

namespace Phone

variable {x : Device} {s : Phone Peer}

theorem Settling.disconnected (h : s.Settling x) (hbound : s.bound = false) {t : Session Peer}
    (ht : t.Sound x s) {id} (hid : id ∈ t.held) : .listenerDisconnected ∈ s.pending := by
  have hconn : s.source.listenerConnected := by
    by_contra hc
    have hnil := ht.silent (ht.narrowed (by simpa using hc))
    rw [hnil] at hid
    cases hid
  have hfold := h.unbound hbound
  rw [hconn] at hfold
  exact mem_of_foldl_connectedAfter hfold

theorem Settling.acted (h : s.Settling x) {s' : Phone Peer} (control : Bool)
    (hsrc : s'.source = { s.source with listenerControl := control })
    (hcont : control → s.source.listenerControl ∨ s.source.listenerConnected = false)
    (hcl : s.closed ⊆ s'.closed) (hkeys : (s'.shade.map platformKey).Nodup)
    (hsingle : ∀ key, s'.queue.events.countP (isPostedOf key) ≤ 1)
    (hposts : Posts s'.shade s'.bound s'.pending)
    (hunb : s'.bound = false → s'.pending.foldl connectedAfter s.source.listenerConnected = false)
    (hcover : ∀ t ∈ s.source.sessions, t.Sound x s → ∀ id ∈ t.held,
      Covered x s.pending s.shade (s.policies t.peer) t.snapshotShape id →
      Covered x s'.pending s'.shade (s'.policies t.peer) t.snapshotShape id) : s'.Settling x := by
  refine ⟨hkeys, hsingle, hposts, ?_, ?_, ?_, ?_⟩
  · rw [hsrc]
    exact hunb
  · rw [hsrc]
    exact h.ids
  · rw [hsrc]
    exact h.echo
  · intro t ht hopen
    rw [hsrc] at ht
    have hsound := h.sessions t ht (fun hmem => hopen (hcl hmem))
    refine ⟨?_, ?_, ?_, ?_⟩
    · rw [hsrc]
      exact hsound.toTidy
    · intro hsour
      refine hsound.announced ?_
      rw [hsrc] at hsour
      simp only [Source.isSourcing, Bool.and_eq_true] at hsour ⊢
      obtain ⟨⟨⟨hc, hconn⟩, hacc⟩, hsec⟩ := hsour
      rcases hcont hc with hold | hoff
      · exact ⟨⟨⟨hold, hconn⟩, hacc⟩, hsec⟩
      · rw [hoff] at hconn
        cases hconn
    · rw [hsrc]
      exact hsound.narrowed
    · exact fun id hid => hcover t ht hsound id hid (hsound.covered id hid)

variable {shade : List PlatformNotification}

theorem nodup_keys_filter (h : (shade.map platformKey).Nodup) (p : PlatformNotification → Bool) :
    ((shade.filter p).map platformKey).Nodup :=
  h.sublist (filter_sublist.map _)

theorem nodup_keys_post (h : (shade.map platformKey).Nodup) (n : PlatformNotification) :
    ((shade.filter (·.platformKey ≠ n.platformKey) ++ [n]).map platformKey).Nodup := by
  rw [map_append]
  refine nodup_append.mpr ⟨nodup_keys_filter h _, nodup_singleton _, ?_⟩
  intro _ hkey k hk
  obtain ⟨m, hm, rfl⟩ := mem_map.mp hkey
  rw [map_singleton, mem_singleton] at hk
  rw [hk]
  simpa using (mem_filter.mp hm).2

section

variable (hroom : s.queue.events.length < EVENT_QUEUE_CAPACITY)
include hroom

theorem foldl_connected_offer [DecidableEq Peer] (e : NotificationEvent Peer) (connected : Bool) :
    (s.offer e).pending.foldl connectedAfter connected = connectedAfter
      (s.pending.foldl connectedAfter connected) e := by
  have hthrown : Superseded (s.queue.thrownOut e) := by
    rw [thrownOut_of_room hroom]
    trivial
  have hq := foldl_offer (f := connectedAfter) (fun e he b c => connectedAfter_of_slot he b c)
    (fun e he b => connectedAfter_of_slot_ne he b) hthrown (s.batch.foldl connectedAfter connected)
  simp only [pending, foldl_append]
  exact hq

theorem pending_offer (hposted : ∀ n, e ≠ .posted n) (hrem : ∀ key c, e ≠ .removed key c) :
    (s.offer e).pending = s.pending ++ [e] := by
  have hc : coalesce e s.queue.events = none := by
    cases e with
    | posted n => exact absurd rfl (hposted n)
    | _ => rfl
  have hp : purge e s.queue.events = s.queue.events := by
    cases e with
    | removed key c => exact absurd rfl (hrem key c)
    | _ => rfl
  have hevents := offer_of_room hroom hc
  rw [hp] at hevents
  simp only [pending, offer, hevents, append_assoc]

theorem Settling.posts_post (h : s.Settling x) (hbound : s.bound) (n : PlatformNotification) :
    Posts (s.shade.filter (·.platformKey ≠ n.platformKey) ++ [n]) true
      (s.offer (.posted n)).pending := by
  have hposts := h.posts
  rw [hbound] at hposts
  cases hc : NotificationOutboundQueue.coalesce (.posted n) s.queue.events with
  | some events =>
    obtain ⟨front, a, behind, hq, ha, rfl⟩ := replaceFirst_some hc
    have hofr : (s.queue.offer (.posted n)).events = front ++ .posted n :: behind := by
      simp [NotificationOutboundQueue.offer, hc]
    have hbeh : ∀ e ∈ behind, e.isPostedOf n.platformKey = false := by
      have hcount := h.single n.platformKey
      rw [hq, countP_append, countP_cons_of_pos ha] at hcount
      have hzero : behind.countP (isPostedOf n.platformKey) = 0 := by omega
      intro e he
      simpa using countP_eq_zero.mp hzero e he
    have hall : Posts s.shade true ((s.batch ++ front) ++ ([a] ++ behind)) :=
      by simpa [pending, hq] using hposts
    have hnew := hall.post (by simpa using ha) hbeh
    simpa [pending, offer, hofr] using hnew
  | none =>
    have hall : Posts s.shade true (s.pending ++ ([] ++ [])) := by simpa using hposts
    have hnew := hall.post (n := n) (by simp) (by simp)
    have hofr := offer_of_room hroom hc
    simpa [pending, offer, hofr, NotificationOutboundQueue.purge] using hnew

theorem Settling.posts_remove (h : s.Settling x) (hbound : s.bound) (key : String) (c : Bool) :
    Posts (s.shade.filter (·.platformKey ≠ key)) true (s.offer (.removed key c)).pending := by
  have hposts := h.posts
  rw [hbound] at hposts
  have hofr : (s.queue.offer (.removed key c)).events =
      s.queue.events.filter (fun e => !e.isPostedOf key) ++ [removed key c] :=
      offer_of_room hroom rfl
  have hnew : Posts (s.shade.filter (·.platformKey ≠ key)) true
      (s.batch ++ (s.queue.events.filter (fun e => !e.isPostedOf key) ++ [removed key c])) :=
    Posts.remove hposts
  simpa only [pending, offer, hofr] using hnew

end

/-- A notification is posted or removed, which the listener tells while it is bound. -/
theorem shade_settling (h : s.Settling x) (hkeys : (shade.map platformKey).Nodup)
    (hroom : s.bound → s.queue.events.length < EVENT_QUEUE_CAPACITY)
    (hposts : s.bound → Posts shade true (s.offer e).pending)
    (hcover : s.bound → ∀ {policy shape id}, Covered x s.pending s.shade policy shape id →
      Covered x (s.offer e).pending shade policy shape id) :
    ((if s.bound then some e else none).elim { s with shade } { s with shade }.offer).Settling
      x := by
  cases hbound : s.bound with
  | false =>
    refine h.acted s.source.listenerControl rfl .inl (fun _ hc => hc) hkeys h.single ?_
      (fun _ => h.unbound hbound) ?_
    · have hold := h.posts
      rw [hbound] at hold
      exact hold.of_unbound
    · intro t _ hsound _ hid hcover
      exact hcover.of_disconnected (h.disconnected hbound hsound hid)
  | true =>
    refine h.acted s.source.listenerControl rfl .inl (fun _ hc => hc) hkeys
      (countP_offer (hroom hbound) h.single) (hposts hbound) nofun ?_
    intro t _ _ _ _ hold
    exact hcover hbound hold

variable [DecidableEq Peer]

theorem Settling.offered (h : s.Settling x) (hroom : s.queue.events.length < EVENT_QUEUE_CAPACITY)
    (hposted : ∀ n, e ≠ .posted n) (hrem : ∀ key c, e ≠ .removed key c) {s' : Phone Peer}
    (hs' : s' = { s with bound := s'.bound, policies := s'.policies, source := s'.source })
    (control : Bool) (hsrc : s'.source = { s.source with listenerControl := control })
    (hcont : control → s.source.listenerControl ∨ s.source.listenerConnected = false)
    (hbound : s.bound → s'.bound ∨ e = .listenerDisconnected)
    (hlast : s'.bound = false →
      connectedAfter (s.pending.foldl connectedAfter s.source.listenerConnected) e = false)
    (hcover : ∀ t ∈ s.source.sessions, t.Sound x s → ∀ id ∈ t.held,
      Covered x s.pending s.shade (s.policies t.peer) t.snapshotShape id →
      Covered x (s.offer e).pending s.shade (s'.policies t.peer) t.snapshotShape id) :
    (s'.offer e).Settling x := by
  have hpend : (s'.offer e).pending = (s.offer e).pending := by
    rw [hs']
    rfl
  have hshade : s'.shade = s.shade := by rw [hs']
  have hqueue : s'.queue = s.queue := by rw [hs']
  refine h.acted control hsrc hcont (by rw [hs']; exact fun _ hc => hc)
    (by rw [hs']; exact h.keys) ?_ ?_ ?_ ?_
  · show ∀ key, (s'.queue.offer e).events.countP (isPostedOf key) ≤ 1
    rw [hqueue]
    exact countP_offer hroom h.single
  · rw [hpend, pending_offer hroom hposted hrem]
    show Posts s'.shade s'.bound _
    rw [hshade]
    by_cases hb : s.bound → s'.bound
    · exact h.posts.concat hb hposted
    · obtain ⟨htrue, hfalse⟩ := Classical.not_imp.mp hb
      rw [(hbound htrue).resolve_left hfalse]
      exact h.posts.disconnect
  · intro hfalse
    rw [hpend, foldl_connected_offer hroom]
    exact hlast hfalse
  · intro t ht hsound id hid hcov
    rw [hpend]
    show Covered x _ s'.shade _ _ _
    rw [hshade]
    exact hcover t ht hsound id hid hcov

theorem act_settling (h : s.Settling x) {a : Action Peer} (hok : s.Settles x a)
    (hdrain : a ≠ .drain) (hhand : ∀ c, a ≠ .handle c) :
    ((s.event a).elim (s.world a) (s.world a).offer).Settling x := by
  obtain ⟨hroom, hok⟩ := hok
  -- a change of the lock, the clock or the senders covers what it covered before
  have hquiet {s' : Phone Peer} (hsrc : s'.source = s.source) (hcl : s.closed ⊆ s'.closed)
      (hrest : s' =
        { s with locked := s'.locked, now := s'.now, closed := s'.closed, source := s'.source }) :
      s'.Settling x := by
    rw [hrest]
    refine h.acted s.source.listenerControl ?_ .inl hcl h.keys h.single h.posts h.unbound
      (fun _ _ _ _ _ hcover => hcover)
    exact hsrc
  cases a with
  | post n =>
    have hroom : s.bound → s.queue.events.length < EVENT_QUEUE_CAPACITY := fun hbound =>
      hroom (by simp [event, hbound])
    exact shade_settling h (nodup_keys_post h.keys n) hroom (fun hbound =>
      h.posts_post (hroom hbound) hbound n)
      (fun hbound _ _ _ hold => hold.post (hroom hbound) n)
  | remove key c =>
    have hroom : s.bound → s.queue.events.length < EVENT_QUEUE_CAPACITY := fun hbound =>
      hroom (by simp [event, hbound])
    exact shade_settling h (nodup_keys_filter h.keys _) hroom (fun hbound =>
      h.posts_remove (hroom hbound) hbound key c)
      (fun hbound _ _ _ hold => hold.remove (hroom hbound) key c)
  | createService =>
    refine h.acted true rfl (fun _ => hok) (fun _ hc => hc) h.keys h.single h.posts h.unbound ?_
    exact fun _ _ _ _ _ hcover => hcover
  | connectListener =>
    refine h.offered (hroom rfl) (by simp) (by simp) rfl true rfl (fun _ => hok) (fun _ => .inl rfl)
      (by simp [world, withListener]) ?_
    exact fun _ _ _ _ _ hcover => hcover.offer (hroom rfl) _
  | disconnectListener =>
    refine h.offered (hroom rfl) (by simp) (by simp) rfl s.source.listenerControl rfl .inl
      (fun _ => .inr rfl) (fun _ => rfl) ?_
    exact fun _ _ _ _ _ hcover => hcover.offer (hroom rfl) _
  | destroyService =>
    refine h.offered (hroom rfl) (by simp) (by simp) rfl false rfl nofun (fun _ => .inr rfl)
      (fun _ => rfl) ?_
    exact fun _ _ _ _ _ hcover => hcover.offer (hroom rfl) _
  | setPolicy peer policy =>
    refine h.offered (hroom rfl) (by simp) (by simp) rfl s.source.listenerControl rfl .inl .inl
      h.unbound ?_
    intro t ht _ _ _ hcover
    show Covered x _ _ (Function.update s.policies peer policy t.peer) _ _
    by_cases hpeer : t.peer = peer
    · rw [hpeer, Function.update_self]
      rw [hpeer] at hcover
      exact hcover.setPolicy (hroom rfl) (hok t ht hpeer)
    · rw [Function.update_of_ne hpeer]
      exact hcover.offer (hroom rfl) _
  | refreshPolicy | attachSession | detachSession | receive =>
    refine h.offered (hroom rfl) (by simp) (by simp) rfl s.source.listenerControl rfl .inl .inl
      h.unbound ?_
    exact fun _ _ _ _ _ hcover => hcover.offer (hroom rfl) _
  | setLocked | elapse => exact hquiet rfl (fun _ hc => hc) rfl
  | closeSender sender => exact hquiet rfl (subset_cons_self sender s.closed) rfl
  | drain => exact absurd rfl hdrain
  | handle c => exact absurd rfl (hhand c)

end Phone

end OmniBridge.Notifications
