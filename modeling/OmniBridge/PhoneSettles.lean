import OmniBridge.PhoneMirrors

/-! Handling an event keeps every held notification covered, so that a source
with nothing left to handle has taken back whatever is gone or not allowed. -/

namespace OmniBridge.Notifications

open List Option Source Linked NotificationEvent Session Function
open Trust (NotificationPolicy)

variable {Peer : Type}

section Coverage

variable {x : Device} {policy : NotificationPolicy} {shape : Option SnapshotShape} {id : List UInt8}
  {later : List (NotificationEvent Peer)} {shade : List PlatformNotification}
  {n : PlatformNotification} {e : NotificationEvent Peer}

theorem Covered.of_tells (hn : n ∈ shade) (he : e ∈ later) (htells : e.tells n.platformKey) :
    Covered x later shade policy shape (x.derive n.platformKey) := by
  refine ⟨n.platformKey, rfl, ?_⟩
  cases e with
  | posted k => exact .inr (.inr ⟨n, hn, rfl, .inl ⟨k, he, by simpa [tells] using htells⟩⟩)
  | removed key c =>
    obtain rfl : key = n.platformKey := by simpa [tells] using htells
    exact .inl ⟨c, he⟩
  | listenerDisconnected => exact .inr (.inl he)
  | _ => cases htells

theorem Covered.of_allowed (hn : n ∈ shade) (h : Allowed x policy n) :
    Covered x later shade policy shape (x.derive n.platformKey) :=
  ⟨n.platformKey, rfl, .inr (.inr ⟨n, hn, rfl, .inr (.inr h)⟩)⟩

theorem Fresh.covered {bound} (h : Fresh shade bound n later)
    (hok : Allowed x policy n ∨ .policyChanged ∈ later ∧ shape ≠ some (shapeOf policy) ∨
      ∃ e ∈ later, e.tells n.platformKey) :
    Covered x later shade policy shape (x.derive n.platformKey) := by
  rcases h with ⟨c, hc⟩ | hd | ⟨-, m, hm, hmn, rfl | hpost⟩
  · exact ⟨n.platformKey, rfl, .inl ⟨c, hc⟩⟩
  · exact ⟨n.platformKey, rfl, .inr (.inl hd)⟩
  · rcases hok with hallow | howed | ⟨e, he, htells⟩
    · exact .of_allowed hm hallow
    · exact ⟨m.platformKey, rfl, .inr (.inr ⟨m, hm, rfl, .inr (.inl howed)⟩)⟩
    · exact .of_tells hm he htells
  · exact ⟨n.platformKey, rfl, .inr (.inr ⟨m, hm, hmn, .inl hpost⟩)⟩

theorem Covered.tail (h : Covered x (e :: later) shade policy shape id)
    (hrem : ∀ key c, e = .removed key c → x.derive key ≠ id) (hgone : e ≠ .listenerDisconnected)
    (hpost : ∀ k, e = .posted k → x.derive k.platformKey = id →
      Covered x later shade policy shape id)
    (howed : e = .policyChanged → shape ≠ some (shapeOf policy) → ∀ n ∈ shade,
      x.derive n.platformKey = id → Covered x later shade policy shape id) :
    Covered x later shade policy shape id := by
  obtain ⟨key, hkey, ⟨c, hc⟩ | hd | ⟨n, hn, hnk, ⟨k, hk, hkk⟩ | ⟨hchg, hshape⟩ | hallow⟩⟩ := h
  · rcases mem_cons.mp hc with heq | hc
    · exact absurd hkey (hrem key c heq.symm)
    · exact ⟨key, hkey, .inl ⟨c, hc⟩⟩
  · rcases mem_cons.mp hd with heq | hd
    · exact absurd heq.symm hgone
    · exact ⟨key, hkey, .inr (.inl hd)⟩
  · rcases mem_cons.mp hk with heq | hk
    · exact hpost k heq.symm (by rw [hkk]; exact hkey)
    · exact ⟨key, hkey, .inr (.inr ⟨n, hn, hnk, .inl ⟨k, hk, hkk⟩⟩)⟩
  · rcases mem_cons.mp hchg with heq | hchg
    · exact howed heq.symm hshape n hn (by rw [hnk]; exact hkey)
    · exact ⟨key, hkey, .inr (.inr ⟨n, hn, hnk, .inr (.inl ⟨hchg, hshape⟩)⟩)⟩
  · exact ⟨key, hkey, .inr (.inr ⟨n, hn, hnk, .inr (.inr hallow)⟩)⟩

def NotificationEvent.plain : NotificationEvent Peer → Bool
  | .listenerConnected | .sessionAttached _ _ | .sessionDetached _ | .inbound _ _ => true
  | .posted _ | .removed _ _ | .listenerDisconnected | .policyChanged => false

theorem Covered.tail_of_plain (he : e.plain) (h : Covered x (e :: later) shade policy shape id) :
    Covered x later shade policy shape id := by
  cases e with
  | listenerConnected | sessionAttached | sessionDetached | inbound =>
    exact h.tail (by simp) (by simp) (by simp) (by simp)
  | _ => cases he

theorem Covered.forget (h : Covered x later shade policy shape id) :
    Covered x later shade policy none id := by
  obtain ⟨key, hkey, hc | hd | ⟨n, hn, hnk, hpost | ⟨hchg, -⟩ | hallow⟩⟩ := h
  · exact ⟨key, hkey, .inl hc⟩
  · exact ⟨key, hkey, .inr (.inl hd)⟩
  · exact ⟨key, hkey, .inr (.inr ⟨n, hn, hnk, .inl hpost⟩)⟩
  · exact ⟨key, hkey, .inr (.inr ⟨n, hn, hnk, .inr (.inl ⟨hchg, nofun⟩)⟩)⟩
  · exact ⟨key, hkey, .inr (.inr ⟨n, hn, hnk, .inr (.inr hallow)⟩)⟩

end Coverage

namespace Phone

variable {x : Device} {s : Phone Peer} {e : NotificationEvent Peer}
  {rest : List (NotificationEvent Peer)} {source : Source Peer} {ids : List (List UInt8)}

theorem pending_of_batch (hbat : s.batch = e :: rest) :
    s.pending = e :: (rest ++ s.queue.events) := by
  unfold pending
  rw [hbat]
  rfl

variable {sender : Nat}

theorem alive_iff (c) : (s.view c).alive sender ↔ sender ∉ s.closed := by simp [view]

theorem Settling.handled (h : s.Settling x) (hbat : s.batch = e :: rest)
    (hconn : source.listenerConnected = connectedAfter s.source.listenerConnected e)
    (hids : source.idMap.Within x ids) (hecho : source.echo = [])
    (hsess : ∀ t ∈ source.sessions, t.sender ∉ s.closed →
      t.Sound x { s with batch := rest, source := source }) :
    Settling x { s with batch := rest, source := source } := by
  have hpend := pending_of_batch hbat
  refine ⟨h.keys, h.single, ?_, ?_, ⟨hids.nodup, fun _ hid => hid, hids.derived⟩, hecho, hsess⟩
  · have hposts := h.posts
    rw [hpend] at hposts
    exact hposts.tail
  · intro hbound
    have hunb := h.unbound hbound
    rw [hpend, foldl_cons, ← hconn] at hunb
    exact hunb

variable {peer : Peer} {t u : Session Peer}

theorem Sound.covered_of_batch (hbat : s.batch = e :: rest) (ht : t.Sound x s) {id}
    (hid : id ∈ t.held) :
    Covered x (e :: (rest ++ s.queue.events)) s.shade (s.policies t.peer) t.snapshotShape id := by
  rw [← pending_of_batch hbat]
  exact ht.covered id hid

open Sound

theorem Sound.stay (hbat : s.batch = e :: rest) (ht : t.Sound x s)
    (hsour : source.isSourcing x = s.source.isSourcing x)
    (hconn : source.listenerConnected = s.source.listenerConnected)
    (hext : s.source.idMap.Extends source.idMap)
    (hcov : ∀ id ∈ t.held, Covered x (e :: (rest ++ s.queue.events)) s.shade (s.policies t.peer)
      t.snapshotShape id → Covered x (rest ++ s.queue.events) s.shade (s.policies t.peer)
      t.snapshotShape id) : t.Sound x { s with batch := rest, source := source } := by
  refine ⟨ht.toTidy.extend hext, ?_, ?_, ?_⟩
  · rw [hsour]
    exact ht.announced
  · rw [hconn]
    exact ht.narrowed
  · exact fun id hid => hcov id hid (covered_of_batch hbat ht hid)

theorem posted_settling (h : s.Settling x) {n} (hbat : s.batch = .posted n :: rest)
    (hroomy : s.Roomy) (hok : s.HandlesSoundly x (rest ++ s.queue.events) (.posted n)) (c) :
    Settling x { s with batch := rest, source := s.source.handlePosted x (s.view c) n } := by
  have hfresh : Fresh s.shade s.bound n (rest ++ s.queue.events) := by
    have hposts := h.posts
    rw [pending_of_batch hbat] at hposts
    exact hposts.fresh
  -- what a session held before, the post or what comes after it covers
  have hold {t : Session Peer} (ht : t ∈ s.source.sessions) (hopen : t.sender ∉ s.closed)
      {id : List UInt8}
      (hid : id ∈ t.held) (hcov : Covered x (.posted n :: (rest ++ s.queue.events)) s.shade
        (s.policies t.peer) t.snapshotShape id) :
      Covered x (rest ++ s.queue.events) s.shade (s.policies t.peer) t.snapshotShape id := by
    refine hcov.tail (by simp) (by simp) ?_ (by simp)
    intro k hk hder
    obtain rfl := posted.inj hk
    rw [← hder] at hid ⊢
    exact hfresh.covered (hok t ht hopen hid)
  unfold handlePosted
  split
  · next hscr hsour =>
    have hroom : (x.derive n.platformKey :: keys s.source.idMap.byId).length ≤
        MAX_TRACKED_NOTIFICATIONS := by
      have hlt := hroomy.1
      simp only [length_cons, Linked.keys, length_map]
      omega
    have hwith : s.source.idMap.Within x (x.derive n.platformKey :: keys s.source.idMap.byId) :=
      ⟨h.ids.nodup, subset_cons_self _ _, h.ids.derived⟩
    have hget := hwith.get_remember hroom mem_cons_self
    have hext : s.source.idMap.Extends (s.source.idMap.remember (x.derive n.platformKey)
        n.platformKey) :=
      fun _ _ hk => hwith.get_remember_of_get hroom mem_cons_self hk
    have hmap := hwith.remember hroom mem_cons_self
    refine h.handled hbat rfl hmap h.echo ?_
    intro u hu hopen
    obtain ⟨t, ht, rfl⟩ := mem_map.mp hu
    obtain ⟨hpeer, hsend⟩ := Prod.mk.inj (t.post_continues x (s.view c) n).ends
    rw [hsend] at hopen
    have hsound := h.sessions t ht hopen
    have hlen : t.sent.length < MAX_TRACKED_NOTIFICATIONS := by
      have hlt := hroomy.2 t ht
      omega
    obtain ⟨htidy, hroles, hshape, hheld⟩ := post_tidy (hsound.toTidy.extend hext)
      ((alive_iff c).mpr hopen) (hsound.announced hsour) hget hlen
    refine ⟨htidy, ?_, ?_, ?_⟩
    · rw [hroles]
      exact hsound.announced
    · rw [hroles]
      exact hsound.narrowed
    · intro id hid
      rw [hpeer, hshape]
      rcases hheld id hid with hid | ⟨rfl, hdec⟩
      · exact hold ht hopen hid (covered_of_batch hbat hsound hid)
      · exact hfresh.covered (.inl ⟨hscr, hdec⟩)
  · refine h.handled hbat rfl h.ids h.echo ?_
    intro t ht hopen
    exact stay hbat (h.sessions t ht hopen) rfl rfl (fun _ _ hk => hk)
      (fun id hid hcov => hold ht hopen hid hcov)

theorem mem_view_active {c active} (h : active ∈ (s.view c).active) : active = s.shade := by
  cases hbound : s.bound with
  | false => simp [view, hbound] at h
  | true => simpa [view, hbound, eq_comm] using h

theorem fits_of_room (c) {front} (h : front.length + s.shade.length < MAX_TRACKED_NOTIFICATIONS) :
    Fits x (s.view c) (front ++ s.shade.map (fun n => x.derive n.platformKey)) := by
  constructor
  · rw [length_append, length_map]
    omega
  · intro _ hact n hn
    rw [mem_view_active hact] at hn
    exact mem_append_right _ (mem_map_of_mem hn)

theorem Roomy.idMap (h : s.Roomy) (c) :
    Fits x (s.view c) (Linked.keys s.source.idMap.byId ++
      s.shade.map (fun n => x.derive n.platformKey)) :=
  fits_of_room c (by simpa [Linked.keys] using h.1)

theorem Roomy.sent (h : s.Roomy) (c) (ht : t ∈ s.source.sessions) :
    ∃ sentIds, Fits x (s.view c) sentIds ∧ Linked.keys t.sent ⊆ sentIds :=
  ⟨_, fits_of_room c (by simpa [Linked.keys] using h.2 t ht), subset_append_left _ _⟩

theorem Settling.idMap (h : s.Settling x) :
    s.source.idMap.Within x (Linked.keys s.source.idMap.byId ++
      s.shade.map (fun n => x.derive n.platformKey)) :=
  ⟨h.ids.nodup, subset_append_left _ _, h.ids.derived⟩

theorem Converged.sound {v} (h : t.Converged x v (source.isSourcing x) u)
    (htidy : u.Tidy x source.idMap)
    (hcov : ∀ id ∈ u.held, Covered x (rest ++ s.queue.events) s.shade (s.policies t.peer)
      u.snapshotShape id) : u.Sound x { s with batch := rest, source := source } := by
  obtain ⟨hpeer, -⟩ := Prod.mk.inj h.ends
  refine ⟨htidy, ?_, ?_, ?_⟩
  · intro hsour
    have hroles := h.roles
    rw [show source.isSourcing x from hsour] at hroles
    exact hroles
  · intro hconn
    have hsour : source.isSourcing x = false := by
      unfold isSourcing
      rw [show source.listenerConnected = false from hconn]
      simp
    rw [h.roles, hsour]
    exact rolesWhen_false_ne
  · rw [hpeer]
    exact hcov

theorem Converged.covered {c sourcing} {later : List (NotificationEvent Peer)}
    (h : t.Converged x (s.view c) sourcing u) {id} (hid : id ∈ u.held)
    (hforgot : sourcing → id ∈ t.held → .SINK ∉ t.peerRoles ∨
      (s.policies t.peer).allowMirror = false →
      Covered x later s.shade (s.policies t.peer) none id)
    (hkept : id ∈ t.held → t.snapshotShape = some (shapeOf (s.policies t.peer)) ∨ s.bound = false →
      Covered x later s.shade (s.policies t.peer) t.snapshotShape id) :
    Covered x later s.shade (s.policies t.peer) u.snapshotShape id := by
  rcases h.held id hid with ⟨hold, ⟨hnone, hlive⟩ | ⟨hsame, hshape⟩⟩ | ⟨_, hact, n, hn, rfl, hallow⟩
  · rw [hnone]
    refine hforgot ?_ hold hlive
    by_contra hfalse
    rw [h.silent (by simpa using hfalse)] at hid
    cases hid
  · rw [hsame]
    refine hkept hold (hshape.imp_right ?_)
    intro hact
    by_contra hbound
    simp [view, hbound] at hact
  · rw [mem_view_active hact] at hn
    exact .of_allowed hn hallow

open Converged

theorem convergeAll_settling (h : s.Settling x) (hbat : s.batch = e :: rest) (c)
    (source : Source Peer) (hroomy : s.Roomy) (hsame : source.sessions = s.source.sessions)
    (hecho : source.echo = [])
    (hconn : source.listenerConnected = connectedAfter s.source.listenerConnected e)
    (hids : source.idMap.Within x (Linked.keys s.source.idMap.byId ++
      s.shade.map (fun n => x.derive n.platformKey)))
    (htidy : ∀ t ∈ s.source.sessions, t.Sound x s → t.Tidy x source.idMap)
    (hcov : ∀ t ∈ s.source.sessions, t.sender ∉ s.closed → t.Sound x s →
      ∀ u, t.Converged x (s.view c) (source.isSourcing x) u → ∀ id ∈ u.held,
      Covered x (rest ++ s.queue.events) s.shade (s.policies t.peer) u.snapshotShape id) :
    Settling x { s with batch := rest, source := source.convergeAll x (s.view c) } := by
  obtain ⟨hwith, hall⟩ := convergeAll_tidy (x := x) (v := s.view c) (s := source) (by
      rw [hsame]
      exact fun t ht halive => htidy t ht (h.sessions t ht ((alive_iff c).mp halive)))
    hids (hroomy.idMap c) (by rw [hsame]; exact fun t ht => hroomy.sent c ht)
  refine h.handled hbat hconn hwith hecho ?_
  intro u hu hopen
  obtain ⟨hnew, t, ht, halive, hconv⟩ := hall u hu ((alive_iff c).mpr hopen)
  rw [hsame] at ht
  have hopen := (alive_iff c).mp halive
  exact sound hconv hnew (hcov t ht hopen (h.sessions t ht hopen) u hconv)

theorem subset_settling (h : s.Settling x) (hbat : s.batch = e :: rest) (he : e.plain)
    (hlist : connectedAfter s.source.listenerConnected e = s.source.listenerConnected)
    (sessions : List (Session Peer)) (requests : List BindRequest)
    (hsub : sessions ⊆ s.source.sessions) :
    Settling x { s with
      batch := rest
      source := { s.source with sessions := sessions, requests := requests } } := by
  refine h.handled hbat hlist.symm h.ids h.echo ?_
  intro t ht hopen
  exact stay hbat (h.sessions t (hsub ht) hopen) rfl rfl (fun _ _ hk => hk)
    (fun id _ hcov => hcov.tail_of_plain he)

theorem init_settling : Settling x ({} : Phone Peer) :=
  ⟨nodup_nil, fun _ => Nat.zero_le 1, trivial, fun _ => rfl, ⟨nodup_nil, fun _ hid => hid, nofun⟩,
    rfl, nofun⟩

variable [DecidableEq Peer]

theorem removed_settling (hinj : Injective x.derive) (h : s.Settling x) {key}
    {listenerCancelled} (hbat : s.batch = .removed key listenerCancelled :: rest) (c) :
    Settling x { s with
      batch := rest
      source := s.source.handleRemoved (s.view c) key listenerCancelled } := by
  have htail {t : Session Peer} {shape : Option SnapshotShape} {id : List UInt8}
      (hne : x.derive key ≠ id)
      (hcov : Covered x (.removed key listenerCancelled :: (rest ++ s.queue.events)) s.shade
        (s.policies t.peer) shape id) :
      Covered x (rest ++ s.queue.events) s.shade (s.policies t.peer) shape id := by
    refine hcov.tail ?_ (by simp) (by simp) (by simp)
    intro k _ hk
    obtain ⟨rfl, -⟩ := removed.inj hk
    exact hne
  unfold handleRemoved
  split
  · next hnone =>
    -- the id map does not know the key, so no session holds its id
    refine h.handled hbat rfl (h.ids.forgetKey key) h.echo ?_
    intro t ht halive
    have hsound := h.sessions t ht halive
    have hforg : s.source.idMap.forgetKey key = s.source.idMap := by
      unfold SourceIdMap.forgetKey
      rw [show get key s.source.idMap.byKey = none from hnone]
    refine stay hbat hsound rfl rfl ?_ ?_
    · rw [hforg]
      exact fun _ _ hk => hk
    · intro id hid hcov
      refine htail (fun heq => ?_) hcov
      obtain ⟨-, k, hk, hget⟩ := hsound.known id hid
      obtain rfl : k = key := hinj (hk.trans heq.symm)
      rw [show get k s.source.idMap.byKey = none from hnone] at hget
      cases hget
  · next id hid =>
    obtain rfl : id = x.derive key := h.ids.derived key id hid
    have hask : (if listenerCancelled then EchoSuppression.consume (s.view c).now (x.derive key)
        s.source.echo else (none, s.source.echo)) = (none, []) := by
      rw [h.echo]
      split <;> rfl
    rw [hask]
    refine h.handled hbat rfl (h.ids.forgetKey key) rfl ?_
    intro u hu hopen
    obtain ⟨t, ht, rfl⟩ := mem_map.mp hu
    obtain ⟨hpeer, hsend⟩ := Prod.mk.inj (t.unpost_continues (s.view c) (x.derive key) none).ends
    rw [hsend] at hopen
    have hsound := h.sessions t ht hopen
    obtain ⟨htidy, hroles, hshape, hheld⟩ :=
      unpost_tidy hsound.toTidy ((alive_iff c).mpr hopen) key rfl
    refine ⟨htidy, ?_, ?_, ?_⟩
    · rw [hroles]
      exact hsound.announced
    · rw [hroles]
      exact hsound.narrowed
    · intro id hid
      obtain ⟨hid, hne⟩ := hheld id hid
      rw [hpeer, hshape]
      exact htail hne (covered_of_batch hbat hsound hid)

theorem policyChanged_settling (h : s.Settling x) (hbat : s.batch = .policyChanged :: rest)
    (hroomy : s.Roomy) (hok : s.HandlesSoundly x (rest ++ s.queue.events) .policyChanged) (c) :
    Settling x { s with batch := rest, source := s.source.handle x (s.view c) .policyChanged } := by
  obtain ⟨requests, hbind⟩ := updateBinding_eq x (s.view c) s.source
  dsimp only [handle]
  rw [hbind]
  refine convergeAll_settling h hbat c { s.source with requests := requests } hroomy rfl h.echo
    rfl h.idMap (fun t _ hsound => hsound.toTidy) ?_
  intro t ht hopen hsound u hconv _ hid
  refine covered hconv hid ?_ ?_
  · -- the shape is forgotten without a snapshot: the filter or a later event has to allow it
    intro hsour hold hlive
    refine ((covered_of_batch hbat hsound hold).tail (by simp) (by simp) (by simp) ?_).forget
    rintro - hshape n hn rfl
    rcases hok hsour t ht hopen hlive n hn hold with hallow | hchg | ⟨e, he, htells⟩
    · exact .of_allowed hn hallow
    · exact ⟨n.platformKey, rfl, .inr (.inr ⟨n, hn, rfl, .inr (.inl ⟨hchg, hshape⟩)⟩)⟩
    · exact .of_tells hn he htells
  · intro hold hshape
    have hcov := covered_of_batch hbat hsound hold
    rcases hshape with hshape | hbound
    · exact hcov.tail (by simp) (by simp) (by simp) (fun _ hne => absurd hshape hne)
    · have hgone := h.disconnected hbound hsound hold
      rw [pending_of_batch hbat] at hgone
      exact hcov.of_disconnected (mem_of_ne_of_mem (by simp) hgone)

theorem listenerConnected_settling (h : s.Settling x)
    (hbat : s.batch = .listenerConnected :: rest) (hroomy : s.Roomy)
    (hoff : s.source.listenerConnected = false) (c) :
    Settling x { s with
      batch := rest, source := s.source.handle x (s.view c) .listenerConnected } := by
  have hnone {t : Session Peer} (hsound : t.Sound x s) : t.held = [] :=
    hsound.silent (hsound.narrowed hoff)
  obtain ⟨requests, hbind⟩ := updateBinding_eq x (s.view c) { s.source with
    listenerConnected := true }
  obtain ⟨m, hreb, hwith⟩ := rebuildIdMap_eq (x := x) (v := s.view c)
    { s.source with listenerConnected := true, requests := requests }
  dsimp only [handle]
  rw [hbind, hreb]
  refine convergeAll_settling h hbat c { s.source with
    listenerConnected := true, requests := requests, idMap := m } hroomy rfl h.echo rfl
    (hwith _ h.idMap (hroomy.idMap c)) ?_ ?_
  · intro t _ hsound
    refine ⟨hsound.bracket, hsound.silent, hsound.sent, ?_⟩
    rw [hnone hsound]
    exact nofun
  · intro t _ _ hsound u hconv id hid
    have hnot {P : Prop} (hold : id ∈ t.held) : P := by
      rw [hnone hsound] at hold
      cases hold
    exact covered hconv hid (fun _ hold _ => hnot hold) (fun hold _ => hnot hold)

theorem listenerDisconnected_settling (h : s.Settling x)
    (hbat : s.batch = .listenerDisconnected :: rest)
    (hroomy : s.Roomy) (c) :
    Settling x { s with
      batch := rest
      source := s.source.handle x (s.view c) .listenerDisconnected } := by
  have hoff : isSourcing x { s.source with listenerConnected := false } = false :=
    by simp [isSourcing]
  have hsil {t u : Session Peer} (hconv : t.Converged x (s.view c)
      (isSourcing x { s.source with listenerConnected := false }) u) : u.held = [] :=
    hconv.silent hoff
  have hsett := convergeAll_settling h hbat c { s.source with listenerConnected := false } hroomy
    rfl h.echo rfl h.idMap (fun t _ hsound => hsound.toTidy) (by
      intro t _ _ _ u hconv _ hid
      rw [hsil hconv] at hid
      cases hid)
  refine ⟨hsett.keys, hsett.single, hsett.posts, hsett.unbound,
    ⟨nodup_nil, fun _ hid => hid, by rintro _ _ ⟨⟩⟩, rfl, ?_⟩
  intro u hu hcl
  have hsound := hsett.sessions u hu hcl
  have hheld : u.held = [] := hsound.silent (hsound.narrowed rfl)
  refine ⟨⟨hsound.bracket, hsound.silent, hsound.sent, ?_⟩, ?_, hsound.narrowed, hsound.covered⟩
  · rw [hheld]
    simp
  · exact hsound.announced

theorem put_eq (u) (source : Source Peer) :
    ∃ sessions, source.put u = { source with sessions := sessions } := by
  unfold put
  split <;> exact ⟨_, rfl⟩

theorem put_settling (h : s.Settling x) (hbat : s.batch = e :: rest) (he : e.plain) (source)
    (hsub : ∀ t ∈ source.sessions, t.peer ≠ u.peer → t ∈ s.source.sessions)
    (hecho : source.echo = []) (hsour : source.isSourcing x = s.source.isSourcing x)
    (hconn : source.listenerConnected = s.source.listenerConnected)
    (hlist : connectedAfter s.source.listenerConnected e = s.source.listenerConnected)
    (hids : source.idMap.Within x ids) (hext : s.source.idMap.Extends source.idMap)
    (hu : u.sender ∉ s.closed → u.Sound x { s with batch := rest, source := source }) :
    Settling x { s with batch := rest, source := source.put u } := by
  have hmem {t : Session Peer} (ht : t ∈ (source.put u).sessions) := mem_put ht
  obtain ⟨sessions, hput⟩ := put_eq u source
  rw [hput] at hmem ⊢
  refine h.handled hbat (hconn.trans hlist.symm) hids hecho ?_
  intro t ht hopen
  rcases hmem ht with rfl | ⟨ht, hne⟩
  · have hsound := hu hopen
    exact ⟨hsound.toTidy, hsound.announced, hsound.narrowed, hsound.covered⟩
  · exact stay hbat (h.sessions t (hsub t ht hne) hopen) hsour hconn hext
      (fun id _ hcov => hcov.tail_of_plain he)

theorem attached_settling (h : s.Settling x)
    (hbat : s.batch = .sessionAttached peer sender :: rest) (hroomy : s.Roomy) (c) :
    Settling x { s with
      batch := rest
      source := s.source.handle x (s.view c) (.sessionAttached peer sender) } := by
  dsimp only [handle]
  generalize hr : announceRoles (s.source.isSourcing x) ((s.view c).alive sender)
    ({ peer := peer, sender := sender } : Session Peer) = r
  have hends : r.ends = (peer, sender) := hr ▸ (announceRoles_continues _ _ _).ends
  obtain ⟨-, hsend⟩ := Prod.mk.inj hends
  obtain ⟨sessions, hput⟩ := put_eq r s.source
  have hmem {t : Session Peer} (ht : t ∈ (s.source.put r).sessions) := mem_put ht
  rw [hput] at hmem ⊢
  obtain ⟨requests, hbind⟩ := updateBinding_eq x (s.view c) { s.source with
    sessions := sessions }
  rw [hbind]
  obtain ⟨hwith, hext⟩ := converge_extends h.idMap (hroomy.idMap c) (s.source.isSourcing x) r
  obtain ⟨hcpeer, hcsend⟩ := Prod.mk.inj
    (converge_continues x (s.view c) (s.source.isSourcing x) s.source.idMap r).ends
  refine put_settling h hbat rfl { s.source with sessions, requests, idMap := _ } ?_ h.echo rfl
    rfl rfl hwith hext ?_
  · intro t ht hne
    rcases hmem ht with rfl | ⟨ht, -⟩
    · exact absurd hcpeer.symm hne
    · exact ht
  · intro hopen
    have halive : (s.view c).alive r.sender := (alive_iff c).mpr (hcsend ▸ hopen)
    rw [← hsend, halive] at hr
    obtain ⟨htidy, hann⟩ := announceRoles_tidy (x := x) (m := s.source.idMap)
      (t := { peer := peer, sender := r.sender }) ⟨rfl, fun _ => rfl, nodup_nil, nofun⟩
      (s.source.isSourcing x)
    rw [hr] at htidy hann
    have hroom : (keys ([] : Linked (List UInt8) (List UInt8))).length + s.shade.length <
        MAX_TRACKED_NOTIFICATIONS := by
      have hlt := hroomy.1
      simp only [Linked.keys, map_nil, length_nil]
      omega
    obtain ⟨hnew, hconv⟩ := converge_tidy htidy halive (s.source.isSourcing x) rfl h.idMap
      (hroomy.idMap c) (by rw [hann.sent]; exact subset_append_left _ _) (fits_of_room c hroom)
    refine sound hconv hnew ?_
    intro id hid
    have hnot {P : Prop} (hold : id ∈ r.held) : P := absurd (hann.held hold) not_mem_nil
    exact covered hconv hid (fun _ hold _ => hnot hold) (fun hold _ => hnot hold)

variable {control : Control}

theorem answer_settling (h : s.Settling x) (hbat : s.batch = .inbound peer control :: rest)
    (ht : t ∈ s.source.sessions) (c) (id : List UInt8) (outcome : NotificationOutcome) :
    Settling x { s with batch := rest, source := s.source.answer (s.view c) id outcome t } := by
  unfold answer
  split
  · exact subset_settling h hbat rfl rfl _ _ (fun _ hu => hu)
  refine put_settling h hbat rfl s.source (fun u hu _ => hu) h.echo rfl rfl rfl h.ids
    (fun _ _ hk => hk) ?_
  intro hopen
  obtain ⟨-, hsend⟩ := Prod.mk.inj (t.emit_continues ((s.view c).alive t.sender)
    (.result id outcome)).ends
  rw [hsend] at hopen
  have hsound := h.sessions t ht hopen
  rw [(alive_iff c).mpr hopen]
  refine ⟨hsound.toTidy.told (mirror_emit _ _) rfl (fun hne => hne), hsound.announced,
    hsound.narrowed, ?_⟩
  rw [held_emit]
  exact fun id hid => (covered_of_batch hbat hsound hid).tail_of_plain rfl

theorem roles_settling (h : s.Settling x) {roles} {epoch : UInt32}
    (hbat : s.batch = .inbound peer (.roles roles epoch) :: rest) (hroomy : s.Roomy) (c)
    (ht : t ∈ s.source.sessions) (hu : t.applyRoles roles epoch = some u) :
    Settling x { s with
      batch := rest
      source := Source.put (Source.converge x (s.view c) (s.source.isSourcing x) s.source.idMap u).2
        { s.source with
        idMap := (Source.converge x (s.view c) (s.source.isSourcing x) s.source.idMap u).1 } } := by
  obtain ⟨hpeer, hsend⟩ := Prod.mk.inj (applyRoles_continues hu).ends
  have hends := (converge_continues x (s.view c) (s.source.isSourcing x) s.source.idMap u).ends
  obtain ⟨-, hrsend⟩ := Prod.mk.inj hends
  obtain ⟨hwith, hext⟩ := converge_extends h.idMap (hroomy.idMap c) (s.source.isSourcing x) u
  refine put_settling h hbat rfl _ (fun w hw _ => hw) h.echo rfl rfl rfl hwith hext ?_
  intro hopen
  rw [hrsend, hsend] at hopen
  have hsound := h.sessions t ht hopen
  obtain ⟨hmir, hann, hsent, hshape⟩ : u.mirror = t.mirror ∧ u.announced = t.announced ∧
      u.sent = t.sent ∧ u.snapshotShape = t.snapshotShape := by
    unfold applyRoles at hu
    split at hu
    · cases hu
    · cases hu
      exact ⟨rfl, rfl, rfl, rfl⟩
  have hheld : u.held = t.held := congrArg Mirror.held hmir
  have htidy : u.Tidy x s.source.idMap :=
    hsound.toTidy.told hmir hsent (by rw [hann]; exact fun hne => hne)
  obtain ⟨_, hfits, hsub⟩ := hroomy.sent (x := x) c ht
  obtain ⟨hnew, hconv⟩ := converge_tidy htidy (v := s.view c)
    (by rw [hsend]; exact (alive_iff c).mpr hopen) (s.source.isSourcing x) rfl h.idMap
    (hroomy.idMap c) (by rw [hsent]; exact hsub) hfits
  refine sound hconv hnew ?_
  intro id hid
  have hold (hmem : id ∈ u.held) : Covered x (rest ++ s.queue.events) s.shade
      (s.policies u.peer) u.snapshotShape id := by
    rw [hheld] at hmem
    rw [hpeer, hshape]
    exact (covered_of_batch hbat hsound hmem).tail_of_plain rfl
  exact covered hconv hid (fun _ hmem _ => (hold hmem).forget) (fun hmem _ => hold hmem)

theorem inbound_settling (h : s.Settling x)
    (hbat : s.batch = .inbound peer control :: rest) (hroomy : s.Roomy)
    (hok : s.HandlesSoundly x (rest ++ s.queue.events) (.inbound peer control)) (c) :
    Settling x { s with
      batch := rest, source := s.source.handleInbound x (s.view c) peer control } := by
  have hsame : Settling x { s with batch := rest, source := s.source } :=
    subset_settling h hbat rfl rfl _ _ (fun _ hu => hu)
  unfold handleInbound
  split
  · exact hsame
  · next t hfind =>
    have ht : t ∈ s.source.sessions := mem_of_find?_eq_some hfind
    cases control with
    | roles =>
      dsimp only
      split
      · exact hsame
      · next hu => exact roles_settling h hbat hroomy c ht hu
    | dismiss => exact hok.elim
    | upsert id | remove id => exact answer_settling h hbat ht c id _
    | _ => exact hsame

theorem handle_settling (hinj : Injective x.derive) (h : s.Settling x) (hbat : s.batch = e :: rest)
    (hroomy : s.Roomy) (hok : s.HandlesSoundly x (rest ++ s.queue.events) e) (c) :
    Settling x { s with batch := rest, source := s.source.handle x (s.view c) e } := by
  cases e with
  | posted => exact posted_settling h hbat hroomy hok c
  | removed => exact removed_settling hinj h hbat c
  | listenerConnected => exact listenerConnected_settling h hbat hroomy hok c
  | listenerDisconnected => exact listenerDisconnected_settling h hbat hroomy c
  | sessionAttached => exact attached_settling h hbat hroomy c
  | sessionDetached peer =>
    obtain ⟨_, hbind⟩ := updateBinding_eq x (s.view c)
      { s.source with sessions := s.source.sessions.filter (·.peer ≠ peer) }
    dsimp only [handle]
    rw [hbind]
    exact subset_settling h hbat rfl rfl _ _ (filter_subset_self _)
  | policyChanged => exact policyChanged_settling h hbat hroomy hok c
  | inbound => exact inbound_settling h hbat hroomy hok c

theorem step_settling (hinj : Injective x.derive) {a t} (hok : s.Settles x a)
    (hstep : s.step x a = some t) (h : s.Settling x) : t.Settling x := by
  cases a with
  | drain =>
    simp only [step] at hstep
    split at hstep
    · next hbat =>
      cases hstep
      have hpend : pending { s with
          batch := s.queue.events, queue := { s.queue with events := [] } } = s.pending :=
          by simp [pending, hbat]
      refine h.acted s.source.listenerControl rfl .inl (fun _ hc => hc) h.keys
        (fun _ => Nat.zero_le 1) ?_ ?_ ?_
      · rw [hpend]
        exact h.posts
      · rw [hpend]
        exact h.unbound
      · rw [hpend]
        exact fun _ _ _ _ _ hcov => hcov
    · cases hstep
  | handle c =>
    simp only [step] at hstep
    split at hstep
    · cases hstep
    · next e _ hbat =>
      cases hstep
      obtain ⟨-, hroomy, hsoundly⟩ := hok
      rw [pending_of_batch hbat] at hsoundly
      exact handle_settling hinj h hbat hroomy (hsoundly e rfl) c
  | _ =>
    cases hstep
    exact act_settling h hok (by simp) (by simp)

/-- Once every event is handled, whatever a connected computer holds is on the
shade and, the lock state aside, allowed by that computer's policy. -/
theorem mirrors_settle (hinj : Injective x.derive) (as : List (Action Peer)) {t : Phone Peer}
    (hrun : run (step x) {} as = some t) (hok : Meets (step x) (Settles x) {} as)
    (hdone : t.pending = []) :
    ∀ u ∈ t.source.sessions, u.sender ∉ t.closed → ∀ id ∈ u.held, ∃ n ∈ t.shade,
      x.derive n.platformKey = id ∧ Allowed x (t.policies u.peer) n := by
  have h : t.Settling x := run_invariant (step x) (fun _ _ _ => step_settling hinj) hrun hok
    init_settling
  intro u hu hopen id hid
  have hcov := (h.sessions u hu hopen).covered id hid
  rw [hdone] at hcov
  obtain ⟨_, hkey, ⟨c, hc⟩ | hd | ⟨n, hn, rfl, ⟨k, hk, -⟩ | ⟨hchg, -⟩ | hallow⟩⟩ := hcov
  · cases hc
  · cases hd
  · cases hk
  · cases hchg
  · exact ⟨n, hn, hkey, hallow⟩

instance (x : Device) (s : Phone Peer) (later : List (NotificationEvent Peer))
    (e : NotificationEvent Peer) : Decidable (s.HandlesSoundly x later e) := by
  unfold HandlesSoundly
  induction e using NotificationEvent.casesOn
  case inbound _ control => induction control using Control.casesOn <;> infer_instance
  all_goals infer_instance

instance (s : Phone Peer) : Decidable s.Roomy := by
  unfold Roomy
  infer_instance

instance (x : Device) (s : Phone Peer) (a : Action Peer) : Decidable (s.Settles x a) := by
  unfold Settles
  cases a <;> infer_instance

theorem sampleDevice_injective : Injective sampleDevice.derive := by
  intro a b h
  exact String.toByteArray_inj.mp (ByteArray.ext (Array.toList_inj.mp h))

def mirrored : List (Action Nat) :=
  [.setPolicy 0 { allowedApps := {"app"} }, .attachSession 0 1, .createService, .connectListener,
    .receive 0 (.roles [.SINK] 1), .drain, .handle true, .handle true, .handle true, .handle true,
    .post { platformKey := "k", packageName := "app" },
    .post { platformKey := "j", packageName := "app" }, .drain, .handle true, .handle true]

def mirroredRun : List (Action Nat) :=
  mirrored ++ [Action.post { platformKey := "k", packageName := "app", title := "t" },
    .remove "j" false, .drain, .handle true, .handle true]

theorem mirrors_settle_update_and_removal :
    ∃ t, run (step sampleDevice) {} mirroredRun = some t ∧
      t.source.sessions.map held = [[[107], [107]]] ∧ t.closed = [] ∧ ∀ u ∈ t.source.sessions,
      u.sender ∉ t.closed → ∀ id ∈ u.held, ∃ n ∈ t.shade, sampleDevice.derive n.platformKey = id ∧
      Allowed sampleDevice (t.policies u.peer) n :=
  ⟨_, rfl, by decide +kernel, by decide +kernel,
    mirrors_settle sampleDevice_injective mirroredRun rfl (by decide +kernel) (by decide +kernel)⟩

def ongoingUpdateRun : List (Action Nat) :=
  mirrored ++ [Action.post { platformKey := "k", packageName := "app", ongoing := true },
    Action.drain, .handle true]

/-- A notification the computer shows becomes an ongoing one, which its policy
forbids, and nothing takes it back. -/
theorem ongoing_update_stays_mirrored :
    ∃ t, run (step sampleDevice) {} ongoingUpdateRun = some t ∧ t.pending = [] ∧
      ∃ u ∈ t.source.sessions, u.sender ∉ t.closed ∧ ∃ id ∈ u.held, ¬∃ n ∈ t.shade,
      sampleDevice.derive n.platformKey = id ∧ Allowed sampleDevice (t.policies u.peer) n :=
  ⟨_, rfl, by decide +kernel, by decide +kernel⟩

end Phone

end OmniBridge.Notifications
