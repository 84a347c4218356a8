import OmniBridge.PhoneLifecycle

/-! What a computer holds of the phone's notifications, and what one convergence
of its session makes of that. -/

namespace OmniBridge.Notifications

open List Option Session Linked Source
open Trust (NotificationPolicy)

variable {Peer : Type}

/-- The notifications a computer shows, and those named since a snapshot began. -/
structure Mirror where
  held : List (List UInt8) := []
  bracket : Option (List (List UInt8)) := none

/-- A computer follows the messages of its session: the end of a snapshot closes
what the snapshot did not name, and a role set without SOURCE closes everything. -/
def Mirror.apply (m : Mirror) : Message → Mirror
  | .roles roles _ => if .SOURCE ∈ roles then m else {}
  | .upsert id _ _ _ => ⟨id :: m.held, m.bracket.map (id :: ·)⟩
  | .remove id => ⟨m.held.filter (· ≠ id), m.bracket.map (fun seen => seen.filter (· ≠ id))⟩
  | .syncBegin => { m with bracket := some [] }
  | .syncEnd =>
    match m.bracket with
    | none => m
    | some seen => ⟨m.held.filter (· ∈ seen), none⟩
  | .result _ _ => m

def Session.mirror (t : Session Peer) : Mirror := t.log.foldl Mirror.apply {}

def Session.held (t : Session Peer) : List (List UInt8) := t.mirror.held

variable {x : Device} {t : Session Peer} {policy : NotificationPolicy}

theorem Session.mirror_emit (m : Message) (t : Session Peer) :
    (t.emit true m).mirror = t.mirror.apply m :=
  foldl_append

theorem Session.held_emit (m : Message) (t : Session Peer) :
    (t.emit true m).held = (t.mirror.apply m).held :=
  congrArg Mirror.held (mirror_emit m t)

theorem Session.mirror_remember (id hash : List UInt8) (t : Session Peer) :
    (t.remember id hash).mirror = t.mirror := by
  simp only [mirror, remember_log]

theorem Session.emit_sent (alive : Bool) (m : Message) (t : Session Peer) :
    (t.emit alive m).sent = t.sent := by
  unfold emit
  split <;> rfl

def Allowed (x : Device) (policy : NotificationPolicy) (n : PlatformNotification) : Prop :=
  screen n x.ownPackage = .allow ∧ decideForPeer n policy false = .allow

instance (x : Device) (policy : NotificationPolicy) (n : PlatformNotification) :
    Decidable (Allowed x policy n) :=
  inferInstanceAs (Decidable (_ ∧ _))

theorem Allowed.of_shape {policy' n} (hshape : shapeOf policy = shapeOf policy')
    (h : Allowed x policy n) : Allowed x policy' n := by
  obtain ⟨hmir, happs, hong, hwork⟩ : policy.allowMirror = policy'.allowMirror ∧
      policy.allowedApps = policy'.allowedApps ∧ policy.includeOngoing = policy'.includeOngoing ∧
      policy.includeWorkProfile = policy'.includeWorkProfile := by
    simpa [shapeOf] using hshape
  refine ⟨h.1, ?_⟩
  have hallow := decideForPeer_eq_allow.mp h.2
  rw [hmir, happs, hong, hwork] at hallow
  exact decideForPeer_eq_allow.mpr ⟨hallow.1, hallow.2.1, hallow.2.2.1, hallow.2.2.2.1, nofun⟩

theorem allowed_of_snapshotItem {v : View Peer} {n : PlatformNotification} {reduced}
    (h : snapshotItem x v policy n = some reduced) : Allowed x policy n := by
  unfold snapshotItem at h
  split at h
  · next hscr hdec => exact ⟨hscr, decideForPeer_unlocked hdec⟩
  · cases h

/-- An id map within a list of ids: each id once, and every key under its own id. -/
structure SourceIdMap.Within (x : Device) (ids : List (List UInt8)) (m : SourceIdMap) : Prop where
  nodup : (keys m.byId).Nodup
  ids : keys m.byId ⊆ ids
  derived : ∀ key id, get key m.byKey = some id → id = x.derive key

namespace SourceIdMap

variable {x : Device} {ids : List (List UInt8)} {m : SourceIdMap}

theorem trim_of_length_le (h : m.byId.length ≤ MAX_TRACKED_NOTIFICATIONS) : m.trim = m := by
  unfold trim
  rw [keepLast_of_length_le h, Nat.sub_eq_zero_of_le h]
  rfl

variable {key : String}

section

variable (h : m.Within x ids) (hlen : ids.length ≤ MAX_TRACKED_NOTIFICATIONS)
  (hmem : x.derive key ∈ ids)
include h hlen hmem

theorem Within.remember_eq :
    m.remember (x.derive key) key = ⟨putLast (x.derive key) key m.byId,
      putLast key (x.derive key) m.byKey⟩ := by
  exact trim_of_length_le ((length_putLast_le h.nodup h.ids hmem key).trans hlen)

theorem Within.remember : (m.remember (x.derive key) key).Within x ids := by
  rw [h.remember_eq hlen hmem]
  constructor
  · exact nodup_keys_putLast h.nodup _ _
  · intro _ hid
    rcases mem_keys_putLast hid with hold | rfl
    · exact h.ids hold
    · exact hmem
  · intro k id hk
    by_cases hkey : k = key
    · subst hkey
      rw [get_putLast_self] at hk
      exact (some.inj hk).symm
    · rw [get_putLast_of_ne hkey] at hk
      exact h.derived k id hk

theorem Within.get_remember :
    get key (m.remember (x.derive key) key).byKey = some (x.derive key) := by
  rw [h.remember_eq hlen hmem]
  exact get_putLast_self _ _ _

theorem Within.get_remember_of_get {k id} (hk : get k m.byKey = some id) :
    get k (m.remember (x.derive key) key).byKey = some id := by
  rw [h.remember_eq hlen hmem]
  by_cases hkey : k = key
  · subst hkey
    rw [h.derived k id hk]
    exact get_putLast_self _ _ _
  · rw [get_putLast_of_ne hkey]
    exact hk

end

theorem get_forgetKey_of_ne {k} (hne : k ≠ key) (m : SourceIdMap) :
    get k (m.forgetKey key).byKey = get k m.byKey := by
  unfold forgetKey
  split
  · rfl
  · exact get_remove_of_ne hne _

theorem Within.forgetKey (h : m.Within x ids) (key : String) : (m.forgetKey key).Within x ids := by
  unfold SourceIdMap.forgetKey
  split
  · exact h
  · next id _ =>
    have hkeys := keys_remove id m.byId
    refine ⟨?_, ?_, ?_⟩
    · rw [hkeys]
      exact h.nodup.filter _
    · rw [hkeys]
      exact fun _ hmem => h.ids (mem_of_mem_filter hmem)
    · intro k i hk
      by_cases hkey : k = key
      · rw [hkey, get_remove_self] at hk
        cases hk
      · rw [get_remove_of_ne hkey] at hk
        exact h.derived k i hk

theorem Within.retainOnly (h : m.Within x ids) (keys : List String) :
    (m.retainOnly keys).Within x ids := by
  unfold SourceIdMap.retainOnly
  generalize m.byKey.map Prod.fst = all
  induction all generalizing m with
  | nil => exact h
  | cons key _ ih =>
    rw [foldl_cons]
    split
    · exact ih h
    · exact ih (h.forgetKey key)

theorem Within.rememberAll (h : m.Within x ids) (hlen : ids.length ≤ MAX_TRACKED_NOTIFICATIONS)
    {active : List PlatformNotification} (hact : ∀ n ∈ active, x.derive n.platformKey ∈ ids) :
    (active.foldl (fun m n => m.remember (x.derive n.platformKey) n.platformKey) m).Within x
      ids := by
  induction active generalizing m with
  | nil => exact h
  | cons n _ ih =>
    have hnext := h.remember hlen (hact n mem_cons_self)
    rw [foldl_cons]
    exact ih hnext (fun k hk => hact k (mem_cons_of_mem n hk))

end SourceIdMap

def SourceIdMap.Extends (m m' : SourceIdMap) : Prop :=
  ∀ key id, get key m.byKey = some id → get key m'.byKey = some id

/-- The source can still take the id back: the session's table has it, and the id
map has its key. -/
def Session.Known (x : Device) (m : SourceIdMap) (t : Session Peer) (id : List UInt8) : Prop :=
  (get id t.sent).isSome ∧ ∃ key, x.derive key = id ∧ get key m.byKey = some id

/-- What holds of a session between two events: no snapshot is half sent, a
computer that was told of no source holds nothing, and all it holds is known. -/
structure Session.Tidy (x : Device) (m : SourceIdMap) (t : Session Peer) : Prop where
  bracket : t.mirror.bracket = none
  silent : t.announced ≠ some SOURCING → t.held = []
  sent : (keys t.sent).Nodup
  known : ∀ id ∈ t.held, t.Known x m id

theorem Session.Tidy.extend {m m'} (h : t.Tidy x m) (hext : m.Extends m') : t.Tidy x m' := by
  refine ⟨h.bracket, h.silent, h.sent, ?_⟩
  intro id hid
  obtain ⟨hsent, key, hkey, hget⟩ := h.known id hid
  exact ⟨hsent, key, hkey, hext key id hget⟩

theorem Session.Tidy.told {m : SourceIdMap} {u : Session Peer} (h : t.Tidy x m)
    (hmir : u.mirror = t.mirror) (hsent : u.sent = t.sent)
    (hsil : u.announced ≠ some SOURCING → t.announced ≠ some SOURCING) : u.Tidy x m := by
  have hheld : u.held = t.held := congrArg Mirror.held hmir
  refine ⟨hmir ▸ h.bracket, fun hne => hheld.trans (h.silent (hsil hne)), hsent ▸ h.sent, ?_⟩
  intro id hid
  rw [hheld] at hid
  unfold Session.Known
  rw [hsent]
  exact h.known id hid

structure Fits (x : Device) (v : View Peer) (ids : List (List UInt8)) : Prop where
  length : ids.length ≤ MAX_TRACKED_NOTIFICATIONS
  active : ∀ active ∈ v.active, ∀ n ∈ active, x.derive n.platformKey ∈ ids

structure Session.Announced (sourcing : Bool) (t u : Session Peer) : Prop where
  roles : u.announced = some (rolesWhen sourcing)
  silent : sourcing = false → u.held = []
  held : u.held ⊆ t.held
  sent : u.sent = t.sent
  shape : u.snapshotShape = t.snapshotShape
  peerRoles : u.peerRoles = t.peerRoles

/-- What a session holds after a convergence: what it held, under a shape that is
forgotten or was left as it was, or what a snapshot showed. -/
structure Session.Converged (x : Device) (v : View Peer) (sourcing : Bool) (t u : Session Peer) :
    Prop where
  ends : u.ends = t.ends
  roles : u.announced = some (rolesWhen sourcing)
  silent : sourcing = false → u.held = []
  held : ∀ id ∈ u.held,
    id ∈ t.held ∧ (u.snapshotShape = none ∧
        (.SINK ∉ t.peerRoles ∨ (v.policyFor t.peer).allowMirror = false) ∨
      u.snapshotShape = t.snapshotShape ∧
        (t.snapshotShape = some (shapeOf (v.policyFor t.peer)) ∨ v.active = none)) ∨
    ∃ active ∈ v.active, ∃ n ∈ active, x.derive n.platformKey = id ∧
    Allowed x (v.policyFor t.peer) n

section Converge

variable {x : Device} {v : View Peer} {m : SourceIdMap} {t : Session Peer}
  {ids sentIds : List (List UInt8)} {active : List PlatformNotification} {n : PlatformNotification}

theorem rolesWhen_false_ne : some (rolesWhen false) ≠ some SOURCING := by decide

theorem announceRoles_tidy (h : t.Tidy x m) (sourcing : Bool) :
    (t.announceRoles sourcing true).Tidy x m ∧
      t.Announced sourcing (t.announceRoles sourcing true) := by
  rcases t.announceRoles_cases sourcing true with ⟨hsame, heq⟩ | ⟨-, heq⟩
  · rw [heq]
    refine ⟨h, hsame, ?_, fun _ hid => hid, rfl, rfl, rfl⟩
    rintro rfl
    exact h.silent (by rw [hsame]; exact rolesWhen_false_ne)
  -- the computer is told, and forgets everything unless the phone is a source
  rw [heq]
  cases sourcing with
  | true =>
    refine ⟨h.told (mirror_emit _ _) rfl (absurd rfl), rfl, nofun, ?_, rfl, rfl, rfl⟩
    rw [held_emit]
    exact fun _ hid => hid
  | false =>
    have hnone {id : List UInt8} (hid : id ∈ (emit true (.roles (rolesWhen false) (t.epoch + 1))
        { t with announced := some (rolesWhen false), epoch := t.epoch + 1 }).held) : False := by
      rw [held_emit] at hid
      cases hid
    refine ⟨⟨?_, fun _ => held_emit _ _, h.sent, fun _ hid => (hnone hid).elim⟩, rfl,
      fun _ => held_emit _ _, fun _ hid => (hnone hid).elim, rfl, rfl, rfl⟩
    rw [mirror_emit]
    rfl

theorem remember_sent (h : (keys t.sent).Nodup) (hids : keys t.sent ⊆ sentIds)
    (hlen : sentIds.length ≤ MAX_TRACKED_NOTIFICATIONS) {id} (hid : id ∈ sentIds)
    (hash : List UInt8) : (t.remember id hash).sent = putLast id hash t.sent := by
  dsimp only [remember]
  exact keepLast_of_length_le ((length_putLast_le h hids hid hash).trans hlen)

theorem isSome_get_putLast {id id' hash : List UInt8} {sent : Linked (List UInt8) (List UInt8)}
    (h : id' = id ∨ (get id' sent).isSome) : (get id' (putLast id hash sent)).isSome := by
  by_cases heq : id' = id
  · rw [heq, get_putLast_self]
    rfl
  · rw [get_putLast_of_ne heq]
    exact h.resolve_left heq

/-- A snapshot half sent: what it has named so far is known and allowed. -/
structure Showing (x : Device) (policy : NotificationPolicy) (active : List PlatformNotification)
    (ids sentIds : List (List UInt8)) (t : Session Peer) (m' : SourceIdMap) (u : Session Peer) :
    Prop where
  within : m'.Within x ids
  ends : u.ends = t.ends
  announced : u.announced = t.announced
  nodup : (keys u.sent).Nodup
  sent : keys u.sent ⊆ sentIds
  shown : ∃ seen, u.mirror.bracket = some seen ∧ ∀ id ∈ seen, (get id u.sent).isSome ∧ ∃ n ∈ active,
    x.derive n.platformKey = id ∧ Allowed x policy n ∧ get n.platformKey m'.byKey = some id

variable {u : Session Peer}

theorem Showing.remember {m'} (h : Showing x policy active ids sentIds t m' u)
    (hlen : ids.length ≤ MAX_TRACKED_NOTIFICATIONS) {key} (hkey : x.derive key ∈ ids) :
    Showing x policy active ids sentIds t (m'.remember (x.derive key) key) u := by
  obtain ⟨seen, hbrack, hseen⟩ := h.shown
  refine ⟨h.within.remember hlen hkey, h.ends, h.announced, h.nodup, h.sent, seen, hbrack, ?_⟩
  intro id hid
  obtain ⟨hsent, n, hn, hder, hallowed, hget⟩ := hseen id hid
  exact ⟨hsent, n, hn, hder, hallowed, h.within.get_remember_of_get hlen hkey hget⟩

theorem Showing.show {m' : SourceIdMap} (h : Showing x policy active ids sentIds t m' u)
    (hlen : sentIds.length ≤ MAX_TRACKED_NOTIFICATIONS) (hn : n ∈ active)
    (hid : x.derive n.platformKey ∈ sentIds) (hallowed : Allowed x policy n)
    (hget : get n.platformKey m'.byKey = some (x.derive n.platformKey)) (hash : List UInt8)
    (label : String) (reduced : ReducedNotification) :
    Showing x policy active ids sentIds t m' ((u.remember (x.derive n.platformKey) hash).emit true
      (.upsert (x.derive n.platformKey) n label reduced)) := by
  obtain ⟨seen, hbrack, hseen⟩ := h.shown
  have hsent := remember_sent h.nodup h.sent hlen hid hash
  refine ⟨h.within, ?_, ?_, ?_, ?_, x.derive n.platformKey :: seen, ?_, ?_⟩
  · exact ((u.remember_continues _ _).trans (emit_continues _ _ _)).ends.trans h.ends
  · simpa [emit] using h.announced
  · rw [emit_sent, hsent]
    exact nodup_keys_putLast h.nodup _ _
  · rw [emit_sent, hsent]
    intro _ hmem
    rcases mem_keys_putLast hmem with hold | rfl
    · exact h.sent hold
    · exact hid
  · rw [mirror_emit, mirror_remember]
    exact congrArg (Option.map _) hbrack
  · intro id hmem
    rw [emit_sent, hsent]
    rcases mem_cons.mp hmem with rfl | hold
    · exact ⟨isSome_get_putLast (.inl rfl), n, hn, rfl, hallowed, hget⟩
    · obtain ⟨hsome, hrest⟩ := hseen id hold
      exact ⟨isSome_get_putLast (.inr hsome), hrest⟩

section

variable (hm : m.Within x ids) (hids : Fits x v ids)
include hm hids

theorem sendSnapshot_extends (t : Session Peer) :
    (sendSnapshot x v m t).1.Within x ids ∧ m.Extends (sendSnapshot x v m t).1 := by
  rcases sendSnapshot_cases x v m t with ⟨-, heq⟩ | ⟨active, hact, _, hitems, r, hr, heq⟩
  · rw [heq]
    exact ⟨hm, fun _ _ hk => hk⟩
  rw [heq, hr]
  refine snapshotItems_rule (Q := fun m' _ => m'.Within x ids ∧ m.Extends m') ?_ 0
    ⟨hm, fun _ _ hk => hk⟩
  rintro m' _ n _ _ hn - ⟨hwith, hext⟩
  have hid := hids.active active hact n (hitems n hn)
  have hnew := hwith.remember hids.length hid
  have hkept := fun k id hk => hwith.get_remember_of_get hids.length hid (hext k id hk)
  exact ⟨⟨hnew, hkept⟩, hnew, hkept⟩

/-- Whether or not the session can still be told. -/
theorem converge_extends (sourcing : Bool) (t : Session Peer) :
    (converge x v sourcing m t).1.Within x ids ∧ m.Extends (converge x v sourcing m t).1 := by
  obtain ⟨a, -, ⟨-, heq⟩ | ⟨-, -, heq⟩ | ⟨-, -, heq⟩⟩ := converge_cases x v sourcing m t
  · rw [heq]
    exact ⟨hm, fun _ _ hk => hk⟩
  · rw [heq]
    exact sendSnapshot_extends hm hids a
  · rw [heq]
    exact ⟨hm, fun _ _ hk => hk⟩

end

section

variable {w : SourceIdMap × Session Peer} (h : t.Tidy x m) (halive : v.alive t.sender)
include h halive

theorem sendSnapshot_tidy (hw : sendSnapshot x v m t = w) (hann : t.announced = some SOURCING)
    (hm : m.Within x ids) (hids : Fits x v ids) (hsent : keys t.sent ⊆ sentIds)
    (hsentIds : Fits x v sentIds) :
    w.2.Tidy x w.1 ∧ w.2.announced = t.announced ∧
      (v.active = none ∧ w.2 = t ∨ ∀ id ∈ w.2.held, ∃ active ∈ v.active, ∃ n ∈ active,
      x.derive n.platformKey = id ∧ Allowed x (v.policyFor t.peer) n) := by
  subst hw
  rcases sendSnapshot_cases x v m t with ⟨hnone, heq⟩ | ⟨active, hact, _, hitems, r, hr, heq⟩
  · rw [heq]
    exact ⟨h, rfl, .inl ⟨hnone, rfl⟩⟩
  rw [halive] at hr heq
  have hbegun : Showing x (v.policyFor t.peer) active ids sentIds t m (t.emit true .syncBegin) := by
    refine ⟨hm, rfl, rfl, h.sent, hsent, [], ?_, nofun⟩
    rw [mirror_emit]
    rfl
  have hshown : Showing x (v.policyFor t.peer) active ids sentIds t r.1 r.2 := by
    rw [hr]
    refine snapshotItems_rule (Q := Showing x (v.policyFor t.peer) active ids sentIds t) ?_ 0 hbegun
    intro _ u n reduced hash hn hitem hu
    have hact' := hitems n hn
    have hkept := hu.remember hids.length (hids.active active hact n hact')
    refine ⟨hkept, ?_⟩
    obtain ⟨-, hsend⟩ := Prod.mk.inj hu.ends
    rw [hsend, halive]
    refine hkept.show hsentIds.length hact' (hsentIds.active active hact n hact')
      (allowed_of_snapshotItem hitem) ?_ hash _ reduced
    exact hu.within.get_remember hids.length (hids.active active hact n hact')
  obtain ⟨seen, hbrack, hseen⟩ := hshown.shown
  have hcl : (r.2.emit true .syncEnd).mirror = ⟨r.2.mirror.held.filter (· ∈ seen), none⟩ := by
    rw [mirror_emit, Mirror.apply, hbrack]
  have hheld {id : List UInt8} (hid : id ∈ (r.2.emit true .syncEnd).held) : id ∈ seen := by
    unfold held at hid
    rw [hcl] at hid
    simpa using (mem_filter.mp hid).2
  rw [heq]
  refine ⟨⟨congrArg Mirror.bracket hcl, ?_, hshown.nodup, ?_⟩, hshown.announced, .inr ?_⟩
  · exact fun hne => absurd (hshown.announced.trans hann) hne
  · intro id hid
    obtain ⟨hsome, n, -, hder, -, hget⟩ := hseen id (hheld hid)
    exact ⟨hsome, n.platformKey, hder, hget⟩
  · intro id hid
    obtain ⟨-, n, hn, hder, hallowed, -⟩ := hseen id (hheld hid)
    exact ⟨active, hact, n, hn, hder, hallowed⟩

theorem converge_tidy (sourcing : Bool) (hw : converge x v sourcing m t = w) (hm : m.Within x ids)
    (hids : Fits x v ids) (hsent : keys t.sent ⊆ sentIds) (hsentIds : Fits x v sentIds) :
    w.2.Tidy x w.1 ∧ t.Converged x v sourcing w.2 := by
  subst hw
  have hends := (converge_continues x v sourcing m t).ends
  obtain ⟨a, ha, hcase⟩ := converge_cases x v sourcing m t
  rw [halive] at ha
  have haends : a.ends = t.ends := by
    rw [ha]
    exact (t.announceRoles_continues _ _).ends
  obtain ⟨hpeer, hsend⟩ := Prod.mk.inj haends
  obtain ⟨htidy, hann⟩ := announceRoles_tidy h sourcing
  rw [← ha] at htidy hann
  rcases hcase with ⟨hlive, heq⟩ | ⟨hlive, -, heq⟩ | ⟨-, hshape, heq⟩
  · rw [heq] at hends ⊢
    refine ⟨htidy.told rfl rfl id, hends, hann.roles, hann.silent, ?_⟩
    intro _ hid
    change _ ∈ a.held at hid
    refine .inl ⟨hann.held hid, .inl ⟨rfl, ?_⟩⟩
    have hsour : sourcing := by
      by_contra hfalse
      rw [hann.silent (by simpa using hfalse)] at hid
      cases hid
    rw [hsour] at hlive
    unfold mirroringIsLive at hlive
    rw [hann.peerRoles, hpeer] at hlive
    by_cases hsink : .SINK ∈ t.peerRoles
    · exact .inr (by simpa [hsink] using hlive)
    · exact .inl hsink
  · have hsour : sourcing := by
      unfold mirroringIsLive at hlive
      simp only [Bool.and_eq_true] at hlive
      exact hlive.1.1
    have hsrc : a.announced = some SOURCING := by
      rw [hann.roles, hsour]
      rfl
    obtain ⟨hnew, hroles, hsnap⟩ := sendSnapshot_tidy htidy (by rw [hsend]; exact halive) rfl
      hsrc hm hids (by rw [hann.sent]; exact hsent) hsentIds
    rw [heq] at hends ⊢
    refine ⟨hnew, hends, hroles.trans hann.roles, ?_, ?_⟩
    · rw [hsour]
      nofun
    · intro id hid
      rcases hsnap with ⟨hnone, hsame⟩ | hshown
      · rw [hsame] at hid ⊢
        exact .inl ⟨hann.held hid, .inr ⟨hann.shape, .inr hnone⟩⟩
      · obtain ⟨active, hact, n, hn, hder, hallowed⟩ := hshown id hid
        rw [hpeer] at hallowed
        exact .inr ⟨active, hact, n, hn, hder, hallowed⟩
  · rw [heq] at hends ⊢
    refine ⟨htidy, hends, hann.roles, hann.silent, ?_⟩
    intro _ hid
    rw [hann.shape, hpeer] at hshape
    exact .inl ⟨hann.held hid, .inr ⟨hann.shape, .inl hshape⟩⟩

theorem post_tidy (hann : t.announced = some SOURCING)
    (hget : get n.platformKey m.byKey = some (x.derive n.platformKey))
    (hlen : t.sent.length < MAX_TRACKED_NOTIFICATIONS) :
    (t.post x v n).Tidy x m ∧ (t.post x v n).announced = t.announced ∧
      (t.post x v n).snapshotShape = t.snapshotShape ∧ ∀ id ∈ (t.post x v n).held, id ∈ t.held ∨
      id = x.derive n.platformKey ∧ decideForPeer n (v.policyFor t.peer) false = .allow := by
  rcases t.post_cases x v n with heq | ⟨reduced, hash, hdec, heq⟩
  · rw [heq]
    exact ⟨h, rfl, rfl, fun id hid => .inl hid⟩
  rw [halive] at heq
  rw [heq]
  have hroom : (x.derive n.platformKey :: keys t.sent).length ≤ MAX_TRACKED_NOTIFICATIONS := by
    simpa only [Linked.keys, length_cons, length_map] using Nat.succ_le_of_lt hlen
  have hsent := remember_sent h.sent (subset_cons_self (x.derive n.platformKey) _) hroom
    mem_cons_self hash
  refine ⟨⟨?_, ?_, ?_, ?_⟩, by simp [emit], by simp [emit], ?_⟩
  · rw [mirror_emit, mirror_remember]
    exact congrArg (Option.map _) h.bracket
  · simp [emit, hann]
  · rw [emit_sent, hsent]
    exact nodup_keys_putLast h.sent _ _
  · intro id hid
    unfold Session.Known
    rw [emit_sent, hsent]
    rw [held_emit, mirror_remember] at hid
    rcases mem_cons.mp hid with rfl | hold
    · exact ⟨isSome_get_putLast (.inl rfl), n.platformKey, rfl, hget⟩
    · obtain ⟨hsome, hkey⟩ := h.known id hold
      exact ⟨isSome_get_putLast (.inr hsome), hkey⟩
  · intro _ hid
    rw [held_emit, mirror_remember] at hid
    rcases mem_cons.mp hid with rfl | hold
    · exact .inr ⟨rfl, decideForPeer_unlocked hdec⟩
    · exact .inl hold

theorem unpost_tidy [DecidableEq Peer] (key : String) {q}
    (hq : t.unpost v (x.derive key) none = q) :
    q.Tidy x (m.forgetKey key) ∧ q.announced = t.announced ∧ q.snapshotShape = t.snapshotShape ∧
      ∀ id ∈ q.held, id ∈ t.held ∧ x.derive key ≠ id := by
  subst hq
  -- what is known under another id is under another key
  have hoth {id : List UInt8} (hne : x.derive key ≠ id) (hid : id ∈ t.held) :
      ∃ k, x.derive k = id ∧ get k (m.forgetKey key).byKey = some id := by
    obtain ⟨-, k, hk, hget⟩ := h.known id hid
    have hkey : k ≠ key := by
      rintro rfl
      exact hne hk
    refine ⟨k, hk, ?_⟩
    rw [SourceIdMap.get_forgetKey_of_ne hkey]
    exact hget
  rcases t.unpost_cases v (x.derive key) none with ⟨hnone, heq⟩ | ⟨hask, -⟩ | heq
  · rw [heq]
    have hheld : ∀ id ∈ t.held, id ∈ t.held ∧ x.derive key ≠ id := by
      refine fun id hid => ⟨hid, ?_⟩
      rintro rfl
      have hsome := (h.known _ hid).1
      rw [hnone] at hsome
      cases hsome
    refine ⟨⟨h.bracket, h.silent, h.sent, ?_⟩, rfl, rfl, hheld⟩
    exact fun id hid => ⟨(h.known id hid).1, hoth (hheld id hid).2 hid⟩
  · cases hask
  · rw [halive] at heq
    rw [heq]
    have hheld : (emit true (.remove (x.derive key))
        { t with sent := remove (x.derive key) t.sent }).held = t.held.filter (· ≠ x.derive key) :=
      held_emit _ _
    refine ⟨⟨?_, ?_, ?_, ?_⟩, rfl, rfl, ?_⟩
    · rw [mirror_emit]
      exact congrArg (Option.map _) h.bracket
    · intro hne
      rw [hheld, h.silent hne]
      rfl
    · show (keys (remove (x.derive key) t.sent)).Nodup
      rw [keys_remove]
      exact h.sent.filter _
    · intro id hid
      rw [hheld] at hid
      obtain ⟨hid, hne⟩ := mem_filter.mp hid
      have hne : id ≠ x.derive key := by simpa using hne
      refine ⟨?_, hoth hne.symm hid⟩
      show (get id (remove (x.derive key) t.sent)).isSome
      rw [get_remove_of_ne hne]
      exact (h.known id hid).1
    · intro _ hid
      rw [hheld] at hid
      obtain ⟨hid, hne⟩ := mem_filter.mp hid
      exact ⟨hid, fun heq => by simp [heq] at hne⟩

end

variable {s : Source Peer}

/-- A session that is closed neither is told nor keeps the others from being told. -/
theorem convergeAll_tidy (htidy : ∀ t ∈ s.sessions, v.alive t.sender → t.Tidy x s.idMap)
    (hm : s.idMap.Within x ids) (hids : Fits x v ids)
    (hsent : ∀ t ∈ s.sessions, ∃ sentIds, Fits x v sentIds ∧ keys t.sent ⊆ sentIds) :
    (s.convergeAll x v).idMap.Within x ids ∧ ∀ u ∈ (s.convergeAll x v).sessions, v.alive u.sender →
      u.Tidy x (s.convergeAll x v).idMap ∧ ∃ t ∈ s.sessions, v.alive t.sender ∧
      t.Converged x v (s.isSourcing x) u := by
  have hall := each_rule (f := converge x v (s.isSourcing x)) (I := fun c => c.Within x ids ∧
    s.idMap.Extends c) (P := fun t => t ∈ s.sessions) (Q := fun c u => v.alive u.sender →
    u.Tidy x c ∧ ∃ t ∈ s.sessions, v.alive t.sender ∧ t.Converged x v (s.isSourcing x) u) (by
      rintro c t ⟨hc, hold⟩ ht
      obtain ⟨hwith, hext⟩ := converge_extends hc hids (s.isSourcing x) t
      refine ⟨⟨hwith, fun key id hget => hext key id (hold key id hget)⟩, fun halive => ?_⟩
      obtain ⟨-, hsend⟩ := Prod.mk.inj (converge_continues x v (s.isSourcing x) c t).ends
      rw [hsend] at halive
      obtain ⟨sentIds, hfits, hsub⟩ := hsent t ht
      obtain ⟨hnew, hconv⟩ := converge_tidy ((htidy t ht halive).extend hold) halive
        (s.isSourcing x) rfl hc hids hsub hfits
      exact ⟨hnew, t, ht, halive, hconv⟩)
    (by
      intro c t u hc _ hu halive
      obtain ⟨-, hext⟩ := converge_extends hc.1 hids (s.isSourcing x) t
      exact (hu halive).imp_left (·.extend hext))
    ⟨hm, fun _ _ hget => hget⟩ (fun t ht => ht)
  exact ⟨hall.1.1, hall.2.1⟩

theorem rebuildIdMap_eq (s : Source Peer) :
    ∃ m, s.rebuildIdMap x v = { s with idMap := m } ∧ ∀ ids, s.idMap.Within x ids → Fits x v ids →
      m.Within x ids := by
  unfold rebuildIdMap
  split
  · next active _ _ hact =>
    refine ⟨_, rfl, ?_⟩
    intro _ hm hids
    refine (hm.rememberAll hids.length ?_).retainOnly _
    intro n hn
    exact hids.active active hact n (mem_of_mem_filter hn)
  · exact ⟨s.idMap, rfl, fun ids hm _ => hm⟩

theorem mem_put [DecidableEq Peer] (hu : u ∈ (s.put t).sessions) :
    u = t ∨ u ∈ s.sessions ∧ u.peer ≠ t.peer := by
  unfold put at hu
  split at hu
  · obtain ⟨w, hw, rfl⟩ := mem_map.mp hu
    split
    · exact .inl rfl
    · next hne => exact .inr ⟨hw, hne⟩
  · next hnone =>
    rcases mem_append.mp hu with hmem | hmem
    · refine .inr ⟨hmem, fun hpeer => hnone (any_eq_true.mpr ⟨u, hmem, by simpa using hpeer⟩)⟩
    · exact .inl (mem_singleton.mp hmem)

end Converge

end OmniBridge.Notifications
