import OmniBridge.DesktopSessions

/-! Whether a grant reaches the session of the peer. What a session can do is read from
the store during its handshake; a grant looks for a session to reconnect after it
has been stored, and sees only sessions that are in the map. -/

namespace OmniBridge.Desktop

open List Option Request Function Phase

variable {Fp ε : Type} [LinearOrder Fp]

def Phase.isBound : Phase → Bool
  | .admitted _ | .connecting _ | .registering _ => true
  | _ => false

namespace Request

def widens (fp : Fp) (capability : String) (r : Request Fp) : Bool :=
  match r.command, r.stage with
  | .grant _ c true, .renegotiating l => c = capability ∧ l = fp
  | _, _ => false

def weighs (fp : Fp) (capability : String) (id : Nat) (r : Request Fp) : Bool :=
  match r.command, r.stage with
  | .grant _ c true, .deciding l (some (i, _)) => c = capability ∧ l = fp ∧ i = id
  | _, _ => false

variable {capability : String} {fp : Fp}

theorem widens_eq_true {r : Request Fp} :
    r.widens fp capability ↔ ∃ device, r.command = .grant device capability true ∧
      r.stage = .renegotiating fp := by
  constructor
  · intro h
    unfold widens at h
    split at h
    · rename_i device c l hcomm hst
      obtain ⟨rfl, rfl⟩ : c = capability ∧ l = fp := by simpa using h
      exact ⟨device, hcomm, hst⟩
    · cases h
  · rintro ⟨_, hcomm, hst⟩
    simp [widens, hcomm, hst]

theorem weighs_eq_true {id : Nat} {r : Request Fp} :
    r.weighs fp capability id ↔ ∃ device negotiated, r.command = .grant device capability true ∧
      r.stage = .deciding fp (some (id, negotiated)) := by
  constructor
  · intro h
    unfold weighs at h
    split at h
    · rename_i device c l i negotiated hcomm hst
      obtain ⟨rfl, rfl, rfl⟩ : c = capability ∧ l = fp ∧ i = id := by simpa using h
      exact ⟨device, negotiated, hcomm, hst⟩
    · cases h
  · rintro ⟨_, _, hcomm, hst⟩
    simp [weighs, hcomm, hst]

end Request

namespace Daemon

variable {x : Config Fp ε} {s t : Daemon Fp} {a : Action Fp ε} {fp : Fp} {capability : String}

def Grants (fp : Fp) (capability : String) (s : Daemon Fp) : Prop :=
  ∃ deviceId deviceName granted, s.store.lookupPeer fp = .trusted deviceId deviceName granted ∧
    capability ∈ granted

theorem grants_iff :
    s.Grants fp capability ↔ ∃ p, s.store.peers.get fp = some p ∧ p.revoked = false ∧
      p.grantedCapabilities.get capability = some true := by
  constructor
  · rintro ⟨_, _, _, h, hmem⟩
    obtain ⟨p, hp, -, -, rfl⟩ := Store.lookupPeer_trusted h
    obtain ⟨hget, hrev⟩ := Store.trustedPeer_eq_some.mp hp
    exact ⟨p, hget, hrev, TrustedPeer.mem_granted.mp hmem⟩
  · rintro ⟨p, hp, hrev, hgrant⟩
    refine ⟨p.deviceId, p.deviceName, p.granted, ?_, TrustedPeer.mem_granted.mpr hgrant⟩
    simp [Store.lookupPeer, Store.peerRecord, hp, hrev]

theorem step_grants (h : s.step x a = some t) (ht : t.Grants fp capability) :
    s.Grants fp capability ∨ (s.grants a = some (fp, capability, true) ∧ s.Trusts fp) ∨ ∃ write,
      s.pairs a = some (fp, write) := by
  obtain ⟨p, hp, hlive, hgrant⟩ := grants_iff.mp ht
  have hgr : ∀ q, s.store.peers.get fp = some q → q.revoked = false →
      q.grantedCapabilities.get capability = some true → s.Grants fp capability :=
    fun q hq hlive hgrant => grants_iff.mpr ⟨q, hq, hlive, hgrant⟩
  cases touches_of_step h with
  | nothing _ _ hpeers => exact .inl (hgr p (hpeers ▸ hp) hlive hgrant)
  | revokes l _ _ _ hpeers =>
    rw [hpeers, Peers.get_modify] at hp
    split at hp
    · obtain ⟨q, _, rfl⟩ := map_eq_some_iff.mp hp
      cases hlive
    · exact .inl (hgr p hp hlive hgrant)
  | entombs _ _ _ _ hpeers =>
    rw [hpeers] at hp
    rcases Peers.get_foldl_entomb hp with hp | ⟨q, _, _, rfl⟩
    · exact .inl (hgr p hp hlive hgrant)
    · cases hlive
  | edits l q f _ _ _ _ hkeep hnam hpeers =>
    rw [hpeers, Peers.get_modify] at hp
    split at hp
    · rename_i hl
      subst hl
      obtain ⟨q', hq', rfl⟩ := map_eq_some_iff.mp hp
      have hlive' : q'.revoked = false := (hkeep q').1.symm.trans hlive
      rcases hnam q' capability hgrant with hold | hnam
      · exact .inl (hgr q' hq' hlive' hold)
      · exact .inr (.inl ⟨hnam, trusts_iff.mpr ⟨q', hq', hlive'⟩⟩)
    · exact .inl (hgr p hp hlive hgrant)
  | writes w _ _ hpeers =>
    have hget := Peers.get_modify s.store.peers w.fp fp ({ · with notificationPolicy := w.updated })
      (fun _ => rfl)
    rw [← hpeers, hp] at hget
    split at hget
    · obtain ⟨q, hq, rfl⟩ := map_eq_some_iff.mp hget.symm
      exact .inl (hgr q hq hlive hgrant)
    · exact .inl (hgr p hget.symm hlive hgrant)
  | paired i c _ write _ _ _ hpairs hpeers =>
    rw [hpeers, Peers.get_insert] at hp
    split at hp
    · rename_i hl
      have hfp : c.fingerprint = fp := hl.symm
      exact .inr (.inr ⟨write, hfp ▸ hpairs⟩)
    · exact .inl (hgr p hp hlive hgrant)

theorem bound_of_moves (capability) {j : Nat} {c : Connection Fp} {phase}
    (h : c.Moves x s a j phase) (hbound : phase.isBound) :
    (c.phase.isBound ∧ c.phase.negotiated = phase.negotiated) ∨
      ((a = .lookup j ∨ a = .reread j) ∧
      (s.Grants c.fingerprint capability → capability ∈ x.negotiate c.advertised →
      capability ∈ phase.negotiated)) := by
  have hread : ∀ deviceId deviceName granted, s.store.lookupPeer c.fingerprint = .trusted deviceId
      deviceName granted → s.Grants c.fingerprint capability →
      capability ∈ x.negotiate c.advertised → capability ∈ effective (x.negotiate c.advertised)
      granted := by
    rintro _ _ _ htrus ⟨_, _, _, hlook, hmem⟩ hsupp
    rw [htrus] at hlook
    cases hlook
    exact mem_filter.mpr ⟨hsupp, by simpa using hmem⟩
  cases h with
  | stays => exact .inl ⟨hbound, rfl⟩
  | admitted deviceId deviceName granted _ ha htrus =>
    exact .inr ⟨.inl ha, hread deviceId deviceName granted htrus⟩
  | reread deviceId deviceName granted _ ha htrus =>
    exact .inr ⟨.inr ha, hread deviceId deviceName granted htrus⟩
  | unread _ ha htrust =>
    refine .inr ⟨.inr ha, ?_⟩
    rintro ⟨deviceId, deviceName, granted, hlook, -⟩
    exact absurd ⟨deviceId, deviceName, granted, hlook⟩ htrust
  | connecting negotiated hph | registering negotiated hph =>
    exact .inl ⟨by simp [hph, Phase.isBound], by simp [hph, Phase.negotiated]⟩
  | _ => cases hbound

def Unmissed (x : Config Fp ε) (fp : Fp) (capability : String) (s : Daemon Fp) : Prop :=
  ∀ c ∈ s.connections, c.fingerprint = fp → c.phase.isBound →
    capability ∈ x.negotiate c.advertised → capability ∈ c.phase.negotiated

/-- When a grant of the capability looks for the session, no handshake of the peer is
bound without the capability; a grant that cannot be written grants nothing new; and a
peer is paired only while no other handshake of it is bound and none of its sessions
is in the map unasked. -/
def Noticed (x : Config Fp ε) (fp : Fp) (capability : String) (s : Daemon Fp) : Action Fp ε → Prop
  | .proceed i write => ∀ r ∈ s.requests[i]?,
      (r.widens fp capability → Unmissed x fp capability s) ∧
      (s.grants (.proceed i write) = some (fp, capability, true) → write.isOk = false →
      s.Trusts fp → s.Grants fp capability)
  | .storePeer i _ _ => ∀ c ∈ s.connections[i]?, c.fingerprint = fp →
      (∀ d ∈ s.connections, d.fingerprint = fp → d.phase.isBound = false) ∧
        ∀ id ∈ s.sessions fp, ∀ d ∈ s.connections[id]?, d.asked
  | _ => True

structure Converging (x : Config Fp ε) (fp : Fp) (capability : String) (s : Daemon Fp) : Prop where
  mapped : s.Mapped
  requested : ∀ id, s.requested fp = some id → ∃ c, s.connections[id]? = some c ∧ c.asked
  handle : ∀ r ∈ s.requests, ∀ id negotiated, r.stage = .deciding fp (some (id, negotiated)) →
    ∃ c, s.connections[id]? = some c ∧ (c.phase = .running negotiated ∨ c.phase.isOver)
  bound : ∀ c ∈ s.connections, c.fingerprint = fp → c.phase.isBound → s.Grants fp capability →
    capability ∈ x.negotiate c.advertised →
    capability ∈ c.phase.negotiated ∨ ∃ r ∈ s.requests, r.widens fp capability
  running : ∀ id c negotiated, s.sessions fp = some id → s.connections[id]? = some c →
    c.phase = .running negotiated → s.Grants fp capability → capability ∈ x.negotiate c.advertised →
    capability ∈ negotiated ∨ c.asked ∨ (∃ r ∈ s.requests, r.widens fp capability) ∨
    ∃ r ∈ s.requests, r.weighs fp capability id

theorem step_requests_asked (hs : Converging x fp capability s) (h : s.step x a = some t) :
    ∀ id, t.requested fp = some id → ∃ c, t.connections[id]? = some c ∧ c.asked := by
  intro id hid
  rcases step_requested fp h with hsame | hnone
    | ⟨i, r, _, id', negotiated, -, hr, hst, hnew, hask⟩
  · obtain ⟨c, hc, hask⟩ := hs.requested id (hsame ▸ hid)
    obtain ⟨c', hc', hev⟩ := step_evolves h hc
    exact ⟨c', hc', hev.asked hask⟩
  · rw [hnone] at hid
    cases hid
  obtain rfl := mem_unique hnew hid
  obtain ⟨c, hc, -⟩ := hs.handle r (mem_of_getElem? hr) id' negotiated hst
  obtain ⟨c', hc', -⟩ := step_evolves h hc
  exact ⟨c', hc', hask c' hc'⟩

variable {id : Nat} {write : Except ε Unit} {negotiated : List String}

theorem handleOf_eq_some (hs : s.Mapped) (h : s.handleOf fp = some (id, negotiated)) :
    s.sessions fp = some id ∧ ∃ c, s.connections[id]? = some c ∧
      (c.phase = .running negotiated ∨ c.phase.isOver) := by
  obtain ⟨i, hi, heq⟩ := map_eq_some_iff.mp h
  obtain ⟨c, n, hc, -, hph⟩ := hs fp i hi
  obtain ⟨rfl, rfl⟩ := Prod.mk.inj heq
  refine ⟨hi, c, hc, ?_⟩
  rcases hph with hph | hph
  · simp [hc, hph, negotiated]
  · simp [hph, isOver]

theorem step_handle (hs : Converging x fp capability s) (h : s.step x a = some t) :
    ∀ r ∈ t.requests, ∀ id negotiated, r.stage = .deciding fp (some (id, negotiated)) →
      ∃ c, t.connections[id]? = some c ∧ (c.phase = .running negotiated ∨ c.phase.isOver) := by
  intro r' hr' id negotiated hst
  have hold : ∃ c, s.connections[id]? = some c ∧
      (c.phase = .running negotiated ∨ c.phase.isOver) := by
    rcases step_request h hr' with hold | ⟨_, rfl⟩ | ⟨i, r, _, u, rfl, _, hh, -⟩
    · exact hs.handle r' hold id negotiated hst
    · cases hst
    cases hh with
    | looked =>
      obtain ⟨rfl, hhand⟩ := Stage.deciding.inj hst
      exact (handleOf_eq_some hs.mapped hhand).2
    | _ => cases hst
  obtain ⟨c, hc, hph⟩ := hold
  obtain ⟨c', hc', hev⟩ := step_evolves h hc
  refine ⟨c', hc', ?_⟩
  rcases hph with hrunn | hover
  · refine (hev.phase.of_running hrunn).imp_right (fun hend => ?_)
    rw [hend]
    rfl
  · exact .inr (hev.phase.of_over hover)

theorem grants_cases {granted} (h : s.grants a = some (fp, capability, granted)) :
    ∃ i write r device, a = .proceed i write ∧ s.requests[i]? = some r ∧
      r.command = .grant device capability granted ∧ r.stage = .resolved fp := by
  cases a with
  | proceed i write =>
    simp only [grants] at h
    split at h
    · rename_i device c g l mark hr
      obtain ⟨rfl, rfl, rfl⟩ : l = fp ∧ c = capability ∧ g = granted := by simpa using h
      exact ⟨i, write, _, device, rfl, hr, rfl, rfl⟩
    · cases h
  | _ => cases h

theorem step_granted (hok : Noticed x fp capability s a) (h : s.step x a = some t)
    (ht : t.Grants fp capability) :
    s.Grants fp capability ∨ (∃ r ∈ t.requests, r.widens fp capability) ∨ ∃ write,
      s.pairs a = some (fp, write) := by
  rcases step_grants h ht with hgr | ⟨hnam, htrust⟩ | hpairs
  · exact .inl hgr
  · obtain ⟨i, write, r, device, rfl, hr, hcomm, hst⟩ := grants_cases hnam
    cases hw : write.isOk with
    | false => exact .inl ((hok r hr).2 hnam hw htrust)
    | true =>
      cases step_cases h with
      | proceed _ q _ u _ hq hh =>
        obtain rfl := mem_unique hq hr
        cases hh with
        | granted _ l c g p hcomm' hst' =>
          cases hcomm.symm.trans hcomm'
          cases hst.symm.trans hst'
          have hlt := (List.getElem?_eq_some_iff.mp hq).1
          exact .inr (.inl ⟨_, mem_set hlt _, widens_eq_true.mpr ⟨device, hcomm, rfl⟩⟩)
        | grantFailed _ l c g p e _ _ _ hwrite =>
          subst hwrite
          cases hw
        | answered => exact .inl ht
        | hid _ _ _ hhides | hidAll _ _ _ _ hhides => simp [hides, hcomm] at hhides
        | _ => simp_all
  · exact .inr (.inr hpairs)

theorem noticed_pairs (hok : Noticed x fp capability s a) (h : s.pairs a = some (fp, write)) :
    (∀ d ∈ s.connections, d.fingerprint = fp → d.phase.isBound = false) ∧ ∀ id ∈ s.sessions fp,
      ∀ d ∈ s.connections[id]?, d.asked := by
  cases a with
  | storePeer =>
    obtain ⟨c, hc, heq⟩ := map_eq_some_iff.mp h
    exact hok c hc (Prod.mk.inj heq).1
  | _ => cases h

theorem step_bound (hs : Converging x fp capability s) (hok : Noticed x fp capability s a)
    (h : s.step x a = some t) :
    ∀ c ∈ t.connections, c.fingerprint = fp → c.phase.isBound → t.Grants fp capability →
      capability ∈ x.negotiate c.advertised → capability ∈ c.phase.negotiated ∨ ∃ r ∈ t.requests,
      r.widens fp capability := by
  intro _ hmem hfp hbound ht hsupp
  obtain ⟨j, hc'⟩ := mem_iff_getElem?.mp hmem
  rcases step_connection h hc' with hacc | ⟨c, hc, hev⟩
  · rw [hacc] at hbound
    cases hbound
  have hcfp : c.fingerprint = fp := hev.fingerprint.symm.trans hfp
  have hcmem := mem_of_getElem? hc
  rw [hev.advertised] at hsupp
  have hmoved := bound_of_moves capability hev.phase hbound
  rcases step_granted hok h ht with hgr | hwid | ⟨_, hpairs⟩
  · rcases hmoved with ⟨hcbound, hsame⟩ | ⟨-, hread⟩
    · rw [← hsame]
      rcases hs.bound c hcmem hcfp hcbound hgr hsupp with hold | ⟨r, hr, hwid⟩
      · exact .inl hold
      · rcases step_request_of_mem h hr with hr | ⟨i, w, u, _, rfl, hi, -⟩
        · exact .inr ⟨r, hr, hwid⟩
        · exact .inl ((hok r hi).1 hwid c hcmem hcfp hcbound hsupp)
    · exact .inl (hread (hcfp ▸ hgr) hsupp)
  · exact .inr hwid
  · rcases hmoved with ⟨hcbound, -⟩ | ⟨ha, -⟩
    · rw [(noticed_pairs hok hpairs).1 c hcmem hcfp] at hcbound
      cases hcbound
    · rcases ha with rfl | rfl <;> cases hpairs

variable {r r' : Request Fp} {u : Daemon Fp}

theorem weighs_of_handles (hreg : s.sessions fp = some id) (hwid : r.widens fp capability)
    (hh : r.Handles x s write u r') : r'.weighs fp capability id := by
  obtain ⟨device, hcomm, hst⟩ := widens_eq_true.mp hwid
  cases hh with
  | looked _ l _ g _ hst' =>
    cases hst.symm.trans hst'
    exact weighs_eq_true.mpr ⟨device, _, hcomm, by rw [handleOf, hreg]; rfl⟩
  | answered _ _ hearly | hid _ _ hearly | hidAll _ _ _ hearly => simp [isEarly, hst] at hearly
  | _ => simp_all

theorem weighed_of_handles {i : Nat} {c c' : Connection Fp} (hs : Converging x fp capability s)
    (hr : s.requests[i]? = some r) (hweighs : r.weighs fp capability id)
    (hh : r.Handles x s write u r') (hc : s.connections[id]? = some c)
    (hrunn : c.phase = .running negotiated) (hc' : u.connections[id]? = some c')
    (hask : c.asked → c'.asked) : capability ∈ negotiated ∨ c'.asked := by
  obtain ⟨_, n, hcomm, hst⟩ := weighs_eq_true.mp hweighs
  cases hh with
  | left _ l _ g handle _ hcomm' hst' hdec =>
    cases hcomm.symm.trans hcomm'
    cases hst.symm.trans hst'
    simp only [Renegotiation.decide, Bool.not_true, Bool.false_eq_true, if_false] at hdec
    by_cases hmem : capability ∈ n
    · obtain ⟨d, hd, hph⟩ := hs.handle r (mem_of_getElem? hr) id n hst
      obtain rfl := mem_unique hd hc
      rw [hrunn] at hph
      rcases hph with hph | hph
      · cases hph
        exact .inl hmem
      · cases hph
    · right
      have hreq : s.requested fp = some id := by
        by_contra hne
        simp [hmem, hne] at hdec
      obtain ⟨d, hd, hda⟩ := hs.requested id hreq
      obtain rfl := mem_unique hd hc
      exact hask hda
  | reconnected _ l _ _ _ _ _ hst' =>
    cases hst.symm.trans hst'
    exact .inr (shutdown_asked hc')
  | answered _ _ hearly | hid _ _ hearly | hidAll _ _ _ hearly => simp [isEarly, hst] at hearly
  | _ => simp_all

theorem step_running (hs : Converging x fp capability s) (hok : Noticed x fp capability s a)
    (h : s.step x a = some t) :
    ∀ id c negotiated, t.sessions fp = some id → t.connections[id]? = some c →
      c.phase = .running negotiated → t.Grants fp capability →
      capability ∈ x.negotiate c.advertised → capability ∈ negotiated ∨ c.asked ∨
      (∃ r ∈ t.requests, r.widens fp capability) ∨ ∃ r ∈ t.requests, r.weighs fp capability id := by
  intro id _ n hreg hc' hrunn ht hsupp
  cases step_registers fp h with
  | removed _ _ _ _ _ _ _ hnone | dropped _ _ _ _ _ _ _ _ hnone =>
    rw [hnone] at hreg
    cases hreg
  | registered i c m ha hc hcfp hph hnew hruns =>
    obtain rfl := mem_unique hnew hreg
    obtain ⟨d, hd, hev⟩ := step_evolves h hc
    obtain rfl := mem_unique hd hc'
    obtain ⟨e, he, -, hm⟩ := hruns
    obtain rfl := mem_unique hd he
    cases hrunn.symm.trans hm
    rcases step_granted hok h ht with hgr | hwid | ⟨_, hpairs⟩
    · have hbound : c.phase.isBound := by simp [hph, isBound]
      rw [hev.advertised] at hsupp
      rcases hs.bound c (mem_of_getElem? hc) hcfp hbound hgr hsupp with hmem | ⟨r, hr, hwid⟩
      · exact .inl (by simpa [hph, negotiated] using hmem)
      · rcases step_request_of_mem h hr with hr | ⟨k, w, u, _, hproc, -⟩
        · exact .inr (.inr (.inl ⟨r, hr, hwid⟩))
        · cases ha.symm.trans hproc
    · exact .inr (.inr (.inl hwid))
    · subst ha
      cases hpairs
  | kept hsame hkeep =>
    have hold : s.sessions fp = some id := hsame ▸ hreg
    obtain ⟨c, m, hc, hcfp, -⟩ := hs.mapped fp id hold
    obtain ⟨d, hd, hev⟩ := step_evolves h hc
    obtain rfl := mem_unique hd hc'
    have hmoves := hev.phase
    rw [hrunn] at hmoves
    have hran : c.phase = .running n :=
      hmoves.to_running.resolve_right (fun hnew => (hkeep id c hc hcfp).1 hnew.2)
    rcases step_granted hok h ht with hgr | hwid | ⟨_, hpairs⟩
    · rw [hev.advertised] at hsupp
      rcases hs.running id c n hold hc hran hgr hsupp with hmem | hask |
        ⟨r, hr, hwid⟩ | ⟨r, hr, hweighs⟩
      · exact .inl hmem
      · exact .inr (.inl (hev.asked hask))
      · rcases step_request_of_mem h hr with hr | ⟨i, w, u, r', rfl, _, hh, rfl, hr'⟩
        · exact .inr (.inr (.inl ⟨r, hr, hwid⟩))
        · exact .inr (.inr (.inr ⟨r', hr', weighs_of_handles hold hwid hh⟩))
      · rcases step_request_of_mem h hr with hr | ⟨i, w, u, _, rfl, hi, hh, rfl, _⟩
        · exact .inr (.inr (.inr ⟨r, hr, hweighs⟩))
        · exact (weighed_of_handles hs hi hweighs hh hc hran hc' hev.asked).imp_right .inl
    · exact .inr (.inr (.inl hwid))
    · exact .inr (.inl (hev.asked ((noticed_pairs hok hpairs).2 id hold c hc)))

theorem step_converging (hok : Noticed x fp capability s a) (h : s.step x a = some t)
    (hs : Converging x fp capability s) : Converging x fp capability t where
  mapped := step_mapped h hs.mapped
  requested := step_requests_asked hs h
  handle := step_handle hs h
  bound := step_bound hs hok h
  running := step_running hs hok h

def Quiescent (s : Daemon Fp) : Prop :=
  (∀ r ∈ s.requests, ∃ about response, r.stage = .answered about response) ∧
    ∀ c ∈ s.connections, (∃ negotiated, c.phase = .running negotiated) ∨ c.phase = .closed

/-- The session in the map has the capability, or has been asked to end, if the capability
is granted and both sides can do it. -/
def Converged (x : Config Fp ε) (fp : Fp) (capability : String) (s : Daemon Fp) : Prop :=
  ∀ id c, s.sessions fp = some id → s.connections[id]? = some c → s.Grants fp capability →
    x.supports capability → capability ∈ c.advertised →
    capability ∈ c.phase.negotiated ∨ c.asked

/-- Grants reach the session of the peer in every run whose steps notice them. -/
theorem grants_converge {store : Store Fp} {as : List (Action Fp ε)}
    (hrun : run (step x) (starting store) as = some t)
    (hok : Meets (step x) (Noticed x fp capability) (starting store) as) (hquiet : t.Quiescent) :
    t.Converged x fp capability := by
  have hs : Converging x fp capability t :=
    run_invariant (step x) (fun _ _ _ => step_converging) hrun hok
      (by constructor <;> simp [starting, Mapped])
  intro id c hreg hc hgr hsuppor hadv
  obtain ⟨negotiated, hrunn⟩ : ∃ negotiated, c.phase = .running negotiated := by
    refine (hquiet.2 c (mem_of_getElem? hc)).resolve_right (fun hcl => ?_)
    obtain ⟨d, n, hd, -, hph⟩ := hs.mapped fp id hreg
    obtain rfl := mem_unique hd hc
    simp [hcl] at hph
  have hsupp : capability ∈ x.negotiate c.advertised :=
    Config.mem_negotiate.mpr ⟨hadv, by simpa [Config.supports] using hsuppor⟩
  rw [hrunn, Phase.negotiated]
  rcases hs.running id c negotiated hreg hc hrunn hgr hsupp with hmem | hask |
    ⟨r, hr, hw⟩ | ⟨r, hr, hw⟩
  · exact .inl hmem
  · exact .inr hask
  · obtain ⟨_, -, hst⟩ := widens_eq_true.mp hw
    obtain ⟨_, _, hansw⟩ := hquiet.1 r hr
    rw [hst] at hansw
    cases hansw
  obtain ⟨_, n, -, hst⟩ := weighs_eq_true.mp hw
  obtain ⟨_, _, hansw⟩ := hquiet.1 r hr
  rw [hst] at hansw
  cases hansw

instance (fp : Fp) (s : Daemon Fp) : Decidable (s.Trusts fp) :=
  match h : s.store.lookupPeer fp with
  | .trusted _ _ _ => isTrue ⟨_, _, _, h⟩
  | .unknown | .revoked => isFalse (by simp [Trusts, h])

instance (fp : Fp) (capability : String) (s : Daemon Fp) : Decidable (s.Grants fp capability) :=
  match h : s.store.lookupPeer fp with
  | .trusted _ _ granted => decidable_of_iff (capability ∈ granted) (by simp [Grants, h])
  | .unknown | .revoked => isFalse (by simp [Grants, h])

instance (fp : Fp) (capability : String) (s : Daemon Fp) : Decidable (Unmissed x fp capability s) :=
  inferInstanceAs (Decidable (∀ c ∈ s.connections, _))

instance (fp : Fp) (capability : String) (s : Daemon Fp) (a : Action Fp ε) :
    Decidable (Noticed x fp capability s a) := by
  unfold Noticed
  induction a using Action.casesOn <;> infer_instance

def grantConnected : List (Action Nat Unit) :=
  connected ++ [Action.request (.grant "phone" "notifications.v1" true), .proceed 0 (.ok ()),
    .proceed 0 (.ok ()), .proceed 0 (.ok ()), .proceed 0 (.ok ()), .finish 0, .unregister 0,
    .accept 7 ⟨"phone", "Phone", 1⟩ ["battery.v1", "notifications.v1"] 1, .lookup 1, .establish 1,
    .clear 1, .register 1]

theorem grants_converge_connected :
    ∃ t, run (step sampleConfig) (starting ⟨.empty, []⟩) grantConnected = some t ∧
      t.sessions 7 = some 1 ∧ t.connections.map Connection.phase = [.closed,
      .running ["battery.v1", "notifications.v1"]] ∧
      t.Converged sampleConfig 7 "notifications.v1" := by
  refine ⟨_, rfl, by decide, by decide, ?_⟩
  refine @grants_converge _ _ _ sampleConfig _ 7 "notifications.v1" ⟨.empty, []⟩ grantConnected rfl
    (by decide) ?_
  constructor
  · intro r hr
    obtain rfl := mem_singleton.mp hr
    exact ⟨_, _, rfl⟩
  · intro c hc
    rcases mem_cons.mp hc with rfl | hc
    · exact .inr rfl
    · obtain rfl := mem_singleton.mp hc
      exact .inl ⟨_, rfl⟩

/-- The phone reconnects and its grants are read before notifications are granted, which finds no
session. -/
def grantMissed : List (Action Nat Unit) :=
  pairing ++ [Action.abandon 0, .accept 7 ⟨"phone", "Phone", 1⟩ ["battery.v1", "notifications.v1"]
    1, .lookup 1, .request (.grant "phone" "notifications.v1" true), .proceed 0 (.ok ()),
    .proceed 0 (.ok ()), .proceed 0 (.ok ()), .proceed 0 (.ok ()), .establish 1, .clear 1,
    .register 1]

theorem grant_misses_session :
    ∃ t, run (step sampleConfig) (starting ⟨.empty, []⟩) grantMissed = some t ∧ t.Quiescent ∧
      t.sessions 7 = some 1 ∧ t.Grants 7 "notifications.v1" ∧
      (t.connections[1]?).map (fun c => (c.phase, c.asked)) = some (.running ["battery.v1"],
      false) ∧ ¬ t.Converged sampleConfig 7 "notifications.v1" := by
  refine ⟨_, rfl, ⟨?_, ?_⟩, by decide, by decide, by decide, ?_⟩
  · intro r hr
    obtain rfl := mem_singleton.mp hr
    exact ⟨_, _, rfl⟩
  · intro c hc
    rcases mem_cons.mp hc with rfl | hc
    · exact .inr rfl
    · obtain rfl := mem_singleton.mp hc
      exact .inl ⟨_, rfl⟩
  · intro h
    have hconv := h 1 _ (by decide) rfl (by decide) (by decide) (by decide)
    exact absurd hconv (by decide)

end Daemon

namespace Renegotiation

/-- `requested` is the memory of the source; `asked` keeps all the sessions of a peer that were
asked to reconnect since its last clear, the latest first. -/
structure Memory (Fp : Type) where
  requested : Fp → Option Nat := fun _ => none
  asked : Fp → List Nat := fun _ => []

inductive Call (Fp : Type) where
  | grantChanged (peer : Fp) (capability : String) (granted : Bool)
    (session : Option (Nat × List String))
  | clear (peer : Fp)

def Memory.decision (s : Memory Fp) (peer : Fp) (capability : String) (granted : Bool)
    (session : Option (Nat × List String)) : Decision :=
  decide granted capability session (s.requested peer)

def Memory.step (s : Memory Fp) : Call Fp → Memory Fp
  | .grantChanged peer capability granted session =>
    match s.decision peer capability granted session, session with
    | .reconnect, some (id, _) =>
      ⟨update s.requested peer (some id), update s.asked peer (id :: s.asked peer)⟩
    | _, _ => s
  | .clear peer => ⟨update s.requested peer none, update s.asked peer []⟩

def Memory.call (s : Memory Fp) (c : Call Fp) : Option (Memory Fp) :=
  some (s.step c)

def Memory.Latest (s : Memory Fp) : Prop :=
  ∀ peer, s.requested peer = (s.asked peer).head?

/-- No session was asked twice since the last clear of its peer. -/
def Memory.Once (s : Memory Fp) : Prop :=
  ∀ peer, (s.asked peer).Nodup

/-- A widening grant finds no session that was asked before the last one. -/
def Memory.Fresh (s : Memory Fp) : Call Fp → Prop
  | .grantChanged peer capability true (some (id, negotiated)) =>
    capability ∉ negotiated → (s.asked peer).head? ≠ some id → id ∉ s.asked peer
  | _ => True

variable {s : Memory Fp}

theorem Memory.Latest.step (h : s.Latest) (c : Call Fp) : (s.step c).Latest := by
  intro peer
  cases c with
  | clear other =>
    simp only [Memory.step, update_apply]
    split
    · rfl
    · exact h peer
  | grantChanged other capability granted session =>
    simp only [Memory.step]
    split
    · simp only [update_apply]
      split
      · rfl
      · exact h peer
    · exact h peer

omit [LinearOrder Fp] in
theorem decision_eq_reconnect (h : s.Latest) {peer capability granted id negotiated} :
    s.decision peer capability granted (some (id, negotiated)) = .reconnect ↔ granted ∧
      capability ∉ negotiated ∧ (s.asked peer).head? ≠ some id := by
  simp only [Memory.decision, decide, ← h peer]
  cases granted <;> by_cases hmem : capability ∈ negotiated <;>
    by_cases hid : s.requested peer = some id <;> simp [hmem, hid]

theorem once_update (h : s.Once) (peer : Fp) (ids : List Nat) :
    (∀ other, (update s.asked peer ids other).Nodup) ↔ ids.Nodup := by
  constructor
  · intro hall
    simpa using hall peer
  · intro hids other
    rw [update_apply]
    split
    · exact hids
    · exact h other

theorem once_step (hs : s.Latest) (h : s.Once) (c : Call Fp) : (s.step c).Once ↔ s.Fresh c := by
  cases c with
  | clear peer => exact iff_of_true ((once_update h peer []).mpr nodup_nil) trivial
  | grantChanged peer capability granted session =>
    cases session with
    | none =>
      have hkept : s.step (.grantChanged peer capability granted none) = s := by
        simp [Memory.step]
      rw [hkept]
      cases granted <;> exact iff_of_true h trivial
    | some session =>
      obtain ⟨id, negotiated⟩ := session
      by_cases hd : s.decision peer capability granted (some (id, negotiated)) = .reconnect
      · obtain ⟨rfl, hnew, hlast⟩ := (decision_eq_reconnect hs).mp hd
        have hask : (s.step (.grantChanged peer capability true (some (id, negotiated)))).asked =
            update s.asked peer (id :: s.asked peer) := by
          simp [Memory.step, hd]
        rw [Memory.Once, hask, once_update h, nodup_cons, and_iff_left (h peer)]
        exact ⟨fun hid _ _ => hid, fun hid => hid hnew hlast⟩
      · have hkept : s.step (.grantChanged peer capability granted (some (id, negotiated))) =
            s := by
          simp only [Memory.step]
          split
          · exact absurd ‹_› hd
          · rfl
        rw [hkept]
        refine iff_of_true h ?_
        cases granted with
        | false => trivial
        | true =>
          exact fun hnew hlast => absurd ((decision_eq_reconnect hs).mpr ⟨rfl, hnew, hlast⟩) hd

theorem run_call (s : Memory Fp) (calls : List (Call Fp)) :
    run Memory.call s calls = some (calls.foldl Memory.step s) := by
  induction calls generalizing s with
  | nil => rfl
  | cons c _ ih => exact ih (s.step c)

/-- A session is asked again exactly when another one of the peer was asked in between; what
the peer advertised is not looked at. Over a whole run no session is asked twice since the last
clear of its peer exactly where every widening grant finds a session that was not asked before the
last one. -/
theorem reconnects_once_iff (calls : List (Call Fp)) (peer : Fp) (capability : String)
    (granted : Bool) : let s := calls.foldl Memory.step {}
    (∀ session, s.decision peer capability granted session = .reconnect → granted ∧
      ∃ id negotiated, session = some (id, negotiated) ∧ capability ∉ negotiated) ∧
    (∀ id (advertised negotiated : List String),
      (s.decision peer capability granted (some (id, negotiated)) = .reconnect →
        capability ∈ advertised ∧ id ∉ s.asked peer) ↔
      (granted → capability ∉ negotiated → (s.asked peer).head? ≠ some id →
        capability ∈ advertised ∧ id ∉ s.asked peer)) ∧
    (Always Memory.call Memory.Once {} calls ↔ Meets Memory.call Memory.Fresh {} calls) := by
  intro s
  have hlast : s.Latest :=
    foldlRecOn (motive := Memory.Latest) calls Memory.step (fun _ => rfl) (fun _ h c _ => h.step c)
  refine ⟨fun session h => granted_of_reconnect h, fun id advertised negotiated => ?_, ?_⟩
  · rw [decision_eq_reconnect hlast]
    tauto
  · have hinv : ∀ (s : Memory Fp) c t, s.Latest → s.call c = some t → t.Latest := by
      rintro s c _ hs ⟨⟩
      exact hs.step c
    have hstep : ∀ (s : Memory Fp) c t, s.Latest → s.Once → s.call c = some t →
        (t.Once ↔ s.Fresh c) := by
      rintro s c _ hs h ⟨⟩
      exact once_step hs h c
    exact always_iff_meets Memory.call hinv hstep (run_call {} calls) (fun _ => rfl)
      (fun _ => nodup_nil)

/-- The first session is asked, then the second, then the first again; the peer may never have
advertised the capability. -/
theorem first_session_asked_again :
    let asks (id : Nat) : Call Nat := .grantChanged 7 "files.v1" true (some (id, []))
    let s := [asks 1, asks 2].foldl Memory.step {}
    1 ∈ s.asked 7 ∧ s.decision 7 "files.v1" true (some (1, [])) = .reconnect := by
  decide

end Renegotiation

end OmniBridge.Desktop
