import OmniBridge.PhoneConverge
import OmniBridge.Slots

/-! Dismissals asked for by computers: what handling a request does, and whom the
cancel and the answer can be traced back to. -/

namespace OmniBridge.Notifications

open List Option Source Phone SourceIdMap Session
open Trust (NotificationPolicy Chars)

variable {Peer : Type}

def SourceIdMap.Keyed (x : Device) (m : SourceIdMap) : Prop := ∀ p ∈ m.byId, x.derive p.2 = p.1

namespace SourceIdMap

variable {x : Device} {m : SourceIdMap}

theorem Keyed.remember (h : m.Keyed x) (key : String) :
    (m.remember (x.derive key) key).Keyed x := by
  intro p hp
  dsimp only [SourceIdMap.remember, trim] at hp
  exact forall_mem_concat (fun p hold => h p (mem_of_mem_filter hold)) rfl p
    ((keepLast_sublist _ _).subset hp)

theorem Keyed.forgetKey (h : m.Keyed x) (key : String) : (m.forgetKey key).Keyed x := by
  unfold SourceIdMap.forgetKey
  split
  · exact h
  · exact fun p hp => h p (mem_of_mem_filter hp)

theorem Keyed.retainOnly (h : m.Keyed x) (keys : List String) : (m.retainOnly keys).Keyed x := by
  unfold SourceIdMap.retainOnly
  generalize m.byKey.map Prod.fst = all
  induction all generalizing m with
  | nil => exact h
  | cons key _ ih =>
    rw [foldl_cons]
    split
    · exact ih h
    · exact ih (h.forgetKey key)

theorem Keyed.rememberAll (h : m.Keyed x) (active : List PlatformNotification) :
    (active.foldl (fun m n => m.remember (x.derive n.platformKey) n.platformKey) m).Keyed x := by
  induction active generalizing m with
  | nil => exact h
  | cons n _ ih =>
    have hnext := h.remember n.platformKey
    rw [foldl_cons]
    exact ih hnext

theorem Keyed.derive (h : m.Keyed x) {id key} (hkey : m.platformKey id = some key) :
    x.derive key = id := by
  obtain ⟨p, hp, rfl⟩ := map_eq_some_iff.mp hkey
  have hid : p.1 = id := by simpa using find?_some hp
  rw [← hid]
  exact h p (mem_of_find?_eq_some hp)

end SourceIdMap

section Keyed

variable {x : Device} {v : View Peer} {m : SourceIdMap}

theorem converge_keyed (h : m.Keyed x) (sourcing : Bool) (t : Session Peer) :
    (converge x v sourcing m t).1.Keyed x := by
  obtain ⟨a, -, ⟨-, heq⟩ | ⟨-, -, heq⟩ | ⟨-, -, heq⟩⟩ := converge_cases x v sourcing m t
  · rw [heq]
    exact h
  · rw [heq]
    rcases sendSnapshot_cases x v m a with ⟨-, hsend⟩ | ⟨_, -, _, -, r, hr, hsend⟩
    · rw [hsend]
      exact h
    · rw [hsend, hr]
      refine snapshotItems_rule (Q := fun m _ => m.Keyed x) ?_ 0 h
      exact fun m' u n _ _ _ _ hm => ⟨hm.remember n.platformKey, hm.remember n.platformKey⟩
  · rw [heq]
    exact h

variable {s : Source Peer}

theorem convergeAll_keyed (h : s.idMap.Keyed x) : (s.convergeAll x v).idMap.Keyed x :=
  each_fst (I := Keyed x) (fun _ t hm => converge_keyed hm (s.isSourcing x) t) h s.sessions

variable [DecidableEq Peer]

theorem put_idMap (u : Session Peer) (s : Source Peer) : (s.put u).idMap = s.idMap := by
  unfold put
  split <;> rfl

theorem answer_idMap (v : View Peer) (id) (outcome : NotificationOutcome) (t) (s : Source Peer) :
    (s.answer v id outcome t).idMap = s.idMap := by
  unfold answer
  split
  · rfl
  · exact put_idMap _ _

theorem handleDismiss_keyed (h : s.idMap.Keyed x) (t : Session Peer) (id) (origin : Chars) :
    (s.handleDismiss x v t id origin).idMap.Keyed x := by
  unfold handleDismiss
  split
  · exact h
  split
  · rw [answer_idMap]
    exact h
  split
  · rw [answer_idMap]
    exact h
  split
  · rw [answer_idMap]
    exact h
  dsimp only
  split
  · split
    all_goals
      rw [answer_idMap]
      exact h
  · rw [answer_idMap]
    exact h.forgetKey _
  · rw [answer_idMap]
    exact h

theorem handle_keyed (h : s.idMap.Keyed x) (e : NotificationEvent Peer) :
    (s.handle x v e).idMap.Keyed x := by
  cases e with
  | sessionAttached peer sender =>
    obtain ⟨_, hbind⟩ := updateBinding_eq x v (s.put (announceRoles (s.isSourcing x)
      (v.alive sender) ({ peer := peer, sender := sender } : Session Peer)))
    dsimp only [handle]
    rw [put_idMap, hbind]
    refine converge_keyed ?_ _ _
    rw [put_idMap]
    exact h
  | sessionDetached peer =>
    obtain ⟨_, hbind⟩ := updateBinding_eq x v { s with
      sessions := s.sessions.filter (·.peer ≠ peer) }
    dsimp only [handle]
    rw [hbind]
    exact h
  | listenerConnected =>
    obtain ⟨_, hbind⟩ := updateBinding_eq x v { s with listenerConnected := true }
    dsimp only [handle]
    rw [hbind]
    refine convergeAll_keyed ?_
    unfold rebuildIdMap
    split
    · exact (h.rememberAll _).retainOnly _
    · exact h
  | listenerDisconnected => exact nofun
  | policyChanged =>
    obtain ⟨_, hbind⟩ := updateBinding_eq x v s
    dsimp only [handle]
    rw [hbind]
    exact convergeAll_keyed h
  | posted n =>
    dsimp only [handle, handlePosted]
    split
    · exact h.remember n.platformKey
    · exact h
  | removed key =>
    dsimp only [handle, handleRemoved]
    split <;> exact h.forgetKey key
  | inbound _ control =>
    dsimp only [handle, handleInbound]
    split
    · exact h
    · next t _ =>
      cases control with
      | roles =>
        dsimp only
        split
        · exact h
        · rw [put_idMap]
          exact converge_keyed h _ _
      | dismiss id origin =>
        dsimp only
        split
        · rw [answer_idMap]
          exact h
        · exact handleDismiss_keyed h t id origin
      | upsert id | remove id =>
        rw [answer_idMap]
        exact h
      | _ => exact h

end Keyed

namespace Source

variable [DecidableEq Peer] {x : Device} {v : View Peer} {s : Source Peer} {peer : Peer}
  {id : List UInt8} {origin : Chars} {t : Session Peer}

structure Passes (x : Device) (policy : NotificationPolicy) (sourcing : Bool) (id : List UInt8)
    (origin : Chars) : Prop where
  granted : policy ≠ .DENIED
  width : id.length = NOTIFICATION_ID_LENGTH
  device : isDeviceId origin
  role : sourcing
  mirror : policy.allowMirror
  dismiss : policy.allowDismissSync
  origin : origin = x.localDeviceId

omit [DecidableEq Peer] in
theorem ite_some_eq_none {α : Type} {c : Prop} [Decidable c] {a : α} {b} :
    (if c then some a else b) = none ↔ ¬c ∧ b = none := by
  by_cases hc : c <;> simp [hc]

instance (x : Device) (policy : NotificationPolicy) (sourcing : Bool) (id : List UInt8)
    (origin : Chars) : Decidable (Passes x policy sourcing id origin) :=
  decidable_of_iff (policy ≠ .DENIED ∧ id.length = NOTIFICATION_ID_LENGTH ∧ isDeviceId origin ∧
      sourcing ∧ policy.allowMirror ∧ policy.allowDismissSync ∧ origin = x.localDeviceId)
    ⟨fun ⟨a, b, c, d, e, f, g⟩ => ⟨a, b, c, d, e, f, g⟩, fun ⟨a, b, c, d, e, f, g⟩ =>
      ⟨a, b, c, d, e, f, g⟩⟩

theorem screenDismiss_eq_none {policy : NotificationPolicy} {sourcing : Bool}
    (hwidth : id.length = NOTIFICATION_ID_LENGTH) :
    screenDismiss x origin policy sourcing = none ↔ Passes x policy sourcing id origin := by
  have hgates : screenDismiss x origin policy sourcing = none ↔ isDeviceId origin ∧
      policy ≠ .DENIED ∧ sourcing ∧ (policy.allowMirror ∧ policy.allowDismissSync) ∧
      origin = x.localDeviceId := by
    simp only [screenDismiss, ite_some_eq_none, Bool.not_eq_true', Bool.or_eq_true, not_or,
      Bool.not_eq_false, not_not, and_true, ne_eq]
  rw [hgates]
  constructor
  · rintro ⟨hdev, hgrant, hrole, ⟨hmir, hdism⟩, horig⟩
    exact ⟨hgrant, hwidth, hdev, hrole, hmir, hdism, horig⟩
  · rintro ⟨hgrant, -, hdev, hrole, hmir, hdism, horig⟩
    exact ⟨hdev, hgrant, hrole, ⟨hmir, hdism⟩, horig⟩

def target (v : View Peer) (id : List UInt8) (s : Source Peer) : Option PlatformNotification :=
  (s.idMap.platformKey id).bind (fun key =>
    v.active.bind (fun active => active.find? (·.platformKey = key)))

def Dismissible (n : PlatformNotification) : Prop := n.clearable ∧ n.ongoing = false

instance (n : PlatformNotification) : Decidable (Dismissible n) :=
  inferInstanceAs (Decidable (_ ∧ _))

def verdict (v : View Peer) (id : List UInt8) (s : Source Peer) : NotificationOutcome :=
  match s.target v id with
  | none => .UNKNOWN_NOTIFICATION
  | some n =>
    if Dismissible n then if v.cancels then .REMOVED else .FAILED
    else .NOT_DISMISSIBLE

theorem decideClearable_some (n : PlatformNotification) :
    decideClearable (some n) = if Dismissible n then .REMOVED else .NOT_DISMISSIBLE := by
  dsimp only [decideClearable]
  cases hclear : n.clearable with
  | true =>
    cases hong : n.ongoing with
    | true => simp [Dismissible, hong]
    | false => simp [Dismissible, hclear, hong]
  | false => simp [Dismissible, hclear]

theorem put_cancels (u : Session Peer) (s : Source Peer) : (s.put u).cancels = s.cancels := by
  unfold put
  split <;> rfl

theorem answer_cancels (outcome : NotificationOutcome) (t) (s : Source Peer) :
    (s.answer v id outcome t).cancels = s.cancels := by
  unfold answer
  split
  · rfl
  · exact put_cancels _ _

theorem answer_find (ht : s.find peer = some t) (outcome : NotificationOutcome) :
    (s.answer v id outcome t).find peer = some (if id.length = NOTIFICATION_ID_LENGTH then t.emit
      (v.alive t.sender) (.result id outcome) else t) := by
  obtain ⟨hpeer, -⟩ := Prod.mk.inj (t.emit_continues (v.alive t.sender) (.result id outcome)).ends
  unfold answer
  by_cases hwidth : id.length = NOTIFICATION_ID_LENGTH
  · rw [if_neg (not_not.mpr hwidth), if_pos hwidth, find_put, if_pos (hpeer.trans (find_peer ht))]
  · rw [if_pos hwidth, if_neg hwidth, ht]

theorem handleDismiss_of_passes (hpass : Passes x (v.policyFor t.peer) (s.isSourcing x) id origin) :
    ∃ u : Source Peer, u.sessions = s.sessions ∧
      u.cancels = s.cancels ++ ((s.target v id).filter (fun n => decide (Dismissible n))).toList.map
      (fun n => ⟨t.peer, id, n.platformKey⟩) ∧ s.handleDismiss x v t id origin = u.answer v id
      (s.verdict v id) t := by
  have hscr := (screenDismiss_eq_none hpass.width).mpr hpass
  have hlist : (!s.listenerControl) = false := by
    have hrole := hpass.role
    simp only [isSourcing, Bool.and_eq_true] at hrole
    simpa using hrole.1.1.1
  unfold handleDismiss verdict target
  rw [if_neg (not_not.mpr hpass.width), hscr]
  cases hkey : s.idMap.platformKey id with
  | none => exact ⟨s, rfl, by simp, rfl⟩
  | some key =>
    dsimp only [bind_some]
    rw [hlist]
    cases hcurr : v.active.bind (fun active => active.find? (·.platformKey = key)) with
    | none => exact ⟨{ s with idMap := s.idMap.forgetKey key }, rfl, by simp, rfl⟩
    | some n =>
      have hname : n.platformKey = key := by
        obtain ⟨_, -, hfind⟩ := bind_eq_some_iff.mp hcurr
        simpa using find?_some hfind
      rw [decideClearable_some]
      by_cases hn : Dismissible n
      · cases v.cancels with
        | true =>
          refine ⟨{ s with
            echo := EchoSuppression.arm v.now id t.peer s.echo
            cancels := s.cancels ++ [⟨t.peer, id, key⟩] }, rfl,
              by simp [Option.filter, hn, hname], ?_⟩
          simp [hn]
        | false =>
          refine ⟨{ s with
            echo := Linked.remove id (EchoSuppression.arm v.now id t.peer s.echo)
            cancels := s.cancels ++ [⟨t.peer, id, key⟩] }, rfl,
              by simp [Option.filter, hn, hname], ?_⟩
          simp [hn]
      · refine ⟨s, rfl, by simp [hn], ?_⟩
        simp [hn]

theorem dismiss_of_passes (ht : s.find peer = some t)
    (hpass : Passes x (v.policyFor peer) (s.isSourcing x) id origin) :
    (s.handleInbound x v peer (.dismiss id origin)).find peer =
      some (t.emit (v.alive t.sender) (.result id (s.verdict v id))) ∧
      (s.handleInbound x v peer (.dismiss id origin)).cancels = s.cancels ++
      ((s.target v id).filter (fun n => decide (Dismissible n))).toList.map
      (fun n => ⟨peer, id, n.platformKey⟩) := by
  have hpeer := find_peer ht
  have hinb : s.handleInbound x v peer (.dismiss id origin) = s.handleDismiss x v t id origin := by
    unfold handleInbound
    rw [ht]
    dsimp only
    rw [if_neg hpass.granted]
  rw [← hpeer] at hpass
  obtain ⟨u, hsess, hcanc, heq⟩ := handleDismiss_of_passes hpass
  have hfind : u.find peer = some t := by
    unfold find
    rw [hsess]
    exact ht
  rw [hinb, heq, answer_find hfind, answer_cancels, if_pos hpass.width, hcanc, hpeer]
  exact ⟨rfl, rfl⟩

theorem dismiss_of_not_passes (ht : s.find peer = some t)
    (hfail : ¬Passes x (v.policyFor t.peer) (s.isSourcing x) id origin) :
    ∃ outcome, ∀ m active, (handleInbound x { v with active := active } peer (.dismiss id origin)
      { s with idMap := m }).find peer = some (if id.length = NOTIFICATION_ID_LENGTH then t.emit
      (v.alive t.sender) (.result id outcome) else t) ∧
      (handleInbound x { v with active := active } peer (.dismiss id origin) { s with
      idMap := m }).cancels = s.cancels := by
  have hfind (m : SourceIdMap) : ({ s with idMap := m } : Source Peer).find peer = some t := ht
  have hansw (outcome : NotificationOutcome) (m : SourceIdMap) (w : View Peer)
      (hw : w.alive = v.alive) :
      (answer w id outcome t { s with idMap := m }).find peer =
        some (if id.length = NOTIFICATION_ID_LENGTH then t.emit (v.alive t.sender)
        (.result id outcome) else t) ∧ (answer w id outcome t { s with idMap := m }).cancels =
        s.cancels := by
    rw [answer_find (hfind m), answer_cancels, hw]
    exact ⟨rfl, rfl⟩
  by_cases hden : v.policyFor peer = .DENIED
  · refine ⟨.NOT_AUTHORIZED, fun m active => ?_⟩
    unfold handleInbound
    rw [hfind m]
    dsimp only
    rw [if_pos hden]
    exact hansw _ m _ rfl
  · by_cases hwidth : id.length = NOTIFICATION_ID_LENGTH
    · cases hscr : screenDismiss x origin (v.policyFor t.peer) (s.isSourcing x) with
      | none => exact absurd ((screenDismiss_eq_none hwidth).mp hscr) hfail
      | some outcome =>
        refine ⟨outcome, fun m active => ?_⟩
        have hsame : screenDismiss x origin (v.policyFor t.peer)
            (isSourcing x ({ s with idMap := m } : Source Peer)) = some outcome := hscr
        unfold handleInbound
        rw [hfind m]
        dsimp only
        rw [if_neg hden]
        unfold handleDismiss
        rw [if_neg (not_not.mpr hwidth)]
        rw [hsame]
        exact hansw _ m _ rfl
    · refine ⟨.INVALID, fun m active => ?_⟩
      unfold handleInbound
      rw [hfind m]
      dsimp only
      rw [if_neg hden]
      unfold handleDismiss
      rw [if_pos hwidth, if_neg hwidth]
      exact ⟨hfind m, rfl⟩

theorem handle_cancels (x : Device) (v) (s : Source Peer) {e}
    (he : ∀ peer id origin, e ≠ .inbound peer (.dismiss id origin)) :
    (s.handle x v e).cancels = s.cancels := by
  have hbind (u : Source Peer) : (u.updateBinding x v).cancels = u.cancels := by
    obtain ⟨_, hbind⟩ := updateBinding_eq x v u
    rw [hbind]
  cases e with
  | sessionAttached =>
    dsimp only [handle]
    rw [put_cancels]
    exact (hbind _).trans (put_cancels _ _)
  | sessionDetached | policyChanged => exact hbind _
  | listenerConnected =>
    obtain ⟨m, hreb, -⟩ := rebuildIdMap_eq (x := x) (v := v)
      (updateBinding x v { s with listenerConnected := true })
    dsimp only [handle]
    rw [hreb]
    exact hbind _
  | listenerDisconnected => rfl
  | posted =>
    dsimp only [handle, handlePosted]
    split <;> rfl
  | removed =>
    dsimp only [handle, handleRemoved]
    split <;> rfl
  | inbound peer control =>
    dsimp only [handle, handleInbound]
    split
    · rfl
    cases control with
    | roles =>
      dsimp only
      split
      · rfl
      · exact put_cancels _ _
    | dismiss id origin => exact absurd rfl (he peer id origin)
    | upsert id | remove id => exact answer_cancels _ _ _
    | _ => rfl

end Source

def Message.upserts (id : List UInt8) : Message → Bool
  | .upsert i _ _ _ => i = id
  | _ => false

theorem upserts_of_held {id : List UInt8} {log : List Message} {m}
    (h : id ∈ (log.foldl Mirror.apply m).held) : id ∈ m.held ∨ ∃ k ∈ log, k.upserts id := by
  induction log generalizing m with
  | nil => exact .inl h
  | cons k _ ih =>
    rcases ih h with hheld | ⟨j, hj, hup⟩
    · cases k with
      | upsert =>
        rcases mem_cons.mp hheld with rfl | hold
        · exact .inr ⟨_, mem_cons_self, by simp [Message.upserts]⟩
        · exact .inl hold
      | remove => exact .inl (mem_of_mem_filter hheld)
      | roles =>
        dsimp only [Mirror.apply] at hheld
        split at hheld
        · exact .inl hheld
        · cases hheld
      | syncBegin | result => exact .inl hheld
      | syncEnd =>
        dsimp only [Mirror.apply] at hheld
        split at hheld
        · exact .inl hheld
        · exact .inl (mem_of_mem_filter hheld)
    · exact .inr ⟨j, mem_cons_of_mem k hj, hup⟩

def SourceIdMap.withoutId (id : List UInt8) (m : SourceIdMap) : SourceIdMap :=
  ⟨Linked.remove id m.byId, m.byKey.filter (·.2 ≠ id)⟩

namespace Phone

variable [DecidableEq Peer]

def without (x : Device) (id : List UInt8) (s : Phone Peer) : Phone Peer :=
  { s with
    shade := s.shade.filter (fun n => x.derive n.platformKey ≠ id)
    source := { s.source with idMap := s.source.idMap.withoutId id } }

def logOf (peer : Peer) (s : Phone Peer) : List Message := ((s.source.find peer).map log).getD []

def handling (s : Phone Peer) : Action Peer → Option (NotificationEvent Peer)
  | .handle _ => s.batch.head?
  | _ => none

end Phone

/-- The phone, and everything it has sent to each computer over all its sessions. -/
structure Watched (Peer : Type) where
  phone : Phone Peer := {}
  told : Peer → List Message := fun _ => []

namespace Watched

variable [DecidableEq Peer]

def emitted (peer : Peer) (s t : Phone Peer) : Option (NotificationEvent Peer) → List Message
  | none => []
  | some (.sessionAttached p _) =>
    if p = peer then t.logOf peer else (t.logOf peer).drop (s.logOf peer).length
  | some _ => (t.logOf peer).drop (s.logOf peer).length

def step (x : Device) (w : Watched Peer) (a : Action Peer) : Option (Watched Peer) :=
  (w.phone.step x a).map (fun t =>
    ⟨t, fun peer => w.told peer ++ emitted peer w.phone t (w.phone.handling a)⟩)

def heldBy (peer : Peer) (w : Watched Peer) : List (List UInt8) :=
  ((w.told peer).foldl Mirror.apply {}).held

/-- A cancel in this step is for a notification that the computer which asked for
it holds and may still see, and a request for an id never sent to a computer is
answered as on a phone that has no such notification. -/
structure Confined (x : Device) (w : Watched Peer) (a : Action Peer) : Prop where
  cancels : ∀ t ∈ w.phone.step x a, ∀ cancel ∈ t.source.cancels.drop w.phone.source.cancels.length,
    x.derive cancel.platformKey ∈ w.heldBy cancel.peer ∧
      ∃ n ∈ w.phone.shade.find? (·.platformKey = cancel.platformKey),
        decideForPeer n (w.phone.policies cancel.peer) false = .allow
  answers : ∀ peer id origin, w.phone.handling a = some (.inbound peer (.dismiss id origin)) →
    (∀ m ∈ w.told peer, m.upserts id = false) →
    (w.phone.step x a).map (logOf peer) = ((w.phone.without x id).step x a).map (logOf peer)

/-- A request that passes the gates for a notification on the shade comes from a
computer that was sent it and, if it can be cleared, still holds it and may see it. -/
def Entitled (x : Device) (w : Watched Peer) : Action Peer → Prop
  | .handle c => ∀ e ∈ w.phone.batch.head?,
    match e with
    | .inbound peer (.dismiss id origin) => ∀ t ∈ w.phone.source.find peer,
      Passes x (w.phone.policies peer) (w.phone.source.isSourcing x) id origin →
      ∀ n ∈ w.phone.source.target (w.phone.view c) id,
        if Dismissible n then
          id ∈ w.heldBy peer ∧ decideForPeer n (w.phone.policies peer) false = .allow
        else (∃ m ∈ w.told peer, m.upserts id) ∨ t.sender ∈ w.phone.closed
    | _ => True
  | _ => True

variable {x : Device} {w : Watched Peer} {id : List UInt8} {s : Phone Peer} {a : Action Peer}
  {rest : List (NotificationEvent Peer)}

theorem confined_of_cancels
    (hcanc : ∀ t ∈ w.phone.step x a, t.source.cancels = w.phone.source.cancels)
    (hhand : ∀ peer id origin, w.phone.handling a ≠ some (.inbound peer (.dismiss id origin))) :
    Confined x w a := by
  constructor
  · intro t ht _ hc
    rw [hcanc t ht, drop_length] at hc
    cases hc
  · exact fun peer id origin h => absurd h (hhand peer id origin)

theorem step_cancels {t} (hstep : s.step x a = some t) (hhandle : ∀ c, a ≠ .handle c) :
    t.source.cancels = s.source.cancels := by
  cases a with
  | drain =>
    simp only [Phone.step] at hstep
    split at hstep
    · cases hstep
      rfl
    · cases hstep
  | handle c => exact absurd rfl (hhandle c)
  | _ =>
    cases hstep
    cases he : s.event _ <;> rfl

section

omit [DecidableEq Peer]

theorem target_without (v : View Peer) (id) (s : Source Peer) :
    ({ s with idMap := s.idMap.withoutId id } : Source Peer).target v id = none := by
  unfold target platformKey withoutId
  rw [Linked.get_remove_self]
  rfl

theorem emit_log_eq {t : Session Peer} {alive : Bool} {a b} :
    (t.emit alive (.result id a)).log = (t.emit alive (.result id b)).log ↔ a = b ∨
      alive = false := by
  cases alive with
  | _ => simp [emit]

theorem mem_target {c n} (hkeyed : s.source.idMap.Keyed x)
    (hn : n ∈ s.source.target (s.view c) id) :
    x.derive n.platformKey = id ∧ s.shade.find? (·.platformKey = n.platformKey) = some n := by
  obtain ⟨key, hkey, hact⟩ := bind_eq_some_iff.mp hn
  obtain ⟨active, hview, hfind⟩ := bind_eq_some_iff.mp hact
  obtain rfl : n.platformKey = key := by simpa using find?_some hfind
  refine ⟨hkeyed.derive hkey, ?_⟩
  cases hbound : s.bound with
  | false => simp [view, hbound] at hview
  | true =>
    obtain rfl : s.shade = active := by simpa [view, hbound] using hview
    exact hfind

end

theorem step_handle {e} (hbat : s.batch = e :: rest) (c : Bool) :
    s.step x (.handle c) = some { s with
      batch := rest, source := s.source.handle x (s.view c) e } := by
  simp only [Phone.step]
  rw [hbat]

variable {origin : Chars} {peer : Peer}

theorem confined_iff_of_batch (hbat : w.phone.batch = .inbound peer (.dismiss id origin) :: rest)
    (c : Bool) :
    Confined x w (.handle c) ↔
      (∀ cancel ∈ (w.phone.source.handleInbound x (w.phone.view c) peer
      (.dismiss id origin)).cancels.drop w.phone.source.cancels.length,
      x.derive cancel.platformKey ∈ w.heldBy cancel.peer ∧
      ∃ n ∈ w.phone.shade.find? (·.platformKey = cancel.platformKey),
      decideForPeer n (w.phone.policies cancel.peer) false = .allow) ∧
      ((∀ m ∈ w.told peer, m.upserts id = false) →
      (((w.phone.source.handleInbound x (w.phone.view c) peer (.dismiss id origin)).find peer).map
      log).getD [] = ((((w.phone.without x id).source.handleInbound x
      ((w.phone.without x id).view c) peer (.dismiss id origin)).find peer).map log).getD []) := by
  have hstep := step_handle (x := x) hbat c
  have hstep' := step_handle (x := x) (s := w.phone.without x id) hbat c
  have hhand : w.phone.handling (.handle c) = some (.inbound peer (.dismiss id origin)) := by
    simp [handling, hbat]
  constructor
  · intro h
    refine ⟨h.cancels _ hstep, fun hnever => ?_⟩
    have hlogs := h.answers peer id origin hhand hnever
    rw [hstep, hstep'] at hlogs
    exact some.inj hlogs
  · rintro ⟨hcanc, hlogs⟩
    constructor
    · intro t ht
      rw [hstep] at ht
      cases ht
      exact hcanc
    · intro p i o h hnever
      rw [hhand] at h
      obtain ⟨rfl, hcont⟩ := NotificationEvent.inbound.inj (some.inj h)
      obtain ⟨rfl, -⟩ := Control.dismiss.inj hcont
      rw [hstep, hstep']
      exact congrArg some (hlogs hnever)

theorem confined_iff_of_dismiss (hkeyed : w.phone.source.idMap.Keyed x)
    (hbat : w.phone.batch = .inbound peer (.dismiss id origin) :: rest) (c : Bool) :
    Confined x w (.handle c) ↔ Entitled x w (.handle c) := by
  have hent : Entitled x w (.handle c) ↔ ∀ t ∈ w.phone.source.find peer,
      Passes x (w.phone.policies peer) (w.phone.source.isSourcing x) id origin →
      ∀ n ∈ w.phone.source.target (w.phone.view c) id,
        if Dismissible n then
          id ∈ w.heldBy peer ∧ decideForPeer n (w.phone.policies peer) false = .allow
        else (∃ m ∈ w.told peer, m.upserts id) ∨ t.sender ∈ w.phone.closed := by
    simp [Entitled, hbat]
  rw [confined_iff_of_batch hbat, hent]
  cases hfind : w.phone.source.find peer with
  | none =>
    -- without a session nothing happens
    have hnone (s : Source Peer) (v : View Peer) (hs : s.find peer = none) :
        s.handleInbound x v peer (.dismiss id origin) = s := by
      unfold handleInbound
      rw [hs]
    rw [hnone _ _ hfind, hnone _ _ (show (w.phone.without x id).source.find peer = none from hfind)]
    simp only [drop_length, mem_def]
    exact iff_of_true ⟨nofun, fun _ => rfl⟩ nofun
  | some t =>
    have hpeer := find_peer hfind
    by_cases hpass : Passes x (w.phone.policies peer) (w.phone.source.isSourcing x) id origin
    · obtain ⟨hlog, hcanc⟩ := dismiss_of_passes (v := w.phone.view c) hfind hpass
      obtain ⟨hlog', -⟩ := dismiss_of_passes (s := (w.phone.without x id).source)
        (v := (w.phone.without x id).view c) hfind hpass
      have hunkn : (w.phone.without x id).source.verdict ((w.phone.without x id).view c) id =
          .UNKNOWN_NOTIFICATION := by
        unfold verdict
        rw [show (w.phone.without x id).source.target ((w.phone.without x id).view c) id = none from
          target_without _ id w.phone.source]
      have halive : (w.phone.view c).alive t.sender = false ↔ t.sender ∈ w.phone.closed :=
        by simp [view]
      rw [hlog, hlog', hunkn, hcanc, drop_left]
      simp only [map_some, getD_some]
      rw [show ((w.phone.without x id).view c).alive =
        (w.phone.view c).alive from rfl, emit_log_eq, halive]
      cases htgt : w.phone.source.target (w.phone.view c) id with
      | none => simp [verdict, htgt]
      | some n =>
        obtain ⟨hder, hshade⟩ := mem_target hkeyed htgt
        have hheld : id ∈ w.heldBy peer → ¬∀ m ∈ w.told peer, m.upserts id = false := by
          intro hid hnever
          rcases upserts_of_held hid with hnone | ⟨m, hm, hup⟩
          · cases hnone
          · rw [hnever m hm] at hup
            cases hup
        by_cases hn : Dismissible n
        · -- the cancel goes out, and a holder of the id was sent it
          have hnew : ((some n).filter (fun n => decide (Dismissible n))).toList.map
              (fun n => (⟨peer, id, n.platformKey⟩ : Cancel Peer)) =
                [⟨peer, id, n.platformKey⟩] := by
            simp [hn]
          rw [hnew]
          constructor
          · rintro ⟨hcancel, -⟩ u _ - k hk
            cases hk
            obtain ⟨hid, m, hm, hall⟩ := hcancel _ (mem_singleton_self _)
            rw [hshade] at hm
            cases hm
            rw [if_pos hn]
            rw [hder] at hid
            exact ⟨hid, hall⟩
          · intro h
            have hok := h t rfl hpass n rfl
            rw [if_pos hn] at hok
            refine ⟨?_, fun hnever => absurd hnever (hheld hok.1)⟩
            intro _ hc
            obtain rfl := mem_singleton.mp hc
            exact ⟨by rw [hder]; exact hok.1, n, hshade, hok.2⟩
        · have hnew : ((some n).filter (fun n => decide (Dismissible n))).toList.map
              (fun n => (⟨peer, id, n.platformKey⟩ : Cancel Peer)) = [] := by
            simp [hn]
          have hverd : w.phone.source.verdict (w.phone.view c) id = .NOT_DISMISSIBLE := by
            simp [verdict, htgt, hn]
          rw [hnew, hverd]
          constructor
          · rintro ⟨-, hansw⟩ u hu - k hk
            cases hk
            cases hu
            rw [if_neg hn]
            by_cases hnever : ∀ m ∈ w.told peer, m.upserts id = false
            · exact .inr ((hansw hnever).resolve_left nofun)
            · refine .inl ?_
              simpa using hnever
          · intro h
            have hok := h t rfl hpass n rfl
            rw [if_neg hn] at hok
            refine ⟨nofun, fun hnever => ?_⟩
            rcases hok with ⟨m, hm, hup⟩ | hcl
            · rw [hnever m hm] at hup
              cases hup
            · exact .inr hcl
    · -- the answer is given before the id is looked up
      obtain ⟨_, hansw⟩ := dismiss_of_not_passes (v := w.phone.view c) hfind
        (by rw [hpeer]; exact hpass)
      obtain ⟨hlog, hcanc⟩ := hansw w.phone.source.idMap (w.phone.view c).active
      obtain ⟨hlog', -⟩ := hansw (w.phone.source.idMap.withoutId id)
        ((w.phone.without x id).view c).active
      refine iff_of_true ⟨?_, ?_⟩ (fun _ _ h => absurd h hpass)
      · have hdrop : (w.phone.source.handleInbound x (w.phone.view c) peer
            (.dismiss id origin)).cancels = w.phone.source.cancels := hcanc
        rw [hdrop, drop_length]
        exact nofun
      · intro _
        have hsame := hlog.trans hlog'.symm
        exact congrArg (fun u => (u.map log).getD []) hsame

theorem confined_iff_entitled (hkeyed : w.phone.source.idMap.Keyed x) (a : Action Peer) :
    Confined x w a ↔ Entitled x w a := by
  cases a with
  | handle c =>
    cases hbat : w.phone.batch with
    | nil =>
      refine iff_of_true (confined_of_cancels ?_ ?_) ?_
      · intro t ht
        simp [Phone.step, hbat] at ht
      · simp [Phone.handling, hbat]
      · simp [Entitled, hbat]
    | cons e =>
      by_cases hdism : ∃ peer id origin, e = .inbound peer (.dismiss id origin)
      · obtain ⟨_, _, _, rfl⟩ := hdism
        exact confined_iff_of_dismiss hkeyed hbat c
      have hne (peer : Peer) (id : List UInt8) (origin : Chars) :
          e ≠ .inbound peer (.dismiss id origin) :=
        fun h => hdism ⟨peer, id, origin, h⟩
      refine iff_of_true (confined_of_cancels ?_ ?_) ?_
      · intro t ht
        rw [step_handle hbat c] at ht
        cases ht
        exact handle_cancels x _ _ hne
      · intro peer id origin h
        refine hne peer id origin ?_
        simpa [Phone.handling, hbat] using h
      · intro k hk
        rw [hbat] at hk
        cases hk
        split
        · next peer id origin => exact absurd rfl (hne peer id origin)
        · trivial
  | _ =>
    refine iff_of_true (confined_of_cancels ?_ ?_) trivial
    · exact fun t ht => step_cancels ht (by simp)
    · simp [Phone.handling]

theorem step_keyed {t} (h : w.phone.source.idMap.Keyed x) (hstep : w.step x a = some t) :
    t.phone.source.idMap.Keyed x := by
  obtain ⟨s, hs, rfl⟩ := map_eq_some_iff.mp hstep
  cases a with
  | drain =>
    simp only [Phone.step] at hs
    split at hs
    · cases hs
      exact h
    · cases hs
  | handle =>
    simp only [Phone.step] at hs
    split at hs
    · cases hs
    · cases hs
      exact handle_keyed h _
  | _ =>
    cases hs
    cases he : w.phone.event _ <;> exact h

/-- The dismissals of a run are confined to what the computers were shown exactly
where the computers ask for nothing else. -/
theorem dismissals_confined_iff (x : Device) (as : List (Action Peer)) :
    Meets (step x) (Confined x) {} as ↔ Meets (step x) (Entitled x) {} as :=
  meets_congr (step x) (fun w => w.phone.source.idMap.Keyed x)
    (fun _ _ _ hw hstep => step_keyed hw hstep) (fun _ a hw => confined_iff_entitled hw a)
    nofun

def twoComputers : List (Action Nat) :=
  [.setPolicy 0 { allowedApps := {"app"}, allowDismissSync := true },
    .setPolicy 1 { allowedApps := {"chat"}, allowDismissSync := true },
    .attachSession 0 1, .attachSession 1 2, .createService, .connectListener,
    .receive 0 (.roles [.SINK] 1), .receive 1 (.roles [.SINK] 1), .drain,
    .handle true, .handle true, .handle true, .handle true, .handle true, .handle true,
    .handle true]

def appPost : List (Action Nat) :=
  [.post { platformKey := "notification-001", packageName := "app" }, .drain, .handle true]

def foreignRequest : List (Action Nat) :=
  [.receive 1 (.dismiss (Phone.sampleDevice.derive "notification-001")
    Phone.sampleDevice.localDeviceId), .drain]

/-- The notification is cancelled for a computer that never saw it, and the answer
tells that computer that it was there. -/
theorem unseen_notification_dismissed :
    ¬Meets (step sampleDevice) (Confined sampleDevice) {}
      (twoComputers ++ appPost ++ foreignRequest ++ [.handle true]) ∧
      (run (step sampleDevice) {} (twoComputers ++ appPost ++ foreignRequest ++ [.handle true])).map
      (fun w => (w.told 1).getLast?) =
      some (some (.result (Phone.sampleDevice.derive "notification-001") .REMOVED)) ∧
      (run (step sampleDevice) {} (twoComputers ++ foreignRequest ++ [.handle true])).map
      (fun w => (w.told 1).getLast?) =
      some (some (.result (Phone.sampleDevice.derive "notification-001")
      .UNKNOWN_NOTIFICATION)) := by
  refine ⟨?_, by decide +kernel, by decide +kernel⟩
  intro h
  have hlast := (h.last (step sampleDevice) rfl).cancels _ rfl
    ⟨1, Phone.sampleDevice.derive "notification-001", "notification-001"⟩ (by decide +kernel)
  exact absurd hlast.1 (by decide +kernel)

end Watched

end OmniBridge.Notifications
