import OmniBridge.SinkServer
import OmniBridge.SinkDismissals

/-! Close signals. The notification server says which of its notifications were
closed; a signal is looked up in one peer's table after the other, while the workers
display, replace and close, and while the server may be replaced by another one that
counts from the start. -/

namespace OmniBridge.Sink

open List Option MirrorTable Function Slot Server

variable {P Id : Type} [LinearOrder Id] [DecidableEq P]

/-- All peers beside one notification server. `stale` says that the server was
replaced and the peer's table has not heard of it. `signals`, `found`, `asked` and
`answered` are the history: the close signals, which of them found which close of
which peer, and what `maybe_request_dismissal` was told about each close. -/
structure Platform (P Id : Type) [LinearOrder Id] where
  server : Server P Id := {}
  slots : P → Slot Id := fun _ => {}
  known : List P := []
  stale : P → Bool := fun _ => false
  signals : List (Signal P Id) := []
  found : List (Nat × P × Nat) := []
  asked : List (P × Nat × NotificationPolicy) := []
  answered : List (P × Nat × Bool × Bool) := []

inductive PlatformMove (P Id : Type) where
  | join (p : P)
  | slot (p : P) (a : Action Id)
  | signal (n : ServerId) (reason : CloseReason) (genuine : Bool)
  | lookUp
  | restart
  | back (p : P)

namespace Platform

section

variable (s : Platform P Id)

def withSlot (p : P) (t : Slot Id) : Platform P Id :=
  { s with slots := update s.slots p t }

def serverAfter (p : P) : Action Id → Option (Server P Id)
  | .work e =>
    match (s.slots p).task with
    | .displaying incoming _ replaces => s.server.answers p incoming.id replaces e.shown
    | .redisplaying id _ r _ => s.server.answers p id (some r) e.shown
    | .closing (n :: _) _ _ => some (s.server.close n)
    | _ => some s.server
  | _ => some s.server

def askedAfter (p : P) : Action Id → List (P × Nat × NotificationPolicy)
  | .askPolicy policy => s.asked ++ ((s.slots p).asking.map (fun a => (p, a.mark, policy))).toList
  | _ => s.asked

def answeredAfter (p : P) : Action Id → List (P × Nat × Bool × Bool)
  | .askRoles =>
    s.answered ++ ((s.slots p).asking.map (fun a =>
      (p, a.mark, (s.slots p).state.peerRoles.has .dismissTarget,
        (s.slots p).state.localRoles.hasAnnounced .dismissReporter))).toList
  | _ => s.answered

def step (x : Texts) (s : Platform P Id) : PlatformMove P Id → Option (Platform P Id)
  | .join p => if p ∈ s.known then none else some { s with known := s.known ++ [p] }
  | .slot p a =>
    if p ∈ s.known ∧ Desk.losesMirrors a = false then
      (s.serverAfter p a).bind (fun server =>
        ((s.slots p).step x a).map (fun t =>
          { s.withSlot p t with
            server := server
            asked := s.askedAfter p a
            answered := s.answeredAfter p a }))
    else none
  -- one signal after the other, each until `note_closed` has returned
  | .signal n reason genuine =>
    if s.server.lookup = none ∧ (∀ p ∈ s.known, (s.slots p).asking = none) ∧
        (genuine → (s.server.shows n).isSome) then
      some { s with
        server := s.server.emit n reason genuine s.known
        signals := s.signals ++ [⟨n, reason, if genuine then s.server.shows n else none⟩] }
    else none
  | .lookUp =>
    match s.server.lookup with
    | none => none
    | some (_, []) => some { s with server := s.server.lookedUp none }
    | some (signal, p :: rest) =>
      ((s.slots p).step x (.noteClosed signal.serverId signal.reason)).map (fun t =>
        if ((s.slots p).state.mirrors.forgetServerId signal.serverId).2.isSome then
          { s.withSlot p t with
            server := s.server.lookedUp none
            found := s.found ++ [(s.signals.length - 1, p, (s.slots p).closes.length)] }
        else { s.withSlot p t with server := s.server.lookedUp (some (signal, rest)) })
  | .restart =>
    some { s with server := { lookup := s.server.lookup }, stale := fun p => p ∈ s.known }
  | .back p =>
    if p ∈ s.known then
      ((s.slots p).step x .serverBack).map (fun t =>
        { s.withSlot p t with stale := update s.stale p false })
    else none

theorem withSlot_self (p) (t) : (s.withSlot p t).slots p = t := by
  simp [withSlot]

end

variable {p : P} {id : Id} {x : Texts} {rest : List P} {t : Slot Id} {v : Server P Id}
  {signal : Signal P Id} {s s' : Platform P Id} {m : PlatformMove P Id}

theorem withSlot_of_ne (s : Platform P Id) {q} (h : q ≠ p) (t) :
    (s.withSlot p t).slots q = s.slots q := by
  simp [withSlot, h]

/-- What a peer has of the server is its own, unless it has not heard of a restart. -/
structure Trusted (s : Platform P Id) : Prop where
  ok : s.server.Ok
  fresh : ∀ p ∉ s.known, s.slots p = {} ∧ s.stale p = false
  honest : ∀ p ∈ s.known, s.stale p = false →
    Honest s.server p (s.slots p).state.mirrors (s.slots p).task

section Trusted

variable {s s' : Platform P Id} {p : P}

theorem Trusted.update (hs : Trusted s) {t} (hp : p ∈ s.known) (hknown : s'.known = s.known)
    (hslots : s'.slots = update s.slots p t) (hstale : ∀ q, q ≠ p → s'.stale q = s.stale q)
    (hok : s'.server.Ok)
    (hoth : ∀ q ∈ s.known, q ≠ p → s.stale q = false →
      Honest s'.server q (s.slots q).state.mirrors (s.slots q).task)
    (hown : s'.stale p = false → Honest s'.server p t.state.mirrors t.task) : Trusted s' := by
  have hslot : ∀ q, q ≠ p → s'.slots q = s.slots q := fun q hq => by rw [hslots, update_of_ne hq]
  refine ⟨hok, fun q hq => ?_, fun q hq hst => ?_⟩
  · rw [hknown] at hq
    have hne : q ≠ p := fun heq => hq (heq ▸ hp)
    rw [hslot q hne, hstale q hne]
    exact hs.fresh q hq
  · rw [hknown] at hq
    by_cases hne : q = p
    · subst hne
      rw [hslots, update_self]
      exact hown hst
    · rw [hslot q hne]
      exact hoth q hq hne (hstale q hne ▸ hst)

theorem Trusted.update_slot (hs : Trusted s) {t} (hp : p ∈ s.known) (hknown : s'.known = s.known)
    (hslots : s'.slots = Function.update s.slots p t) (hstale : ∀ q, q ≠ p → s'.stale q = s.stale q)
    (hserv : s'.server = s.server)
    (hown : s'.stale p = false → Honest s.server p t.state.mirrors t.task) : Trusted s' :=
  hs.update hp hknown hslots hstale (hserv ▸ hs.ok) (fun q hq _ hst =>
    hserv ▸ hs.honest q hq hst)
    (fun hst => hserv ▸ hown hst)

end Trusted

/-- A signal is looked up in no table that is stale, and not while the worker has an
answer of that id to record; one that is not genuine names nothing on the screen; the
server is replaced between two signals; a stale worker leaves the server alone; and a
table hears of the new server while its worker is between two items. -/
def Orderly (s : Platform P Id) : PlatformMove P Id → Prop
  | .lookUp => ∀ l ∈ s.server.lookup, ∀ p ∈ l.2.head?, s.stale p = false ∧
      ∀ answer ∈ (s.slots p).task.answer, answer.2 ≠ l.1.serverId
  | .signal n _ genuine => genuine = false → s.server.shows n = none
  | .restart => s.server.lookup = none
  | .slot p (.work _) => s.stale p → Desk.touchesScreen (s.slots p).task = false
  | .back p => (s.slots p).task = .idle
  | _ => True

section Trusted

variable (hs : Trusted s) (hp : p ∈ s.known)
include hs hp

theorem trusted_answer {replaces answer} (hst : s.stale p = false)
    (hv : s.server.answers p id replaces answer = some v)
    (hrepl : ∀ r, replaces = some r → s.server.Handle p id r)
    (hmirr : t.state.mirrors = (s.slots p).state.mirrors)
    (hanswer : t.task.answer = answer.toOption.map (fun n => (id, n)))
    (hhold : Keeps s.server v → TaskHolds v p t.state.mirrors t.task) :
    Trusted { s.withSlot p t with server := v } := by
  obtain ⟨hok, hkeep, hlive, hnew⟩ := answers_keeps hs.ok hrepl hv
  refine hs.update hp rfl rfl (fun _ _ => rfl) hok ?_
    (fun _ => ⟨fun other n hn => ?_, fun other n hn => ?_, hhold hkeep⟩)
  · exact fun q hq _ hq' => (hs.honest q hq hq').keeps hkeep (fun id n _ => hlive q id n)
  · rw [hmirr] at hn
    exact hlive p other n ((hs.honest p hp hst).entries other n hn)
  · rw [hanswer, map_eq_some_iff] at hn
    obtain ⟨m, hm, heq⟩ := hn
    obtain ⟨rfl, rfl⟩ := Prod.mk.inj heq
    cases answer with
    | ok => exact hnew m (congrArg Except.ok (some.inj hm))
    | error => cases hm

theorem trusted_call {e} (hst : s.stale p = false) (hv : s.serverAfter p (.work e) = some v)
    (htouch : Desk.touchesScreen (s.slots p).task) :
    Trusted { s.withSlot p ((s.slots p).proceed x e (s.slots p).task) with server := v } := by
  have hown := hs.honest p hp hst
  unfold serverAfter at hv
  cases htask : (s.slots p).task with
  | displaying incoming presentation =>
    rw [htask] at hv hown
    refine trusted_answer hs hp hst hv hown.holds rfl ?_ (fun _ => trivial)
    change Task.answer (.displayed incoming presentation e.shown) = _
    cases e.shown <;> rfl
  | redisplaying id _ r rest =>
    rw [htask] at hv hown
    refine trusted_answer hs hp hst hv (fun r' hr => some.inj hr ▸ hown.holds.1) rfl ?_
      hown.holds.2.keeps
    change Task.answer (.redisplayed id e.shown rest) = _
    cases e.shown <;> rfl
  | closing serverIds _ rest =>
    cases serverIds with
    | nil =>
      rw [htask] at htouch
      cases htouch
    | cons n serverIds =>
      rw [htask] at hv hown
      cases hv
      have hall : ∀ m ∈ n :: serverIds, Spent s.server p (s.slots p).state.mirrors m := by
        cases rest with
        | done | sweep => exact hown.holds
        | reduce => exact hown.holds.1
      have hspent := hall n mem_cons_self
      refine hs.update hp rfl rfl (fun _ _ => rfl) (close_ok hs.ok n) ?_ (fun _ => ?_)
      · intro q hq hne hq'
        refine (hs.honest q hq hq').keeps (close_keeps n) (fun id m _ hl => ?_)
        refine close_live ?_ hl
        rintro rfl
        exact hne (hspent.2 q id hl).1
      · refine .of_quiet (fun id m hm => ?_) rfl ?_
        · refine close_live ?_ (hown.entries id m hm)
          rintro rfl
          exact (hspent.2 p id (hown.entries id m hm)).2 hm
        · have htail : ∀ m ∈ serverIds, Spent (s.server.close n) p (s.slots p).state.mirrors m :=
            fun m hm => (hall m (mem_cons_of_mem _ hm)).keeps (close_keeps n)
          cases rest with
          | done | sweep => exact htail
          | reduce => exact ⟨htail, hown.holds.2.keeps (close_keeps n)⟩
  | _ =>
    rw [htask] at htouch
    cases htouch

theorem trusted_work {e} (hok : s.Orderly (.slot p (.work e)))
    (hv : s.serverAfter p (.work e) = some v) (h : (s.slots p).step x (.work e) = some t) :
    Trusted { s.withSlot p t with server := v } := by
  -- while the table is stale the worker leaves the server alone
  have hown : s.stale p = false → Honest s.server p (s.slots p).state.mirrors (s.slots p).task :=
    hs.honest p hp
  have hquiet : v = s.server → (s.stale p = false → Honest s.server p t.state.mirrors t.task) →
      Trusted { s.withSlot p t with server := v } :=
    fun heq ht => hs.update_slot hp rfl rfl (fun _ _ => rfl) heq ht
  cases step_cases h with
  | drain e htask =>
    simp only [serverAfter, htask, some.injEq] at hv
    exact hquiet hv.symm hown
  | start e _ rest htask =>
    simp only [serverAfter, htask, some.injEq] at hv
    refine hquiet hv.symm (fun hst => ?_)
    exact start_honest (s := { s.slots p with batch := rest }) hs.ok htask (htask ▸ hown hst)
  | proceed e htask =>
    by_cases htouch : Desk.touchesScreen (s.slots p).task
    · have hst : s.stale p = false := by
        by_contra hstale
        rw [Bool.not_eq_false] at hstale
        rw [hok hstale] at htouch
        cases htouch
      exact trusted_call hs hp hst hv htouch
    · rw [Bool.not_eq_true] at htouch
      have hsame : v = s.server := by
        unfold serverAfter at hv
        dsimp only at hv
        split at hv
        case h_1 | h_2 | h_3 =>
          rename_i heq
          rw [heq] at htouch
          cases htouch
        · exact (some.inj hv).symm
      exact hquiet hsame (fun hst => proceed_honest hs.ok htask htouch (hown hst))

theorem trusted_bystander {a} (ha : Desk.losesMirrors a = false) (hw : ∀ e, a ≠ .work e)
    (h : (s.slots p).step x a = some t) : Trusted (s.withSlot p t) := by
  have htask := (step_worker h hw).1
  have hmirr : t.state.mirrors = (s.slots p).state.mirrors := by
    rcases step_mirrors h hw with heq | ⟨_, _, _, _, rfl, -⟩ | ⟨rfl, -⟩
    · exact heq
    all_goals cases ha
  refine hs.update_slot hp rfl rfl (fun _ _ => rfl) rfl (fun hst => ?_)
  rw [hmirr, htask]
  exact hs.honest p hp hst

omit [DecidableEq P] in
theorem Trusted.owner (hst : s.stale p = false) (hl : s.server.lookup = some (signal, rest))
    (hid : (s.slots p).state.mirrors.shownAs id = some signal.serverId) :
    signal.owner = some (p, id) := by
  rcases (hs.honest p hp hst).entries id _ hid with hshown | ⟨_, _, hl', -, ho, -⟩
  · rw [(hs.ok.gone signal rest hl).1] at hshown
    cases hshown
  · obtain ⟨rfl, -⟩ := Prod.mk.inj (some.inj (hl.symm.trans hl'))
    exact ho

section

variable (hl : s.server.lookup = some (signal, p :: rest)) (hst : s.stale p = false)
  (hanswer : ∀ answer ∈ (s.slots p).task.answer, answer.2 ≠ signal.serverId)
include hl hst hanswer

theorem trusted_found (hid : (s.slots p).state.mirrors.shownAs id = some signal.serverId)
    (hmirr : t.state.mirrors = ((s.slots p).state.mirrors.remove id).1)
    (htask : t.task = (s.slots p).task) (found : List (Nat × P × Nat)) :
    Trusted { s.withSlot p t with server := s.server.lookedUp none, found } := by
  have hown := hs.honest p hp hst
  have hentry := hown.entries id _ hid
  have hnone : ∀ (signal' : Signal P Id) (rest' : List P), none = some (signal', rest') →
      signal' = signal ∧ ∀ q ∈ rest', q ∈ p :: rest := nofun
  have hkeep : Keeps s.server (s.server.lookedUp none) := lookedUp_keeps hl hnone
  -- an id other than the signal's is as alive as before
  have hlive : ∀ q other n, n ≠ signal.serverId → s.server.Live q other n →
      (s.server.lookedUp none).Live q other n :=
    fun q other n hne h => lookedUp_live hl h (fun heq => absurd heq hne)
  refine hs.update hp rfl rfl (fun _ _ => rfl) ?_ ?_ (fun _ => ?_)
  · exact lookedUp_ok hs.ok hl (fun signal' rest' hn => (hnone signal' rest' hn).1)
  · intro q hq hne hq'
    refine (hs.honest q hq hq').keeps hkeep (fun other n _ h => hlive q other n ?_ h)
    rintro rfl
    exact hne (Prod.mk.inj (Server.Live.unique hs.ok hentry h)).1
  · rw [hmirr, htask]
    have hsub : ∀ other n, ((s.slots p).state.mirrors.remove id).1.shownAs other = some n →
        other ≠ id ∧ (s.slots p).state.mirrors.shownAs other = some n := by
      intro other n hn
      by_cases hoid : other = id
      · simp [hoid] at hn
      · exact ⟨hoid, by rwa [shownAs_remove_of_ne hoid] at hn⟩
    refine ⟨fun other n hn => ?_, fun other n hn => ?_, ?_⟩
    · obtain ⟨hoid, hn⟩ := hsub other n hn
      have hl' := hown.entries other n hn
      refine hlive p other n ?_ hl'
      rintro rfl
      exact hoid (Prod.mk.inj (Server.Live.unique hs.ok hentry hl')).2
    · exact hlive p other n (hanswer _ hn) (hown.answer other n hn)
    · exact (taskHolds_subset (fun other n hn => (hsub other n hn).2) hown.holds).keeps hkeep

theorem trusted_missed (hid : ∀ id, (s.slots p).state.mirrors.shownAs id ≠ some signal.serverId) :
    Trusted { s.withSlot p (s.slots p) with
      server := s.server.lookedUp (some (signal, rest)) } := by
  have hown := hs.honest p hp hst
  have hnarr : ∀ signal' rest', some (signal, rest) = some (signal', rest') →
      signal' = signal ∧ ∀ q ∈ rest', q ∈ p :: rest := by
    rintro _ _ ⟨⟩
    exact ⟨rfl, fun q hq => mem_cons_of_mem _ hq⟩
  have hkeep : Keeps s.server (s.server.lookedUp (some (signal, rest))) :=
    lookedUp_keeps hl hnarr
  refine hs.update hp rfl rfl (fun _ _ => rfl) ?_ ?_ (fun _ => ?_)
  · exact lookedUp_ok hs.ok hl (fun signal' rest' hn => (hnarr signal' rest' hn).1)
  · intro q hq hne hq'
    refine (hs.honest q hq hq').keeps hkeep (fun other n _ h =>
      lookedUp_live hl h (fun _ hin => ?_))
    exact ⟨rest, rfl, (mem_cons.mp hin).resolve_left hne⟩
  · refine hown.keeps hkeep (fun other n hn h => lookedUp_live hl h (fun heq => ?_))
    rcases hn with hn | hn
    · exact absurd (heq ▸ hn) (hid other)
    · exact absurd heq (hanswer _ hn)

end

theorem trusted_back (hok : (s.slots p).task = .idle)
    (h : (s.slots p).step x .serverBack = some t) :
    Trusted { s.withSlot p t with stale := Function.update s.stale p false } := by
  cases h
  refine hs.update_slot hp rfl rfl (fun q hq => update_of_ne hq _ _) rfl (fun _ => ?_)
  change Honest s.server p (s.slots p).state.mirrors.invalidateServerIds (s.slots p).task
  rw [hok]
  refine .of_quiet (fun id n hn => ?_) rfl trivial
  obtain ⟨_, hget, hserv'⟩ := shownAs_eq_some.mp hn
  rw [get_invalidateServerIds, map_eq_some_iff] at hget
  obtain ⟨_, -, rfl⟩ := hget
  cases hserv'

end Trusted

inductive Steps (x : Texts) (s : Platform P Id) : PlatformMove P Id → Platform P Id → Prop
  | join (p : P) : p ∉ s.known → Steps x s (.join p) { s with known := s.known ++ [p] }
  | slot (p : P) (a : Action Id) (v : Server P Id) (t : Slot Id) : p ∈ s.known →
    Desk.losesMirrors a = false → s.serverAfter p a = some v → (s.slots p).step x a = some t →
    Steps x s (.slot p a)
        { s.withSlot p t with
          server := v, asked := s.askedAfter p a, answered := s.answeredAfter p a }
  | signal (n : ServerId) (reason : CloseReason) (genuine : Bool) : s.server.lookup = none →
      Steps x s (.signal n reason genuine)
        { s with
          server := s.server.emit n reason genuine s.known
          signals := s.signals ++ [⟨n, reason, if genuine then s.server.shows n else none⟩] }
  | finished (signal : Signal P Id) : s.server.lookup = some (signal, []) →
      Steps x s .lookUp { s with server := s.server.lookedUp none }
  | found (signal : Signal P Id) (p : P) (rest : List P) (id : Id) (entry : MirrorEntry)
    (t : Slot Id) : s.server.lookup = some (signal, p :: rest) →
    (s.slots p).state.mirrors.get id = some entry → entry.serverId = some signal.serverId →
    (s.slots p).step x (.noteClosed signal.serverId signal.reason) = some t →
    t.closes = (s.slots p).closes ++
    [⟨signal.serverId, signal.reason, id, entry.originDeviceId, (s.slots p).outbound⟩] →
    t.state.mirrors = ((s.slots p).state.mirrors.remove id).1 → t.task = (s.slots p).task →
    Steps x s .lookUp
        { s.withSlot p t with
          server := s.server.lookedUp none
          found := s.found ++ [(s.signals.length - 1, p, (s.slots p).closes.length)] }
  | missed (signal : Signal P Id) (p : P) (rest : List P) : s.server.lookup = some (signal,
    p :: rest) → (∀ id, (s.slots p).state.mirrors.shownAs id ≠ some signal.serverId) →
    Steps x s .lookUp
        { s.withSlot p (s.slots p) with server := s.server.lookedUp (some (signal, rest)) }
  | restart : Steps x s .restart
      { s with server := { lookup := s.server.lookup }, stale := fun p => p ∈ s.known }
  | back (p : P) (t : Slot Id) : p ∈ s.known → (s.slots p).step x .serverBack = some t →
      Steps x s (.back p) { s.withSlot p t with stale := update s.stale p false }

theorem lookUp_cases (h : s.step x .lookUp = some s') : Steps x s .lookUp s' := by
  simp only [step] at h
  split at h
  · cases h
  · rename_i signal hl
    cases h
    exact .finished signal hl
  rename_i signal p rest hl
  rw [map_eq_some_iff] at h
  obtain ⟨t, ht, rfl⟩ := h
  cases step_cases ht with
  | noteClosed serverId =>
    rcases (s.slots p).state.mirrors.forgetServerId_cases signal.serverId with ⟨hf, hall⟩ |
      ⟨id, entry, hget, hid, hf⟩
    · rw [noteClosed, hf]
      refine .missed signal p rest hl (fun id hid => ?_)
      obtain ⟨entry, hget, hserv⟩ := shownAs_eq_some.mp hid
      exact hall id entry hget hserv
    rw [hf]
    have ht' := ht
    unfold noteClosed at ht' ⊢
    rw [hf] at ht' ⊢
    exact .found signal p rest id entry _ hl hget hid ht' rfl rfl rfl

theorem step_cases (h : s.step x m = some s') : Steps x s m s' := by
  cases m with
  | lookUp => exact lookUp_cases h
  | join p =>
    simp only [step, ite_none_left_eq_some, some.injEq] at h
    obtain ⟨hp, rfl⟩ := h
    exact .join p hp
  | slot p a =>
    simp only [step, ite_none_right_eq_some, bind_eq_some_iff, map_eq_some_iff] at h
    obtain ⟨⟨hp, ha⟩, v, hv, t, ht, rfl⟩ := h
    exact .slot p a v t hp ha hv ht
  | signal n reason genuine =>
    simp only [step, ite_none_right_eq_some, some.injEq] at h
    obtain ⟨⟨hnone, -⟩, rfl⟩ := h
    exact .signal n reason genuine hnone
  | restart =>
    cases h
    exact .restart
  | back p =>
    simp only [step, ite_none_right_eq_some, map_eq_some_iff] at h
    obtain ⟨hp, t, ht, rfl⟩ := h
    exact .back p t hp ht

def Listed (s : Platform P Id) : Prop :=
  ∀ signal rest, s.server.lookup = some (signal, rest) → ∀ q ∈ rest, q ∈ s.known

omit [DecidableEq P] in
theorem Orderly.head (hok : s.Orderly .lookUp) (hlist : s.Listed)
    (hl : s.server.lookup = some (signal, p :: rest)) :
    p ∈ s.known ∧ s.stale p = false ∧ ∀ answer ∈ (s.slots p).task.answer,
      answer.2 ≠ signal.serverId :=
  ⟨hlist signal _ hl p mem_cons_self, hok _ hl p rfl⟩

theorem step_trusted (hok : s.Orderly m) (h : s.step x m = some s') (hlist : s.Listed)
    (hs : Trusted s) : Trusted s' := by
  cases step_cases h with
  | join p hp =>
    refine ⟨hs.ok, fun q hq => hs.fresh q (fun hq' => hq (mem_append_left _ hq')),
      fun q hq hst => ?_⟩
    rcases mem_append.mp hq with hq | hq
    · exact hs.honest q hq hst
    · obtain rfl := mem_singleton.mp hq
      rw [(hs.fresh q hp).1]
      exact .of_quiet nofun rfl trivial
  | slot p a v t hp ha hv ht =>
    by_cases hw : ∀ e, a ≠ .work e
    · obtain rfl : s.server = v := by
        cases a with
        | work e => exact absurd rfl (hw e)
        | _ => exact some.inj hv
      have hstay := trusted_bystander hs hp ha hw ht
      exact ⟨hstay.ok, hstay.fresh, hstay.honest⟩
    · push Not at hw
      obtain ⟨e, rfl⟩ := hw
      have hwork := trusted_work hs hp hok hv ht
      exact ⟨hwork.ok, hwork.fresh, hwork.honest⟩
  | signal n reason genuine hnone =>
    refine ⟨emit_ok hs.ok hok reason s.known, hs.fresh, fun q hq hst => ?_⟩
    exact (hs.honest q hq hst).keeps (emit_keeps n reason genuine s.known) (fun id m _ h =>
      emit_live hnone h hq)
  | finished _ hl =>
    have hkeep : Keeps s.server (s.server.lookedUp none) := lookedUp_keeps hl nofun
    refine ⟨lookedUp_ok hs.ok hl nofun, hs.fresh, fun q hq hst => ?_⟩
    exact (hs.honest q hq hst).keeps hkeep (fun id n _ h => lookedUp_live hl h nofun)
  | found _ p _ _ entry t hl hget hid _ _ hmirr htask =>
    obtain ⟨hp, hst, hanswer⟩ := hok.head hlist hl
    have hshown := shownAs_eq_some.mpr ⟨entry, hget, hid⟩
    exact trusted_found hs hp hl hst hanswer hshown hmirr htask _
  | missed _ p _ hl hall =>
    obtain ⟨hp, hst, hanswer⟩ := hok.head hlist hl
    exact trusted_missed hs hp hl hst hanswer hall
  | restart =>
    have hnone : s.server.lookup = none := hok
    refine ⟨⟨?_, ?_⟩, fun q hq => ⟨(hs.fresh q hq).1, by simpa using hq⟩, fun q hq hst => ?_⟩
    · intro n _ hn
      cases hn
    · intro _ _ hl
      cases hnone.symm.trans hl
    · exact absurd hq (by simpa using hst)
  | back p t hp ht => exact trusted_back hs hp hok ht

/-- The checks of `maybe_request_dismissal` about a close, as they were answered. -/
def Allowed (s : Platform P Id) (p : P) (mark : Nat) : Prop :=
  ∃ policy, (p, mark, policy) ∈ s.asked ∧ policy.maySyncDismissals

def Decided (s : Platform P Id) (p : P) (mark : Nat) : Prop :=
  s.Allowed p mark ∧ (p, mark, true, true) ∈ s.answered

/-- What the history has of the signal being looked up, of the closes that signals
made, and of the dismissals decided about them. -/
structure Logged (s : Platform P Id) : Prop where
  listed : s.Listed
  current : ∀ signal rest, s.server.lookup = some (signal, rest) →
    ∃ earlier, s.signals = earlier ++ [signal] ∧ ∀ f ∈ s.found, f.1 < earlier.length
  order : (s.found.map Prod.fst).Pairwise (· < ·)
  bound : ∀ f ∈ s.found, f.1 < s.signals.length
  closes : ∀ p mark c, (s.slots p).closes[mark]? = some c →
    ∃ k, (k, p, mark) ∈ s.found ∧ s.signals[k]? = some ⟨c.serverId, c.reason, some (p, c.id)⟩
  carries : ∀ p, (s.slots p).Carries
  decided : ∀ p, ∀ d ∈ (s.slots p).decided, s.Decided p d.mark
  allowed : ∀ p, ∀ ask ∈ (s.slots p).asking, ask.allowed → s.Allowed p ask.mark

section Logged

variable {x : Texts} {s s' : Platform P Id} {p : P} {a : Action Id} {t : Slot Id}

omit [DecidableEq P] in
theorem Allowed.after (s : Platform P Id) {q mark} (p) (a) (hasked : s'.asked = s.askedAfter p a)
    (h : s.Allowed q mark) : s'.Allowed q mark := by
  obtain ⟨policy, hin, hpol⟩ := h
  refine ⟨policy, ?_, hpol⟩
  rw [hasked]
  cases a with
  | askPolicy => exact mem_append_left _ hin
  | _ => exact hin

omit [DecidableEq P] in
theorem Decided.after (s : Platform P Id) {q mark} (p) (a) (hasked : s'.asked = s.askedAfter p a)
    (hansw : s'.answered = s.answeredAfter p a) (h : s.Decided q mark) : s'.Decided q mark := by
  refine ⟨h.1.after s p a hasked, ?_⟩
  rw [hansw]
  cases a with
  | askRoles => exact mem_append_left _ h.2
  | _ => exact h.2

section

variable (hs : Logged s) (hst : (s.slots p).step x a = some t)
  (hslots : s'.slots = update s.slots p t) (hasked : s'.asked = s.askedAfter p a)
  (hansw : s'.answered = s.answeredAfter p a)
include hs hst hslots hasked hansw

theorem Logged.slot_step :
    (∀ q, (s'.slots q).Carries) ∧ (∀ q, ∀ d ∈ (s'.slots q).decided, s'.Decided q d.mark) ∧
      ∀ q, ∀ ask ∈ (s'.slots q).asking, ask.allowed → s'.Allowed q ask.mark := by
  rw [hslots]
  refine ⟨fun q => ?_, fun q d hd => ?_, fun q ask hask hallow => ?_⟩
  · by_cases hq : q = p
    · subst hq
      rw [update_self]
      exact step_carries hst (hs.carries q)
    · rw [update_of_ne hq]
      exact hs.carries q
  · by_cases hq : q = p
    · subst hq
      rw [update_self] at hd
      rcases step_decided hst hd with hd | ⟨rfl, ask, hask, hallow, rfl, htgt, hrep⟩
      · exact (hs.decided q d hd).after s q a hasked hansw
      refine ⟨(hs.allowed q ask hask hallow).after s q _ hasked, ?_⟩
      rw [hansw]
      refine mem_append_right _ ?_
      simp [hask, htgt, hrep, Asking.dismissal]
    · rw [update_of_ne hq] at hd
      exact (hs.decided q d hd).after s p a hasked hansw
  · by_cases hq : q = p
    · subst hq
      rw [update_self] at hask
      rcases step_asking hst hask hallow with hask | ⟨policy, _, rfl, hpol, hbef, hmark⟩
      · exact (hs.allowed q ask hask hallow).after s q a hasked
      refine ⟨policy, ?_, hpol⟩
      rw [hasked]
      refine mem_append_right _ ?_
      simp [hbef, hmark]
    · rw [update_of_ne hq] at hask
      exact (hs.allowed q ask hask hallow).after s p a hasked

theorem Logged.bystander (ha : ∀ serverId reason, a ≠ .noteClosed serverId reason)
    (hknown : s'.known = s.known) (hlook : s'.server.lookup = s.server.lookup)
    (hsign : s'.signals = s.signals) (hfound : s'.found = s.found) : Logged s' := by
  obtain ⟨hcarr, hdec, hallow⟩ := hs.slot_step hst hslots hasked hansw
  have hcls : ∀ q, (s'.slots q).closes = (s.slots q).closes := by
    intro q
    rw [hslots]
    by_cases hq : q = p
    · subst hq
      rw [update_self]
      exact step_closes hst ha
    · rw [update_of_ne hq]
  refine ⟨?_, ?_, ?_, ?_, ?_, hcarr, hdec, hallow⟩
  · rw [Listed, hlook, hknown]
    exact hs.listed
  · rw [hlook, hsign, hfound]
    exact hs.current
  · rw [hfound]
    exact hs.order
  · rw [hfound, hsign]
    exact hs.bound
  · intro q mark c hc
    rw [hfound, hsign]
    exact hs.closes q mark c (hcls q ▸ hc)

end

omit [DecidableEq P] in
theorem Logged.looked {lookup} (hs : Logged s) {signal rest}
    (hl : s.server.lookup = some (signal, rest))
    (h : ∀ signal' rest', lookup = some (signal', rest') → signal' = signal ∧ ∀ q ∈ rest',
      q ∈ rest) : Logged { s with server := s.server.lookedUp lookup } := by
  refine ⟨fun signal' rest' hl' q hq => ?_, fun signal' rest' hl' => ?_, hs.order, hs.bound,
    hs.closes, hs.carries, hs.decided, hs.allowed⟩
  · exact hs.listed signal rest hl q ((h signal' rest' hl').2 q hq)
  · obtain rfl := (h signal' rest' hl').1
    exact hs.current signal' rest hl

omit [DecidableEq P] in
theorem serverAfter_lookup {v} (h : s.serverAfter p a = some v) : v.lookup = s.server.lookup := by
  have hanswers : ∀ id replaces answer, s.server.answers p id replaces answer = some v →
      v.lookup = s.server.lookup := by
    intro _ _ answer hv
    cases answer with
    | error =>
      cases hv
      rfl
    | ok =>
      simp only [answers] at hv
      split at hv
      · simp only [ite_none_right_eq_some, some.injEq] at hv
        obtain ⟨-, rfl⟩ := hv
        rfl
      · simp only [ite_none_left_eq_some, some.injEq] at hv
        obtain ⟨-, rfl⟩ := hv
        rfl
  cases a with
  | work =>
    simp only [serverAfter] at h
    split at h
    · exact hanswers _ _ _ h
    · exact hanswers _ _ _ h
    all_goals
      cases h
      rfl
  | _ =>
    cases h
    rfl

end Logged

theorem logged_found
     {originDeviceId} (hst : s.stale p = false)
    (hl : s.server.lookup = some (signal, p :: rest))
    (hid : (s.slots p).state.mirrors.shownAs id = some signal.serverId)
    (h : (s.slots p).step x (.noteClosed signal.serverId signal.reason) = some t)
    (hcls : t.closes = (s.slots p).closes ++
      [⟨signal.serverId, signal.reason, id, originDeviceId, (s.slots p).outbound⟩])
    (ht : Trusted s) (hs : Logged s) :
    Logged { s.withSlot p t with
      server := s.server.lookedUp none
      found := s.found ++ [(s.signals.length - 1, p, (s.slots p).closes.length)] } := by
  obtain ⟨hcarr, hdec, hallow⟩ := @Logged.slot_step _ _ _ _ x s (s.withSlot p t) p _ t hs h
    rfl rfl rfl
  obtain ⟨earlier, hsign, hbef⟩ := hs.current signal _ hl
  have hp := hs.listed signal _ hl p mem_cons_self
  have howner := ht.owner hp hst hl hid
  have hlast : s.signals.length - 1 = earlier.length := by simp [hsign]
  have hself : s.signals[earlier.length]? = some ⟨signal.serverId, signal.reason,
      some (p, id)⟩ := by
    rw [← howner]
    simp [hsign]
  have hnone : ∀ signal rest, (none : Option (Signal P Id × List P)) ≠ some (signal, rest) :=
    nofun
  refine ⟨fun _ _ hn => absurd hn (hnone _ _), fun _ _ hn => absurd hn (hnone _ _), ?_, fun f hf =>
    ?_, fun q mark c hc => ?_, hcarr, hdec, hallow⟩
  · rw [map_append, pairwise_append]
    refine ⟨hs.order, pairwise_singleton _ _, ?_⟩
    intro k hk k' hk'
    obtain ⟨f, hf, rfl⟩ := mem_map.mp hk
    obtain rfl : k' = earlier.length := by simpa [hlast] using hk'
    exact hbef f hf
  · refine forall_mem_concat hs.bound ?_ f hf
    simp [hsign]
  · have hold : (s.slots q).closes[mark]? = some c → ∃ k, (k, q, mark) ∈ s.found ++
        [(s.signals.length - 1, p, (s.slots p).closes.length)] ∧
        s.signals[k]? = some ⟨c.serverId, c.reason, some (q, c.id)⟩ := by
      intro hc
      obtain ⟨k, hk, hsig⟩ := hs.closes q mark c hc
      exact ⟨k, mem_append_left _ hk, hsig⟩
    by_cases hq : q = p
    · subst hq
      rw [withSlot_self, hcls] at hc
      rcases Nat.lt_or_ge mark (s.slots q).closes.length with hlt | hge
      · rw [getElem?_append_left hlt] at hc
        exact hold hc
      rw [getElem?_append_right hge, getElem?_singleton] at hc
      simp only [ite_none_right_eq_some, some.injEq] at hc
      obtain ⟨_, rfl⟩ := hc
      obtain rfl : mark = (s.slots q).closes.length := by omega
      exact ⟨earlier.length, by simp [hlast], hself⟩
    · rw [withSlot_of_ne s hq] at hc
      exact hold hc

theorem step_logged (hok : s.Orderly m) (h : s.step x m = some s') (ht : Trusted s)
    (hs : Logged s) : Logged s' := by
  cases step_cases h with
  | join =>
    refine ⟨fun signal rest hl q hq => ?_, hs.current, hs.order, hs.bound, hs.closes, hs.carries,
      hs.decided, hs.allowed⟩
    exact mem_append_left _ (hs.listed signal rest hl q hq)
  | slot p a v t _ ha hv hst =>
    have hn : ∀ serverId reason, a ≠ .noteClosed serverId reason := by
      rintro _ _ rfl
      cases ha
    exact hs.bystander hst rfl rfl rfl hn rfl (serverAfter_lookup hv) rfl rfl
  | signal =>
    refine ⟨?_, ?_, hs.order, fun f hf => ?_, fun q mark c hc => ?_, hs.carries, hs.decided,
      hs.allowed⟩
    · rintro _ _ ⟨⟩
      exact fun _ hq => hq
    · rintro _ _ ⟨⟩
      exact ⟨s.signals, rfl, hs.bound⟩
    · have := hs.bound f hf
      simp only [length_append, length_singleton]
      omega
    · obtain ⟨k, hk, hsig⟩ := hs.closes q mark c hc
      refine ⟨k, hk, ?_⟩
      rw [getElem?_append_left (hs.bound _ hk)]
      exact hsig
  | finished _ hl => exact hs.looked hl nofun
  | found _ p _ _ entry t hl hget hid hst hcls =>
    obtain ⟨-, hstale, -⟩ := hok.head hs.listed hl
    exact logged_found hstale hl (shownAs_eq_some.mpr ⟨entry, hget, hid⟩) hst hcls ht hs
  | missed _ p _ hl =>
    have hsame : s.withSlot p (s.slots p) = s := by simp [withSlot]
    rw [hsame]
    refine hs.looked hl ?_
    rintro _ _ ⟨⟩
    exact ⟨rfl, fun q hq => mem_cons_of_mem _ hq⟩
  | restart =>
    exact ⟨hs.listed, hs.current, hs.order, hs.bound, hs.closes, hs.carries, hs.decided, hs.allowed⟩
  | back p t _ hst => exact hs.bystander hst rfl rfl rfl (by simp) rfl rfl rfl rfl

/-- Every request on a session reports a close of its own, made by a signal of its own
that said a person dismissed the mirror, with all checks passed. -/
def OnlyHuman (s : Platform P Id) : Prop :=
  (s.found.map Prod.fst).Nodup ∧ ∀ p, ((s.slots p).sentDismissals.map Dismissal.mark).Nodup ∧
    ∀ d ∈ (s.slots p).sentDismissals, ∃ k c, (k, p, d.mark) ∈ s.found ∧
    (s.slots p).closes[d.mark]? = some c ∧ c.id = d.id ∧
    s.signals[k]? = some ⟨c.serverId, .dismissed, some (p, d.id)⟩ ∧ s.Decided p d.mark

section

omit [DecidableEq P]

theorem Logged.onlyHuman (hs : Logged s) : s.OnlyHuman := by
  have hnodup : ∀ l : List Nat, l.Pairwise (· < ·) → l.Nodup := fun l hl => hl.imp (·.ne)
  refine ⟨hnodup _ hs.order, fun p => ⟨?_, fun d hd => ?_⟩⟩
  · have hsub : ((s.slots p).sentDismissals).Sublist (s.slots p).carried :=
      (sublist_append_left _ _).trans (sublist_append_left _ _)
    exact hnodup _ ((hs.carries p).order.sublist (hsub.map _))
  · have hdec : d ∈ (s.slots p).decided := mem_append_left _ (mem_append_left _ hd)
    have hcarried : d ∈ (s.slots p).carried := mem_append_left _ (mem_append_left _ hd)
    obtain ⟨c, hc, hreason, hid, -⟩ := (hs.carries p).reports d hcarried
    obtain ⟨k, hk, hsignal⟩ := hs.closes p d.mark c hc
    rw [hreason, hid] at hsignal
    exact ⟨k, c, hk, hc, hid, hsignal, hs.decided p d hdec⟩

theorem trusted_start : Trusted ({} : Platform P Id) := by
  refine ⟨⟨?_, ?_⟩, fun p _ => ⟨rfl, rfl⟩, nofun⟩
  · intro n _ hn
    cases hn
  · intro _ _ hl
    cases hl

theorem logged_start : Logged ({} : Platform P Id) := by
  refine ⟨?_, ?_, List.Pairwise.nil, ?_, ?_, fun p => ⟨List.Pairwise.nil, ?_⟩, ?_, ?_⟩
  · intro _ _ hl
    cases hl
  · intro _ _ hl
    cases hl
  all_goals simp [carried, decided, sentDismissals, pendingDismissals, Task.dismissal]

end

instance (s : Platform P Id) (m : PlatformMove P Id) : Decidable (s.Orderly m) := by
  unfold Orderly
  induction m using PlatformMove.casesOn
  case slot _ a => induction a using Action.casesOn <;> infer_instance
  case back p =>
    dsimp only
    generalize (s.slots p).task = task
    induction task using Task.casesOn
    case idle => exact isTrue rfl
    all_goals exact isFalse (by simp)
  all_goals infer_instance

/-- Where signals and restarts keep clear of answers that are not recorded yet, only a
human dismissal travels, and it travels once. -/
theorem only_human_dismissals_travel (x : Texts) {ms : List (PlatformMove P Id)} {s : Platform P Id}
    (hrun : run (step x) {} ms = some s) (hok : Meets (step x) Orderly {} ms) : s.OnlyHuman := by
  have hstep : ∀ (s : Platform P Id) (m : PlatformMove P Id) (s' : Platform P Id), s.Orderly m →
      s.step x m = some s' → Trusted s ∧ Logged s → Trusted s' ∧ Logged s' :=
    fun s m s' hok h hs => ⟨step_trusted hok h hs.2.listed hs.1, step_logged hok h hs.1 hs.2⟩
  have hinv := run_invariant (step x) hstep hrun hok ⟨trusted_start, logged_start⟩
  exact hinv.2.onlyHuman

def mirrorDisplayed : List (PlatformMove Nat Nat) :=
  .join 0 :: ([.attachGeneration, .attachSender 0, .attachState 0, .work {}, .work {}, .work {},
    .work {}, .receive 0 {} (.roles ⟨[1, 3], 1⟩), .receive 0 {} (.upsert ⟨5, {}⟩), .work {},
    .work {}, .work {}, .work {}, .work {}, .work { shown := .ok 7 }].map (.slot 0))

def dismissedOnScreen (genuine : Bool) (works : Nat) : List (PlatformMove Nat Nat) :=
  [PlatformMove.signal 7 .dismissed genuine, .lookUp,
    .slot 0 (.askPolicy { allowDismissSync := true }), .slot 0 .askRoles] ++ replicate works
    (.slot 0 (.work {}))

theorem only_human_dismissals_travel_on_dismissal :
    ∃ s, run (step .plain) {} (mirrorDisplayed ++ [.slot 0 (.work {})] ++ dismissedOnScreen true
      3) = some s ∧ (s.slots 0).sentDismissals = [⟨5, "", 0⟩] ∧ s.OnlyHuman := by
  refine exists_some_imp (P := fun s => (s.slots 0).sentDismissals = [⟨5, "", 0⟩]) ⟨_, rfl,
    by decide⟩ ?_
  exact fun s hrun hsent => ⟨hsent, only_human_dismissals_travel .plain hrun (by decide)⟩

/-- The server is replaced before its answer is recorded: the table keeps the id of the
old server, and the dismissal of what the new server shows under it becomes a request
to dismiss the phone's notification. -/
theorem foreign_dismissal_travels :
    ∃ s, run (step .plain) {} (mirrorDisplayed ++ [.restart, .back 0, .slot 0 (.work {})] ++
      dismissedOnScreen false 5) = some s ∧ (s.slots 0).sentDismissals = [⟨5, "", 0⟩] ∧
      s.signals = [⟨7, .dismissed, none⟩] ∧ ¬s.OnlyHuman := by
  refine exists_some_imp (P := fun s => (s.slots 0).sentDismissals = [⟨5, "", 0⟩] ∧
    s.signals = [⟨7, .dismissed, none⟩])
    ⟨_, rfl, by decide, by decide⟩ (fun s _ ⟨hsent, hsign⟩ => ⟨hsent, hsign, fun honly => ?_⟩)
  obtain ⟨k, c, -, -, -, hsignal, -⟩ := (honly.2 0).2 ⟨5, "", 0⟩ (by simp [hsent])
  have hin := mem_of_getElem? hsignal
  rw [hsign] at hin
  simp at hin

end Platform

end OmniBridge.Sink
