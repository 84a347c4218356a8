import OmniBridge.SinkScreen

/-! The notification server as all peers share it: what it shows, the ids it has
used, and the close signal that is being looked up; and what a peer may rely on when
it calls the server by the ids it has. -/

namespace OmniBridge.Sink

open List Option MirrorTable Function Finset

variable {P Id : Type}

/-- A close signal, with the mirror that the server's notification was at that
moment; a duplicate, a late and a foreign signal have none. -/
structure Signal (P Id : Type) where
  serverId : ServerId
  reason : CloseReason
  owner : Option (P × Id)
deriving DecidableEq

/-- The server now running: what it shows for this process, the ids it has used, and
the signal of it that is being looked up with the peers that are left. -/
structure Server (P Id : Type) where
  shows : ServerId → Option (P × Id) := fun _ => none
  used : Finset ServerId := ∅
  lookup : Option (Signal P Id × List P) := none

namespace Server

/-- The id is the mirror's, on the screen or in the signal that says it is gone. -/
def Live (v : Server P Id) (p : P) (id : Id) (n : ServerId) : Prop :=
  v.shows n = some (p, id) ∨
    ∃ signal rest, v.lookup = some (signal, rest) ∧ signal.serverId = n ∧
    signal.owner = some (p, id) ∧ p ∈ rest

/-- The server knows the id, and shows under it nothing but the mirror. -/
def Handle (v : Server P Id) (p : P) (id : Id) (n : ServerId) : Prop :=
  n ∈ v.used ∧ ∀ owner, v.shows n = some owner → owner = (p, id)

structure Ok (v : Server P Id) : Prop where
  used : ∀ n owner, v.shows n = some owner → n ∈ v.used
  gone : ∀ signal rest, v.lookup = some (signal, rest) → v.shows signal.serverId = none ∧
    signal.serverId ∈ v.used

variable {p : P} {id : Id} {n : ServerId} {v : Server P Id}

theorem Live.mem_used (hv : v.Ok) (h : v.Live p id n) : n ∈ v.used := by
  rcases h with hs | ⟨signal, rest, hl, rfl, -, -⟩
  · exact hv.used n _ hs
  · exact (hv.gone signal rest hl).2

theorem Live.unique (hv : v.Ok) {q id'} (h : v.Live p id n) (h' : v.Live q id' n) :
    (q, id') = (p, id) := by
  have hgone : ∀ signal rest, v.lookup = some (signal, rest) → signal.serverId = n →
      v.shows n = none :=
    fun signal rest hl heq => heq ▸ (hv.gone signal rest hl).1
  rcases h with hs | ⟨signal, rest, hl, hn, ho, -⟩ <;> rcases h' with hs' | ⟨signal', rest', hl',
    hn', ho', -⟩
  · exact mem_unique hs' hs
  · cases hs.symm.trans (hgone signal' rest' hl' hn')
  · cases hs'.symm.trans (hgone signal rest hl hn)
  · obtain ⟨rfl, -⟩ := Prod.mk.inj (some.inj (hl.symm.trans hl'))
    exact mem_unique ho' ho

theorem Live.handle (hv : v.Ok) (h : v.Live p id n) : v.Handle p id n :=
  ⟨h.mem_used hv, fun _ hs => Live.unique hv h (.inl hs)⟩

end Server

/-- The server goes on: it uses more ids, and shows under the used ones nothing new. -/
structure Keeps (v v' : Server P Id) : Prop where
  used : ∀ n ∈ v.used, n ∈ v'.used
  shows : ∀ n ∈ v.used, ∀ owner, v'.shows n = some owner → v.shows n = some owner
  live : ∀ q id n, n ∈ v.used → v'.Live q id n → v.Live q id n

theorem Keeps.refl (v : Server P Id) : Keeps v v :=
  ⟨fun _ hn => hn, fun _ _ _ ho => ho, fun _ _ _ _ hl => hl⟩

namespace Server

variable {v v' : Server P Id} {p : P}

variable {q : P} {id : Id} {rest : List P} {m n : ServerId} {signal : Signal P Id}
  {lookup : Option (Signal P Id × List P)}

theorem Handle.keeps (h : v.Handle p id n) (hk : Keeps v v') : v'.Handle p id n :=
  ⟨hk.used n h.1, fun owner ho => h.2 owner (hk.shows n h.1 owner ho)⟩

def display (v : Server P Id) (p : P) (id : Id) (n : ServerId) : Server P Id :=
  { v with shows := Function.update v.shows n (some (p, id)), used := insert n v.used }

def close (v : Server P Id) (n : ServerId) : Server P Id :=
  { v with shows := Function.update v.shows n none }

/-- The server says that a notification was closed. A genuine signal is about one
that it was showing. -/
def emit (v : Server P Id) (n : ServerId) (reason : CloseReason) (genuine : Bool) (known : List P) :
    Server P Id where
  shows := if genuine then Function.update v.shows n none else v.shows
  used := insert n v.used
  lookup := some (⟨n, reason, if genuine then v.shows n else none⟩, known)

/-- What the server makes of a call of `display`: it replaces what it shows, and
gives out a fresh id otherwise. -/
def answers (v : Server P Id) (p : P) (id : Id) (replaces : Option ServerId) :
    Except SinkError ServerId → Option (Server P Id)
  | .error _ => some v
  | .ok n =>
    if (replaces.bind v.shows).isSome then if replaces = some n then some (v.display p id n)
      else none
    else if n ∈ v.used then none
    else some (v.display p id n)

theorem display_self (hv : v.Ok) (h : v.shows n = some (p, id)) : v.display p id n = v := by
  have hshows : update v.shows n (some (p, id)) = v.shows := by rw [← h, update_eq_self]
  have hused : insert n v.used = v.used := insert_eq_of_mem (hv.used n _ h)
  rw [display, hshows, hused]

theorem display_shows_of_ne (h : m ≠ n) : (v.display p id n).shows m = v.shows m :=
  update_of_ne h _ _

theorem display_live_of_ne {id'} (h : m ≠ n) :
    (v.display p id n).Live q id' m ↔ v.Live q id' m := by
  unfold Live
  rw [display_shows_of_ne h]
  rfl

theorem display_ok (hv : v.Ok) (hn : n ∉ v.used) : (v.display p id n).Ok where
  used m owner hm := by
    by_cases hmn : m = n
    · exact hmn ▸ Finset.mem_insert_self n v.used
    · rw [display_shows_of_ne hmn] at hm
      exact mem_insert_of_mem (hv.used m owner hm)
  gone signal rest hl := by
    obtain ⟨hnone, hused⟩ := hv.gone signal rest hl
    have hne : signal.serverId ≠ n := fun heq => hn (heq ▸ hused)
    exact ⟨(display_shows_of_ne hne).trans hnone, mem_insert_of_mem hused⟩

theorem display_keeps (hn : n ∉ v.used) : Keeps v (v.display p id n) where
  used m hm := mem_insert_of_mem hm
  shows m hm owner ho := by
    have hne : m ≠ n := fun heq => hn (heq ▸ hm)
    rwa [display_shows_of_ne hne] at ho
  live q id' m hm hl := by
    have hne : m ≠ n := fun heq => hn (heq ▸ hm)
    exact (display_live_of_ne hne).mp hl

theorem display_live : (v.display p id n).Live p id n := .inl (update_self _ _ _)

theorem close_ok (hv : v.Ok) (n : ServerId) : (v.close n).Ok where
  used m owner hm := by
    by_cases hmn : m = n
    · rw [hmn, show (v.close n).shows n = none from update_self _ _ _] at hm
      cases hm
    · exact hv.used m owner ((update_of_ne hmn _ _).symm.trans hm)
  gone signal rest hl := by
    obtain ⟨hnone, hused⟩ := hv.gone signal rest hl
    refine ⟨?_, hused⟩
    by_cases hmn : signal.serverId = n
    · rw [hmn]
      exact update_self _ _ _
    · exact (update_of_ne hmn _ _).trans hnone

theorem close_shows {owner} (h : (v.close n).shows m = some owner) :
    m ≠ n ∧ v.shows m = some owner := by
  by_cases hmn : m = n
  · rw [hmn, show (v.close n).shows n = none from update_self _ _ _] at h
    cases h
  · exact ⟨hmn, (update_of_ne hmn _ _).symm.trans h⟩

theorem close_keeps (n : ServerId) : Keeps v (v.close n) where
  used _ hm := hm
  shows _ _ _ ho := (close_shows ho).2
  live _ _ _ _ hl := hl.imp_left (fun hs => (close_shows hs).2)

theorem emit_ok (hv : v.Ok) {genuine} (h : genuine = false → v.shows n = none)
    (reason : CloseReason) (known) : (v.emit n reason genuine known).Ok := by
  cases genuine with
  | true =>
    have hclose := close_ok hv n
    refine ⟨fun m owner hm => mem_insert_of_mem (hclose.used m owner hm), ?_⟩
    rintro _ _ ⟨⟩
    exact ⟨update_self _ _ _, mem_insert_self n v.used⟩
  | false =>
    refine ⟨fun m owner hm => mem_insert_of_mem (hv.used m owner hm), ?_⟩
    rintro _ _ ⟨⟩
    exact ⟨h rfl, mem_insert_self n v.used⟩

theorem emit_keeps (n : ServerId) (reason) (genuine : Bool) (known : List P) :
    Keeps v (v.emit n reason genuine known) := by
  have hshows : ∀ m owner, (v.emit n reason genuine known).shows m = some owner →
      v.shows m = some owner := by
    cases genuine with
    | true => exact fun m owner hm => (close_shows hm).2
    | false => exact fun _ _ hm => hm
  refine ⟨fun m hm => mem_insert_of_mem hm, fun m _ owner hm => hshows m owner hm, ?_⟩
  rintro q _ m - (hs | ⟨_, _, ⟨⟩, rfl, ho, -⟩)
  · exact .inl (hshows m _ hs)
  · cases genuine with
    | true => exact .inl ho
    | false => cases ho

theorem emit_live (hnone : v.lookup = none) {reason genuine known} (h : v.Live q id m)
    (hq : q ∈ known) : (v.emit n reason genuine known).Live q id m := by
  have hs : v.shows m = some (q, id) := by
    rcases h with hs | ⟨_, _, hl, -⟩
    · exact hs
    · cases hnone.symm.trans hl
  cases genuine with
  | false => exact .inl hs
  | true =>
    by_cases hmn : m = n
    · subst hmn
      exact .inr ⟨_, known, rfl, rfl, hs, hq⟩
    · exact .inl ((update_of_ne hmn _ _).trans hs)

def lookedUp (v : Server P Id) (lookup : Option (Signal P Id × List P)) : Server P Id :=
  { v with lookup := lookup }

theorem lookedUp_ok (hv : v.Ok) (hl : v.lookup = some (signal, rest))
    (h : ∀ signal' rest', lookup = some (signal', rest') → signal' = signal) :
    (v.lookedUp lookup).Ok := by
  refine ⟨hv.used, fun signal' rest' hl' => ?_⟩
  obtain rfl := h signal' rest' hl'
  exact hv.gone signal' rest hl

theorem lookedUp_keeps (hl : v.lookup = some (signal, rest))
    (h : ∀ signal' rest', lookup = some (signal', rest') → signal' = signal ∧ ∀ q ∈ rest',
      q ∈ rest) : Keeps v (v.lookedUp lookup) := by
  refine ⟨fun _ hn => hn, fun _ _ _ ho => ho, ?_⟩
  rintro q _ n - (hs | ⟨signal', rest', hl', hn, ho, hq⟩)
  · exact .inl hs
  · obtain ⟨rfl, hsub⟩ := h signal' rest' hl'
    exact .inr ⟨signal', rest, hl, hn, ho, hsub q hq⟩

theorem lookedUp_live (hl : v.lookup = some (signal, rest)) (h : v.Live q id n)
    (hoth : n = signal.serverId → q ∈ rest → ∃ rest', lookup = some (signal, rest') ∧ q ∈ rest') :
    (v.lookedUp lookup).Live q id n := by
  rcases h with hs | ⟨_, _, hl', hn, ho, hq⟩
  · exact .inl hs
  · obtain ⟨rfl, rfl⟩ := Prod.mk.inj (some.inj (hl.symm.trans hl'))
    obtain ⟨rest', hlook, hq'⟩ := hoth hn.symm hq
    exact .inr ⟨signal, rest', hlook, hn, ho, hq'⟩

theorem answers_keeps (hv : v.Ok) {replaces answer}
    (hrepl : ∀ r, replaces = some r → v.Handle p id r)
    (h : v.answers p id replaces answer = some v') :
    v'.Ok ∧ Keeps v v' ∧ (∀ q id' n, v.Live q id' n → v'.Live q id' n) ∧ ∀ n, answer = .ok n →
      v'.Live p id n := by
  cases answer with
  | error =>
    cases h
    exact ⟨hv, .refl v, fun _ _ _ hl => hl, nofun⟩
  | ok n =>
    simp only [answers] at h
    split at h
    · rename_i hshown
      rw [ite_none_right_eq_some] at h
      obtain ⟨rfl, hv'⟩ := h
      obtain ⟨owner, hs⟩ := isSome_iff_exists.mp hshown
      obtain rfl := (hrepl n rfl).2 owner hs
      obtain rfl : v = v' := (display_self hv hs).symm.trans (some.inj hv')
      refine ⟨hv, .refl v, fun _ _ _ hl => hl, fun m ha => ?_⟩
      exact Except.ok.inj ha ▸ .inl hs
    · rw [ite_none_left_eq_some] at h
      obtain ⟨hn, hv'⟩ := h
      cases hv'
      refine ⟨display_ok hv hn, display_keeps hn, fun q id' m hl => ?_, fun m ha => ?_⟩
      · have hne : m ≠ n := fun heq => hn (heq ▸ hl.mem_used hv)
        exact (display_live_of_ne hne).mpr hl
      · exact Except.ok.inj ha ▸ display_live

theorem close_live (h : m ≠ n) (hl : v.Live q id m) : (v.close n).Live q id m :=
  hl.imp_left (update_of_ne h _ _).trans

end Server

variable [LinearOrder Id]

def Task.answer : Task Id → Option (Id × ServerId)
  | .displayed incoming _ (.ok n) => some (incoming.id, n)
  | .redisplayed id (.ok n) _ => some (id, n)
  | _ => none

def Spent (v : Server P Id) (p : P) (t : MirrorTable Id) (n : ServerId) : Prop :=
  n ∈ v.used ∧ ∀ q id, v.Live q id n → q = p ∧ t.shownAs id ≠ some n

def Handles (v : Server P Id) (p : P) (affected : List (Id × MirrorEntry)) : Prop :=
  ∀ q ∈ affected, ∀ r, q.2.serverId = some r → v.Handle p q.1 r

def TaskHolds (v : Server P Id) (p : P) (t : MirrorTable Id) : Task Id → Prop
  | .displaying incoming _ replaces => ∀ r, replaces = some r → v.Handle p incoming.id r
  | .reducing affected => Handles v p affected
  | .redisplaying id _ r rest => v.Handle p id r ∧ Handles v p rest
  | .redisplayed _ _ rest => Handles v p rest
  | .closing serverIds _ (.reduce affected) =>
    (∀ n ∈ serverIds, Spent v p t n) ∧ Handles v p affected
  | .closing serverIds _ _ => ∀ n ∈ serverIds, Spent v p t n
  | _ => True

/-- Every server id a peer's table or worker has is the peer's own. -/
structure Honest (v : Server P Id) (p : P) (t : MirrorTable Id) (task : Task Id) : Prop where
  entries : ∀ id n, t.shownAs id = some n → v.Live p id n
  answer : ∀ id n, task.answer = some (id, n) → v.Live p id n
  holds : TaskHolds v p t task

section Honest

variable {v v' : Server P Id} {p : P} {t t' : MirrorTable Id} {task task' : Task Id}

theorem Honest.of_quiet (hentr : ∀ id n, t.shownAs id = some n → v.Live p id n)
    (hansw : task.answer = none) (hhold : TaskHolds v p t task) : Honest v p t task := by
  refine ⟨hentr, fun id n ha => ?_, hhold⟩
  rw [hansw] at ha
  cases ha

theorem Honest.move (h : Honest v p t task) (hansw : task'.answer = none)
    (hhold : TaskHolds v p t task') : Honest v p t task' :=
  .of_quiet h.entries hansw hhold

theorem Honest.drop (hv : v.Ok) (h : Honest v p t task) (id : Id) {ids rest}
    (hrest : ∀ affected, rest = .reduce affected → Handles v p affected) :
    Honest v p (t.remove id).1 (.closing (t.shownAs id).toList ids rest) := by
  have hspent : ∀ n ∈ (t.shownAs id).toList, Spent v p (t.remove id).1 n := by
    intro n hn
    have hlive := h.entries id n (by simpa using hn)
    refine ⟨hlive.mem_used hv, fun q other hoth => ?_⟩
    obtain ⟨rfl, rfl⟩ := Prod.mk.inj (Server.Live.unique hv hlive hoth)
    exact ⟨rfl, by simp⟩
  refine .of_quiet (fun other n hn => ?_) rfl ?_
  · by_cases hid : other = id
    · simp [hid] at hn
    · exact h.entries other n (by rwa [shownAs_remove_of_ne hid] at hn)
  · cases rest with
    | done | sweep => exact hspent
    | reduce affected => exact ⟨hspent, hrest affected rfl⟩

theorem Honest.record (hv : v.Ok) (h : Honest v p t task) {id serverId}
    (hlive : ∀ n, serverId = some n → v.Live p id n) {contentHash appName urgency}
    {reduced originDeviceId r}
    (hr : t.insert id serverId contentHash appName urgency reduced originDeviceId = r) :
    Honest v p r.1 .idle ∧ Honest v p r.1 (match r.2 with
      | none => .idle
      | some (_, entry) => .closing entry.serverId.toList [] .done) := by
  obtain ⟨t', evicted⟩ := r
  obtain ⟨hself, hoth, hev⟩ := shownAs_insert hr
  have hentr : ∀ other n, t'.shownAs other = some n → v.Live p other n := by
    intro other n hn
    by_cases hid : other = id
    · subst hid
      exact hlive n (hself.symm.trans hn)
    · rw [hoth other hid, ite_none_left_eq_some] at hn
      exact h.entries other n hn.2
  have hidle : Honest v p t' .idle := .of_quiet hentr rfl trivial
  refine ⟨hidle, ?_⟩
  cases evicted with
  | none => exact hidle
  | some q =>
    refine hidle.move rfl (fun n hn => ?_)
    obtain ⟨hne, hq⟩ := hev q rfl
    have hown := h.entries q.1 n (hq.trans (by simpa using hn))
    refine ⟨hown.mem_used hv, fun q' other hl => ?_⟩
    obtain ⟨rfl, rfl⟩ := Prod.mk.inj (Server.Live.unique hv hown hl)
    exact ⟨rfl, by simp [hoth q.1 hne]⟩

theorem Honest.modify (h : Honest v p t task) {id} {f : MirrorEntry → MirrorEntry}
    (hf : ∀ entry n, t.get id = some entry → (f entry).serverId = some n → v.Live p id n) {affected}
    (hplan : Handles v p affected) : Honest v p (t.modify id f) (.reducing affected) := by
  refine .of_quiet (fun other n hn => ?_) rfl hplan
  obtain ⟨entry, hget, hserv⟩ := shownAs_eq_some.mp hn
  by_cases hid : other = id
  · subst hid
    rw [get_modify_self, map_eq_some_iff] at hget
    obtain ⟨before, hbef, rfl⟩ := hget
    exact hf before n hbef hserv
  · rw [get_modify_of_ne hid] at hget
    exact h.entries other n (shownAs_eq_some.mpr ⟨entry, hget, hserv⟩)

theorem handles_iter (hv : v.Ok) (h : Honest v p t task) : Handles v p t.iter := by
  intro q hq r hr
  have hget := mem_iter.mp hq
  exact (h.entries q.1 r ((shownAs_of_get hget).trans hr)).handle hv

end Honest

section Keeps

variable {v v' : Server P Id} {p : P} {t : MirrorTable Id} {task : Task Id}

theorem Spent.keeps {n} (h : Spent v p t n) (hk : Keeps v v') : Spent v' p t n :=
  ⟨hk.used n h.1, fun q id hl => h.2 q id (hk.live q id n h.1 hl)⟩

omit [LinearOrder Id] in
theorem Handles.keeps {affected} (h : Handles v p affected) (hk : Keeps v v') :
    Handles v' p affected :=
  fun q hq r hr => (h q hq r hr).keeps hk

theorem TaskHolds.keeps (h : TaskHolds v p t task) (hk : Keeps v v') : TaskHolds v' p t task := by
  cases task with
  | displaying => exact fun r hr => (h r hr).keeps hk
  | reducing | redisplayed => exact Handles.keeps h hk
  | redisplaying => exact ⟨h.1.keeps hk, h.2.keeps hk⟩
  | closing _ _ rest =>
    cases rest with
    | done | sweep => exact fun n hn => (h n hn).keeps hk
    | reduce => exact ⟨fun n hn => (h.1 n hn).keeps hk, h.2.keeps hk⟩
  | _ => trivial

theorem taskHolds_subset {t'} (ht : ∀ id n, t'.shownAs id = some n → t.shownAs id = some n)
    (h : TaskHolds v p t task) : TaskHolds v p t' task := by
  have hspent : ∀ n, Spent v p t n → Spent v p t' n :=
    fun n hn => ⟨hn.1, fun q id hl => ⟨(hn.2 q id hl).1, fun hid => (hn.2 q id hl).2 (ht id n hid)⟩⟩
  cases task with
  | closing _ _ rest =>
    cases rest with
    | done | sweep => exact fun n hn => hspent n (h n hn)
    | reduce => exact ⟨fun n hn => hspent n (h.1 n hn), h.2⟩
  | _ => exact h

theorem Honest.keeps (h : Honest v p t task) (hk : Keeps v v')
    (hlive : ∀ id n, t.shownAs id = some n ∨ task.answer = some (id, n) → v.Live p id n →
      v'.Live p id n) : Honest v' p t task :=
  ⟨fun id n hn => hlive id n (.inl hn) (h.entries id n hn), fun id n hn =>
    hlive id n (.inr hn) (h.answer id n hn), h.holds.keeps hk⟩

end Keeps

namespace Slot

variable {v : Server P Id} {p : P}

theorem start_honest (hv : v.Ok) {s : Slot Id} {e} {item : Item Id Nat} (htask : s.task = .idle)
    (h : Honest v p s.state.mirrors .idle) :
    Honest v p (s.start e item).state.mirrors (s.start e item).task := by
  fun_cases Slot.start s e item
  -- `close_all` takes every entry out and holds all their server ids
  case case12 =>
    have hnone : ∀ id n, s.state.mirrors.drain.1.shownAs id ≠ some n := by
      intro _ n hn
      cases hn
    refine .of_quiet (fun id n hn => absurd hn (hnone id n)) rfl (fun n hn => ?_)
    obtain ⟨id, hid⟩ := mem_drain_serverIds.mp hn
    have hlive := h.entries id n hid
    refine ⟨hlive.mem_used hv, fun q other hoth => ⟨?_, hnone other n⟩⟩
    exact (Prod.mk.inj (Server.Live.unique hv hlive hoth)).1
  all_goals first
    | exact h.move rfl trivial
    | exact htask ▸ h

theorem proceed_honest (hv : v.Ok) {x : Texts} {e} {s : Slot Id} {task} (htask : task ≠ .idle)
    (hquiet : Desk.touchesScreen task = false) (h : Honest v p s.state.mirrors task) :
    Honest v p (s.proceed x e task).state.mirrors (s.proceed x e task).task := by
  have hclos : ∀ ids : List Id, TaskHolds v p s.state.mirrors (.closing [] ids .done) :=
    by simp [TaskHolds]
  cases task with
  | idle => exact absurd rfl htask
  | displaying | redisplaying => cases hquiet
  | announcing | removeGranted | lockStored | lockNoted =>
    refine h.move ?_ ?_ <;>
    · simp only [proceed, withTask]
      split <;> trivial
  | announced | dismissing | reconciling => exact h.move rfl trivial
  | upsertGranted =>
    refine h.move ?_ ?_ <;>
    · simp only [proceed, withTask]
      split
      · trivial
      · split
        · first | rfl | exact hclos _
        · trivial
  | upsertSourced =>
    refine h.move ?_ ?_ <;>
    · simp only [proceed, withTask]
      split
      · first | rfl | exact hclos _
      · trivial
  | upsertPresented incoming =>
    refine h.move ?_ ?_
    · simp only [proceed, withTask]
      split <;> rfl
    · simp only [proceed, withTask]
      split
      · trivial
      · exact fun r hr => (h.entries incoming.id r hr).handle hv
  | displayed incoming _ answer =>
    cases answer with
    | ok n =>
      have hlive : ∀ m, some n = some m → v.Live p incoming.id m :=
        fun m hm => some.inj hm ▸ h.answer incoming.id n rfl
      exact (h.record hv hlive rfl).2
    | error => exact (h.record hv (fun m hm => by cases hm) rfl).1
  | removeSourced id => exact h.drop hv id (by simp)
  | sweeping stale =>
    cases stale with
    | nil => exact h.move rfl trivial
    | cons id => exact h.drop hv id (by simp)
  | lockResolved presentation =>
    cases presentation with
    | suppress => exact h.move rfl (hclos _)
    | _ => exact h.move rfl (handles_iter hv h)
  | reducing affected =>
    have hplan : Handles v p affected := h.holds
    cases affected with
    | nil => exact h.move rfl trivial
    | cons q rest =>
      obtain ⟨id, entry⟩ := q
      have htail : Handles v p rest := fun q hq => hplan q (mem_cons_of_mem _ hq)
      simp only [proceed]
      split
      · exact h.move rfl htail
      split
      · refine h.modify (fun found n hget hserv => ?_) htail
        exact h.entries id n (shownAs_eq_some.mpr ⟨found, hget, hserv⟩)
      · rename_i r hserv
        exact h.move rfl ⟨hplan (id, entry) mem_cons_self r hserv, htail⟩
  | redisplayed id answer =>
    cases answer with
    | ok n =>
      refine h.modify (fun _ m _ hm => ?_) h.holds
      exact some.inj hm ▸ h.answer id n rfl
    | error => exact h.move rfl ⟨by simp, h.holds⟩
  | closing serverIds ids rest =>
    cases serverIds with
    | cons => cases hquiet
    | nil =>
      cases ids with
      | nil =>
        cases rest with
        | done | sweep => exact h.move rfl trivial
        | reduce => exact h.move rfl h.holds.2
      | cons id =>
        refine h.drop hv id (fun affected hrest => ?_)
        subst hrest
        exact h.holds.2

end Slot

end OmniBridge.Sink
