import OmniBridge.DesktopTraffic

/-! What is left in the queue of the capabilities when a session is told to shut down.
The writer ends when the other queue is closed and empty, whatever is left in this one. -/

namespace OmniBridge.Desktop.Session

open List Option

variable {Fp ε : Type} {x : Host Fp ε} {e : Established Fp} {s t : Session ε} {a : Action ε}
  {as : List (Action ε)}

def Action.isFailedWrite : Action ε → Bool
  | .wrote (.error _) => true
  | _ => false

/-- The writer stops, or is given up, only with nothing left in the queue of the
capabilities. -/
def StopsEmpty (s : Session ε) : Action ε → Prop
  | .stop => s.capQueue.items = []
  | .expire => s.writer.isServing → s.writer.isBusy = false ∧ s.capQueue.items = []
  | _ => True

instance (s : Session ε) (a : Action ε) : Decidable (s.StopsEmpty a) := by
  unfold StopsEmpty
  induction a using Action.casesOn <;> infer_instance

theorem step_written (h : s.step x e a = some t) : s.written <+: t.written := by
  cases step_cases h with
  | received _ _ _ _ _ _ _ _ hreact | commanded _ _ _ _ _ _ _ _ hreact | ticked _ _ _ hreact =>
    cases hreact <;> exact prefix_refl _
  | wrote => exact prefix_append _ _
  | disconnected => split <;> exact prefix_refl _
  | _ => exact prefix_refl _

theorem onWire_of_idle (h : s.writer = .idle) : s.onWire = s.written := by
  rw [onWire, h]
  exact append_nil _

theorem step_gaveUp (hok : a.isFailedWrite = false ∧ s.StopsEmpty a) (h : s.step x e a = some t)
    (hs : s.writer.isServing) (ht : t.writer.isServing = false) :
    s.onWire = s.written ∧ s.capQueue.items = [] := by
  have hkeeps : t.writer = s.writer → s.onWire = s.written ∧ s.capQueue.items = [] := by
    intro hsame
    rw [hsame, hs] at ht
    cases ht
  cases step_cases h with
  | received _ _ _ _ _ _ _ _ hreact | commanded _ _ _ _ _ _ _ _ hreact | ticked _ _ _ hreact =>
    cases hreact <;> exact hkeeps rfl
  | tookRequest | tookMessage | wrote => cases ht
  | failed => cases hok.1
  | stopped hidle => exact ⟨onWire_of_idle hidle, hok.2⟩
  | flushed _ hwr =>
    rw [hwr] at hs
    cases hs
  | disconnected =>
    apply hkeeps
    split <;> rfl
  | expired =>
    obtain ⟨hbusy, hempty⟩ := hok.2 hs
    refine ⟨?_, hempty⟩
    cases hwr : s.writer with
    | idle => exact onWire_of_idle hwr
    | writing =>
      rw [hwr] at hbusy
      cases hbusy
    | _ =>
      rw [hwr] at hs
      cases hs
  | _ => exact hkeeps rfl

/-- The messages are on the wire behind the first `n` frames, or still queued while the
writer serves. -/
structure Owing (n : Nat) (messages : List OutboundMessage) (s : Session ε) : Prop where
  serving : s.writer.isServing →
    messages.Sublist ((s.onWire.drop n).filterMap carried ++ s.capQueue.items)
  gaveUp : s.writer.isServing = false → messages.Sublist ((s.written.drop n).filterMap carried)

variable {messages : List OutboundMessage} {n : Nat}

theorem step_owing (hok : a.isFailedWrite = false ∧ s.StopsEmpty a) (h : s.step x e a = some t)
    (hn : n ≤ s.written.length) (hs : Owing n messages s) : Owing n messages t := by
  obtain ⟨-, hcap⟩ := step_queues h
  cases ha : a.isTake with
  | true =>
    obtain ⟨item, _, _, htook⟩ := step_took ha h
    have hserv : s.writer.isServing := by rw [htook.idle]; rfl
    have hqd : s.queuedMessages a = [] := by
      cases a with
      | takeRequest | takeMessage => rfl
      | _ => cases ha
    constructor
    · intro _
      have hwas := hs.serving hserv
      have hlong : n ≤ s.onWire.length := by
        rw [onWire, length_append]
        omega
      rw [hqd, append_nil] at hcap
      rw [htook.onWire, drop_append_of_le_length hlong, filterMap_append, append_assoc]
      rw [← hcap] at hwas
      have hcarr : (s.takenMessages a).Sublist (((s.taken a).map Prod.snd).filterMap carried) := by
        rw [takenMessages, htook.taken]
        cases item with
        | inl => exact nil_sublist _
        | inr => exact List.Sublist.refl _
      exact hwas.trans ((List.Sublist.refl _).append (hcarr.append (List.Sublist.refl _)))
    · rw [htook.writing]
      rintro ⟨⟩
  | false =>
    obtain ⟨-, -, hserv⟩ := step_idles ha h
    have htaken : s.takenMessages a = [] := by
      rw [takenMessages, taken_of_not_take ha]
      rfl
    rw [htaken, nil_append] at hcap
    constructor
    · intro ht
      obtain ⟨hwas, hwire⟩ := hserv ht
      rw [hwire, hcap, ← append_assoc]
      exact (hs.serving hwas).trans (sublist_append_left _ _)
    · intro ht
      have hmore : ((s.written.drop n).filterMap carried).Sublist
          ((t.written.drop n).filterMap carried) :=
        ((step_written h).sublist.drop n).filterMap _
      cases hwas : s.writer.isServing with
      | false => exact (hs.gaveUp hwas).trans hmore
      | true =>
        obtain ⟨hwire, hempty⟩ := step_gaveUp hok h hwas ht
        have hall := hs.serving hwas
        rw [hwire, hempty, append_nil] at hall
        exact hall.trans hmore

theorem run_owing
    (hok : Meets (step x e) (fun s a => a.isFailedWrite = false ∧ s.StopsEmpty a) s as)
    (hrun : run (step x e) s as = some t) (hn : n ≤ s.written.length) (hs : Owing n messages s) :
    n ≤ t.written.length ∧ s.written <+: t.written ∧ Owing n messages t := by
  have hkeep : ∀ (u : Session ε) a v, (a.isFailedWrite = false ∧ u.StopsEmpty a) →
      u.step x e a = some v → (n ≤ u.written.length ∧ s.written <+: u.written ∧
      Owing n messages u) → n ≤ v.written.length ∧ s.written <+: v.written ∧
      Owing n messages v := by
    rintro u a v hok h ⟨hn, hpre, hu⟩
    have hmore := step_written h
    exact ⟨hn.trans hmore.length_le, hpre.trans hmore, step_owing hok h hn hu⟩
  exact @run_invariant _ _ (step x e) (fun s a => a.isFailedWrite = false ∧ s.StopsEmpty a)
    (fun u => n ≤ u.written.length ∧ s.written <+: u.written ∧ Owing n messages u) hkeep as s t hrun
    hok ⟨hn, prefix_refl _, hs⟩

/-- Where writes succeed and the writer stops only with nothing left in the queue of the
capabilities, what was in that queue when the shutdown was queued has been written, in
its order, before the writer shuts the socket down. -/
theorem queued_before_shutdown_written (hserv : s.writer.isServing)
    (hrun : run (step x e) s (.command .shutdown :: as) = some t)
    (hok : Meets (step x e) (fun s a => a.isFailedWrite = false ∧ s.StopsEmpty a) s
      (.command .shutdown :: as)) (hcl : t.writer.isServing = false) :
    ∃ frames, t.written = s.written ++ frames ∧
      s.capQueue.items.Sublist (frames.filterMap carried) := by
  have hstart : Owing s.written.length s.capQueue.items s := by
    constructor
    · exact fun _ => sublist_append_right _ _
    · rw [hserv]
      exact nofun
  obtain ⟨-, ⟨frames, hframes⟩, howing⟩ := run_owing hok hrun (le_refl _) hstart
  refine ⟨frames, hframes.symm, ?_⟩
  have hall := howing.gaveUp hcl
  rwa [← hframes, drop_left] at hall

section Sample

open Handshake (sampleHost phoneSession)

def fileCancel : OutboundMessage := ⟨"files.v1", [9]⟩

def shutsDown : List (Action Unit) :=
  [.poll [] none [], .poll [] none [], .teardown, .teardown]

theorem queued_before_shutdown_written_cancel :
    ∃ s t, run (step sampleHost phoneSession) phoneStart (opening ++ [Action.offer fileCancel]) =
        some s ∧
      run (step sampleHost phoneSession) s (.command .shutdown ::
        (shutsDown ++ [Action.takeMessage none 0, .wrote (.ok ()), .stop])) = some t ∧
      ∃ frames, t.written = s.written ++ frames ∧
        s.capQueue.items.Sublist (frames.filterMap carried) :=
  ⟨_, _, rfl, rfl, @queued_before_shutdown_written _ _ sampleHost phoneSession _ _
    (shutsDown ++ [Action.takeMessage none 0, .wrote (.ok ()), .stop]) rfl rfl (by decide) rfl⟩

/-- The writer finds the write queue closed and stops; the cancellation is never written. -/
theorem cancellation_dropped :
    ∃ s t, run (step sampleHost phoneSession) phoneStart (opening ++ [Action.offer fileCancel]) =
        some s ∧ s.capQueue.items = [fileCancel] ∧ s.writer.isServing ∧
      run (step sampleHost phoneSession) s (.command .shutdown ::
        (shutsDown ++ [Action.stop, .flushed, .teardown])) = some t ∧
      t.dispatch = .returned (.ok ()) (.ok ()) ∧ t.writer.isServing = false ∧ t.written = [] :=
  ⟨_, _, rfl, rfl, rfl, rfl, rfl, rfl, rfl⟩

end Sample

end OmniBridge.Desktop.Session
