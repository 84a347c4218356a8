import OmniBridge.DesktopTransferRecords

/-! What a data stream that is refused is told: of all the checks it can fail, the answer
shows whether the id is that of a transfer of the dialer that waits for its stream. -/

namespace OmniBridge.Desktop.Files.TransferManager

variable {Fp : Type} [DecidableEq Fp] {host : Host Fp} {s s' t t' : TransferManager Fp} {peer : Fp}
  {profile : Profile} {id : TransferId} {mac : Bytes} {answer answer' : DataStreamReady}
  {reason : FailureReason} {i : Nat} {a : Action Fp}

def awaits (s : TransferManager Fp) (id : TransferId) (peer : Fp) : Bool :=
  (s.transfers.get id).any (fun r => r.peer = peer && r.state = .transferring && r.challenge.isSome)

/-- The stream of a peer that holds the grant is checked in `s` and refused, and its dialer has
been sent `answer` by the time of `t`. -/
structure Refused (host : Host Fp) (peer : Fp) (profile : Profile) (id : TransferId) (mac : Bytes)
    (s t : TransferManager Fp) (answer : DataStreamReady) : Prop where
  refused : ∃ reason, s.checkStream host id peer profile mac = .error reason
  answered : ∃ i as task, s.tasks[i]? =
    some { job := .acceptStream peer profile id mac .checking } ∧
    run (step host) s (.proceed i .go :: as) = some t ∧ t.tasks[i]? = some task ∧
    answer ∈ task.replies

theorem reason_of_checkStream (h : s.checkStream host id peer profile mac = .error reason) :
    reason = if s.awaits id peer then .notAuthorized else .unknownTransfer := by
  unfold checkStream at h
  unfold awaits
  split at h
  · next hr =>
    cases h
    simp [hr]
  split at h
  · cases h
    simp_all
  split at h
  · cases h
    simp_all
  split at h
  · cases h
    simp_all
  split at h
  · cases h
    simp_all
  split at h
  · cases h
    simp_all
  · cases h

def Refusing (peer : Fp) (profile : Profile) (id : TransferId) (mac : Bytes)
    (reason : FailureReason) (i : Nat) (s : TransferManager Fp) : Prop :=
  ∃ task, s.tasks[i]? = some task ∧
    (task = { job := .acceptStream peer profile id mac (.refusing reason) } ∨ task.job = .done ∧
    ∀ m ∈ task.replies, m = ⟨false, some reason⟩)

theorem step_refusing (hstep : s.step host a = some t)
    (hs : s.Refusing peer profile id mac reason i) : t.Refusing peer profile id mac reason i := by
  obtain ⟨task, htask, hcase⟩ := hs
  rcases (step_stepped hstep).persists htask with hkept | ⟨input, _, -, hadv, -, hout⟩
  · exact ⟨task, hkept, hcase⟩
  rcases hcase with rfl | ⟨hdone, -⟩
  · cases input with
    | outcome ok =>
      cases hadv
      refine ⟨_, hout, .inr ⟨rfl, ?_⟩⟩
      cases ok <;> simp
    | _ => cases hadv
  · rw [advance, hdone] at hadv
    cases hadv

theorem Refused.answer_eq (h : Refused host peer profile id mac s t answer) :
    answer = ⟨false, some (if s.awaits id peer then .notAuthorized else .unknownTransfer)⟩ := by
  obtain ⟨⟨reason, hreason⟩, i, _, _, hcheck, hrun, htask, hmem⟩ := h
  obtain ⟨u, hu, hrest⟩ := run_cons_eq_some _ hrun
  have href : u.Refusing peer profile id mac reason i := by
    have hi := (List.getElem?_eq_some_iff.mp hcheck).1
    simp only [step, hcheck, Option.bind_some, advance, acceptStream, hreason, goes,
      Option.map_some, Option.some.injEq] at hu
    subst hu
    exact ⟨_, by simp [resume, apply, hi, Task.goes], .inl rfl⟩
  obtain ⟨_, htask', hcase⟩ := run_preserves (step host) (fun _ _ _ => step_refusing) hrest href
  obtain rfl := Option.mem_unique htask htask'
  rcases hcase with rfl | ⟨-, hrepl⟩
  · cases hmem
  · rw [hrepl answer hmem, reason_of_checkStream hreason]

/-- Two refusals of one dialer, of the same id and MAC, are answered alike exactly where the id is
that of a transfer of the dialer that waits for its stream in both states, or in neither. -/
theorem refused_alike_iff (h : Refused host peer profile id mac s t answer)
    (h' : Refused host peer profile id mac s' t' answer') :
    answer = answer' ↔ s.awaits id peer = s'.awaits id peer := by
  rw [h.answer_eq, h'.answer_eq]
  cases s.awaits id peer <;> cases s'.awaits id peer <;> simp

def DialsBlindly (as : List (Action Nat)) (i : Nat) (answer : DataStreamReady) : Prop :=
  ∃ s t, run (step (sampleHost .acceptor)) (start {})
      (as ++ [Action.stream 1 .pliwee ⟨1, (sampleId 1).bytes, []⟩, .proceed i (.outcome true)]) =
        some s ∧
    Refused (sampleHost .acceptor) 1 .pliwee (sampleId 1) [] s t answer

theorem refused_alike_unknown :
    ∃ s t s' t' answer, Refused (sampleHost .acceptor) 1 .pliwee (sampleId 1) [] s t answer ∧
      Refused (sampleHost .acceptor) 1 .pliwee (sampleId 1) [] s' t' answer ∧
      s.awaits (sampleId 1) 1 = s'.awaits (sampleId 1) 1 := by
  obtain ⟨s, t, -, h⟩ : DialsBlindly [] 0 ⟨false, some .unknownTransfer⟩ :=
    ⟨_, _, rfl, ⟨_, rfl⟩, 0, [.proceed 0 (.outcome true)], _, rfl, rfl, rfl,
      List.mem_singleton_self _⟩
  obtain ⟨s', t', -, h'⟩ : DialsBlindly ((sendsFile [5]).take 8) 1 ⟨false, some .unknownTransfer⟩ :=
    ⟨_, _, rfl, ⟨_, rfl⟩, 1, [.proceed 1 (.outcome true)], _, rfl, rfl, rfl,
      List.mem_singleton_self _⟩
  exact ⟨s, t, s', t', _, h, h', (refused_alike_iff h h').mp rfl⟩

/-- The id is unknown, and the id is that of a transfer that waits for the stream of its peer. -/
theorem wrong_mac_told_from_unknown_id :
    DialsBlindly [] 0 ⟨false, some .unknownTransfer⟩ ∧
      DialsBlindly ((sendsFile [5]).take 14) 2 ⟨false, some .notAuthorized⟩ :=
  ⟨⟨_, _, rfl, ⟨_, rfl⟩, 0, [.proceed 0 (.outcome true)], _, rfl, rfl, rfl,
    List.mem_singleton_self _⟩, ⟨_, _, rfl, ⟨_, rfl⟩, 2, [.proceed 2 (.outcome true)], _, rfl, rfl,
    rfl, List.mem_singleton_self _⟩⟩

end OmniBridge.Desktop.Files.TransferManager
