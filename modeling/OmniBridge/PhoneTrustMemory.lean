import OmniBridge.PhoneTrustFile

/-! The trust store in memory and the file it was written to. A mutator changes the
document before it is written and the records only after. -/

namespace OmniBridge.Trust

def Write.Whole : Write → Prop
  | .selectedPeer (some hex) => ∃ f : Fingerprint, hex = f.toHex
  | _ => True

theorem Store.publish_put_load (d) {w} (hw : w.Whole) :
    ((load d).put w).publish w = load (w.put d) := by
  cases w with
  | deviceName | notificationSecretGeneration | peers => rfl
  | selectedPeer hex =>
    cases hex with
    | none => rfl
    | some hex =>
      obtain ⟨f, rfl⟩ := hw
      have hne : f.toHex ≠ [] := fun h =>
        nomatch (h ▸ f.fromHex_toHex : Fingerprint.fromHex [] = some f)
      simp [load, put, publish, Write.put, readSelectedPeer, readPeers, hne, f.fromHex_toHex]

theorem Store.writes_whole (store : Store) (operation : Operation) :
    ∀ w ∈ store.writes operation, w.Whole := by
  intro w hw
  cases w with
  | deviceName | notificationSecretGeneration | peers => trivial
  | selectedPeer hex =>
    cases hex with
    | none => trivial
    | some hex =>
      cases operation with
      | selectPeer fingerprint =>
        simp only [writes] at hw
        split at hw <;> simp at hw
        exact ⟨fingerprint, hw⟩
      | _ =>
        simp only [writes, addPeer, editPeer, clearSelectedPeer, applySelectionAfterRemoval] at hw
        grind

namespace Phone

variable {Byte : Type} (parse : List Byte → Option Document) {render : Document → List Byte}

/-- What the store has in memory is what a start-up would load. -/
def Synced (s : Phone Byte) : Prop :=
  ∀ p ∈ s.process, p.stage = .idle →
    load parse s.file true = .existing p.store.state ∧ p.store = Store.load p.store.state

/-- A first document is of whole pairs. No mutator is called while a failed write has left the
document ahead of its file. A rename that succeeds brings a document of whole pairs, and one that
fails had nothing new to bring. -/
def Lasting (s : Phone Byte) : Action → Prop
  | .start readable deviceId model _ =>
    load parse s.file readable = .fresh → (emptyDocument deviceId model).WholePairs
  | .call _ => ∀ p ∈ s.process, load parse s.file true = .existing p.store.state
  | .rename ok => s.Sound parse (.rename ok)
  | _ => True

instance (s : Phone Byte) (a : Action) : Decidable (s.Lasting parse a) := by
  unfold Lasting
  induction a using Action.casesOn <;> infer_instance

/-- The records and the selection are the file's; the document may be one write ahead of it. -/
def Ahead (s : Phone Byte) : Prop :=
  ∀ p ∈ s.process, ∃ d, load parse s.file true = .existing d ∧
    p.store = { Store.load d with state := p.store.state } ∧ ∀ w left, p.stage = .writing w left ∨
    p.stage = .written w left → p.store.state = w.put d ∧ ∀ w' ∈ w :: left, w'.Whole

variable {parse} {s t : Phone Byte} {a : Action} {d : Document} {l : List Write}

theorem synced_next (hp : t.process = some (Process.next (Store.load d) l)) (hl : ∀ w ∈ l, w.Whole)
    (hload : load parse t.file true = .existing d) :
    t.Ahead parse ∧ (a ≠ .writeFails → t.Synced parse) := by
  unfold Ahead Synced
  rw [hp]
  cases l with
  | nil =>
    refine ⟨?_, fun _ => ?_⟩
    · rintro p ⟨⟩
      exact ⟨d, hload, rfl, by rintro w left (h | h) <;> cases h⟩
    · rintro p ⟨⟩ -
      exact ⟨hload, rfl⟩
  | cons w left =>
    refine ⟨?_, fun _ => ?_⟩
    · rintro p ⟨⟩
      refine ⟨d, hload, rfl, ?_⟩
      rintro w' left' (h | h) <;> cases h
      exact ⟨rfl, hl⟩
    · rintro p ⟨⟩ hidle
      cases hidle

theorem load_existing_iff {file} :
    load parse file true = .existing d ↔ file.bind parse = some d ∧
      d.schemaVersion = SCHEMA_VERSION := by
  unfold load
  cases file.bind parse with
  | none => simp
  | some d' => grind

theorem step_synced (hjson : ∀ d : Document, d.WholePairs → parse (render d) = some d)
    (hwhole : s.TempWhole render) (hahead : s.Ahead parse) (hok : s.Lasting parse a)
    (hstep : s.step parse render a = some t) :
    t.Ahead parse ∧ (a ≠ .writeFails → t.Synced parse) := by
  cases a with
  | start readable deviceId model count =>
    unfold step at hstep
    dsimp only at hstep
    split at hstep
    · cases hstep
    · next hload =>
      cases hstep
      cases readable with
      | false => cases hload
      | true => exact synced_next (l := []) rfl (List.forall_mem_nil _) hload
    · next hnone _ =>
      cases hstep
      refine ⟨hahead, fun _ p hp => ?_⟩
      cases hnone.symm.trans hp
    rename_i hload
    cases hstep
    by_cases hlen : (render (emptyDocument deviceId model)).length ≤ count
    · refine synced_next (l := []) (if_pos hlen) (List.forall_mem_nil _)
        (load_existing_iff.mpr ⟨?_, rfl⟩)
      rw [List.take_of_length_le hlen]
      exact hjson _ (hok hload)
    · simp only [if_neg hlen]
      exact ⟨fun _ hp => (nomatch hp), fun _ _ hp => nomatch hp⟩
  | call operation =>
    obtain ⟨p, hp, hstep⟩ := Option.bind_eq_some_iff.mp hstep
    split at hstep
    · next hidle =>
      cases hstep
      obtain ⟨d, hload, hstore, -⟩ := hahead p hp
      obtain rfl : d = p.store.state := by simpa [hload] using hok p hp
      have hloaded : Store.load p.store.state = p.store := hstore.symm
      exact synced_next (by rw [hloaded]) (p.store.writes_whole operation) hload
    · cases hstep
  | writeTemp count =>
    obtain ⟨p, hp, hstep⟩ := Option.bind_eq_some_iff.mp hstep
    split at hstep
    · next w left hst =>
      cases hstep
      obtain ⟨d, hload, hstore, hwr⟩ := hahead p hp
      unfold Ahead Synced
      split
      all_goals
        refine ⟨?_, fun _ => ?_⟩
        · rintro q ⟨⟩
          refine ⟨d, hload, hstore, ?_⟩
          rintro w' left' (h | h) <;> cases h
          exact hwr w left (.inl hst)
        · rintro q ⟨⟩ hidle
          cases hidle
    · cases hstep
  | writeFails =>
    obtain ⟨p, hp, hstep⟩ := Option.bind_eq_some_iff.mp hstep
    split at hstep
    · cases hstep
      obtain ⟨d, hload, hstore, -⟩ := hahead p hp
      refine ⟨?_, fun h => absurd rfl h⟩
      rintro q ⟨⟩
      exact ⟨d, hload, hstore, by rintro w left (h | h) <;> cases h⟩
    · cases hstep
  | rename ok =>
    obtain ⟨p, hp, hstep⟩ := Option.bind_eq_some_iff.mp hstep
    split at hstep
    · next w left hst =>
      cases hstep
      obtain ⟨d, hload, hstore, hwr⟩ := hahead p hp
      obtain ⟨hstate, hleft⟩ := hwr w left (.inr hst)
      obtain ⟨hw, hleft⟩ := List.forall_mem_cons.mp hleft
      have hpubl : p.store.publish w = Store.load (w.put d) := by
        rw [hstore, hstate]
        exact Store.publish_put_load d hw
      have hvers : (w.put d).schemaVersion = _ :=
        .trans (by cases w <;> rfl) (load_existing_iff.mp hload).2
      refine synced_next (by rw [hpubl]) hleft (load_existing_iff.mpr ⟨?_, hvers⟩)
      rw [← hstate]
      cases ok with
      | true =>
        rw [if_pos rfl, hwhole p hp w left hst]
        exact hjson _ (hok p hp)
      | false => exact hok p hp
    · cases hstep
  | crash =>
    obtain ⟨p, -, rfl⟩ := Option.map_eq_some_iff.mp hstep
    exact ⟨fun _ hp => (nomatch hp), fun _ _ hp => nomatch hp⟩

/-- After every step but a failed write, which its caller is told of, the store is what
a start-up would make of the file. -/
theorem memory_equals_disk (hjson : ∀ d : Document, d.WholePairs → parse (render d) = some d)
    (file : Option (List Byte)) (as : List Action) (a : Action) (ha : a ≠ .writeFails)
    (hrun : run (step parse render) (initial parse file) as = some s)
    (hstep : s.step parse render a = some t)
    (hok : Meets (step parse render) (Lasting parse) (initial parse file) (as ++ [a])) :
    ∀ p ∈ t.process, p.stage = .idle → load parse t.file true = .existing p.store.state ∧
      p.store = Store.load p.store.state := by
  have hinv : s.TempWhole render ∧ s.Ahead parse := by
    have hmeets := (hok.of_append (step parse render) hrun).1
    refine @run_invariant _ _ (step parse render) _ (fun s => s.TempWhole render ∧ s.Ahead parse) ?_
      _ _ _ hrun hmeets ?_
    · intro s a t hok hstep hs
      exact ⟨step_tempWhole hs.1 hstep, (step_synced hjson hs.1 hs.2 hok hstep).1⟩
    · exact ⟨fun _ hp => (nomatch hp), fun _ hp => nomatch hp⟩
  exact (step_synced hjson hinv.1 hinv.2 (hok.last (step parse render) hrun) hstep).2 ha

theorem memory_equals_disk_revoked :
    ∃ s t, run (step readUnit oneUnit) (initial readUnit (some [sampleDocument])) revokeAndRestart =
        some s ∧ s.step readUnit oneUnit (.call .clearSelectedPeer) = some t ∧
      t.process.map (·.store.records) = some [samplePeer.asRevoked] ∧
      ∀ p ∈ t.process, p.stage = .idle → load readUnit t.file true = .existing p.store.state ∧
        p.store = Store.load p.store.state :=
  have hjson : ∀ d : Document, d.WholePairs → readUnit (oneUnit d) = some d := fun _ =>
    congrArg some
  ⟨_, _, rfl, rfl, by decide, memory_equals_disk hjson (some [sampleDocument]) revokeAndRestart
    (.call .clearSelectedPeer) nofun rfl rfl (by decide +kernel)⟩

/-- The rename fails and nothing says so: the computer is revoked in memory, and trusted
again after a restart. -/
theorem revoked_until_restart :
    (run (step readUnit oneUnit) (initial readUnit (some [sampleDocument])) [.start true "" [] 0,
      .call (.revokePeer sampleComputer), .writeTemp 1, .rename false]).map
      (fun s => (s.process.map (fun p => (p.stage, p.store.records)), load readUnit s.file true)) =
      some (some (.idle, [samplePeer.asRevoked]), .existing sampleDocument) ∧
      (Store.load sampleDocument).peers = [samplePeer] := by
  decide

end Phone

end OmniBridge.Trust
