import OmniBridge.Run
import OmniBridge.PhoneTrustStore

/-! The trust store's file over whole lives of the app: start-ups that read the
file or replace it, mutators that write the temporary file and rename it, and
crashes between any two of these steps. -/

namespace OmniBridge.Trust

open List Option

inductive Stage where
  | idle
  | writing (w : Write) (left : List Write)
  | written (w : Write) (left : List Write)
deriving DecidableEq

structure Process where
  store : Store
  stage : Stage := .idle
deriving DecidableEq

/-- The files, the process if one runs, the contents of existing files that
`load` replaced, and the document of the last `persist` that returned. -/
structure Phone (Byte : Type) where
  file : Option (List Byte)
  temp : Option (List Byte) := none
  process : Option Process := none
  replaced : List (List Byte) := []
  recorded : Option Document

inductive Action where
  | start (readable : Bool) (deviceId : String) (model : Chars) (count : Nat)
  | call (operation : Operation)
  | writeTemp (count : Nat)
  | writeFails
  | rename (ok : Bool)
  | crash

inductive Loaded where
  | existing (state : Document)
  | refused
  | fresh
deriving DecidableEq

variable {Byte : Type} (parse : List Byte → Option Document) (render : Document → List Byte)

/-- What `load` makes of the file: a read that fails and a text that does not
parse look the same. -/
def load (file : Option (List Byte)) (readable : Bool) : Loaded :=
  match if readable then file.bind parse else none with
  | none => .fresh
  | some existing =>
    if existing.schemaVersion = SCHEMA_VERSION then .existing existing
    else if SCHEMA_VERSION < existing.schemaVersion then .refused
    else .fresh

def emptyDocument (deviceId : String) (model : Chars) : Document :=
  { schemaVersion := SCHEMA_VERSION, deviceId := deviceId, deviceName := model, peers := some [] }

def Process.next (store : Store) : List Write → Process
  | [] => ⟨store, .idle⟩
  | w :: left => ⟨store.put w, .writing w left⟩

namespace Phone

def initial (file : Option (List Byte)) : Phone Byte :=
  { file := file, recorded := file.bind parse }

section

variable (s : Phone Byte)

/-- A write stops after `count` units where the process dies or the disk is full. -/
def step : Action → Option (Phone Byte)
  | .start readable deviceId model count =>
    match s.process, load parse s.file readable with
    | some _, _ => none
    | none, .existing state => some { s with process := some ⟨Store.load state, .idle⟩ }
    | none, .refused => some s
    | none, .fresh =>
      let state := emptyDocument deviceId model
      let text := render state
      some { s with
        file := some (text.take count)
        replaced := s.replaced ++ s.file.toList
        process := if text.length ≤ count then some ⟨Store.load state, .idle⟩ else none }
  | .call operation => s.process.bind (fun p =>
    match p.stage with
    | .idle => some { s with process := some (Process.next p.store (p.store.writes operation)) }
    | _ => none)
  | .writeTemp count => s.process.bind (fun p =>
    match p.stage with
    | .writing w left =>
      let text := render p.store.state
      some { s with
        temp := some (text.take count)
        process := some ⟨p.store, if text.length ≤ count then .written w left else .writing w left⟩
          }
    | _ => none)
  | .writeFails => s.process.bind (fun p =>
    match p.stage with
    | .writing _ _ => some { s with process := some ⟨p.store, .idle⟩ }
    | _ => none)
  | .rename ok => s.process.bind (fun p =>
    match p.stage with
    | .written w left =>
      some { s with
        file := if ok then s.temp else s.file
        temp := if ok then none else s.temp
        recorded := some p.store.state
        process := some (Process.next (p.store.publish w) left) }
    | _ => none)
  | .crash => s.process.map (fun _ => { s with process := none })

/-- Nothing has been replaced, and the file still holds the last document a
completed `persist` wrote: the next start-up finds it there. -/
def Kept : Prop := s.replaced = [] ∧ ∀ d ∈ s.recorded, s.file.bind parse = some d

/-- A start-up finds no file, or one it can read that parses and has a schema version. A rename
that succeeds brings a document of whole pairs, and one that fails had nothing new to bring. -/
def Sound : Action → Prop
  | .start readable _ _ _ => ∀ text ∈ s.file, readable ∧ ∃ d ∈ parse text, 1 ≤ d.schemaVersion
  | .rename ok => ∀ p ∈ s.process,
      if ok then p.store.state.WholePairs else s.file.bind parse = some p.store.state
  | _ => True

instance (s : Phone Byte) (a : Action) : Decidable (s.Sound parse a) := by
  unfold Sound
  induction a using Action.casesOn <;> infer_instance

def TempWhole : Prop :=
  ∀ p ∈ s.process, ∀ w left, p.stage = .written w left → s.temp = some (render p.store.state)

end

variable {parse render} {readable : Bool}

theorem load_fresh_iff {file} :
    load parse file readable = .fresh ↔ ∀ text ∈ file,
      ¬(readable ∧ ∃ d ∈ parse text, 1 ≤ d.schemaVersion) := by
  unfold load
  cases readable with
  | false => simp
  | true =>
    cases file with
    | none => simp
    | some text =>
      cases hd : parse text with
      | none => simp [hd]
      | some =>
        simp only [if_true, bind_some, hd, mem_some_iff, forall_eq', exists_eq_left', true_and]
        have hone : SCHEMA_VERSION = 1 := rfl
        split
        · exact iff_of_false nofun (by omega)
        · split
          · exact iff_of_false nofun (by omega)
          · exact iff_of_true rfl (by omega)

variable {s t : Phone Byte} {a : Action}

theorem step_tempWhole (h : s.TempWhole render) (hstep : s.step parse render a = some t) :
    t.TempWhole render := by
  cases a with
  | start =>
    unfold step at hstep
    dsimp only at hstep
    split at hstep
    · cases hstep
    · cases hstep
      intro p hp w _ hst
      cases hp
      cases hst
    · cases hstep
      exact h
    cases hstep
    intro p hp w _ hst
    replace hp : (if _ then _ else _) = some p := hp
    split at hp
    · cases hp
      cases hst
    · cases hp
  | call | rename =>
    obtain ⟨p, _, hstep⟩ := bind_eq_some_iff.mp hstep
    split at hstep
    · cases hstep
      intro q hq w _ hst
      cases hq
      unfold Process.next at hst
      split at hst <;> cases hst
    · cases hstep
  | writeTemp =>
    obtain ⟨p, _, hstep⟩ := bind_eq_some_iff.mp hstep
    split at hstep
    · cases hstep
      intro q hq w _ hst
      cases hq
      split at hst
      · next hlen => rw [take_of_length_le hlen]
      · cases hst
    · cases hstep
  | writeFails =>
    obtain ⟨p, _, hstep⟩ := bind_eq_some_iff.mp hstep
    split at hstep
    · cases hstep
      intro q hq w _ hst
      cases hq
      cases hst
    · cases hstep
  | crash =>
    obtain ⟨p, _, rfl⟩ := map_eq_some_iff.mp hstep
    exact nofun

theorem start_kept_iff (h : s.Kept parse) {deviceId model count}
    (hstep : s.step parse render (.start readable deviceId model count) = some t) :
    t.Kept parse ↔ s.Sound parse (.start readable deviceId model count) := by
  have hsound (hne : load parse s.file readable ≠ .fresh) :
      s.Sound parse (.start readable deviceId model count) := by
    intro _ htext
    by_contra hbad
    refine hne (load_fresh_iff.mpr ?_)
    intro _ htext'
    obtain rfl := mem_unique htext htext'
    exact hbad
  unfold step at hstep
  dsimp only at hstep
  split at hstep
  case h_2 hload | h_3 hload =>
    cases hstep
    exact iff_of_true h (hsound (by rw [hload]; nofun))
  · cases hstep
  · next hload =>
    cases hstep
    cases hfile : s.file with
    | none =>
      refine iff_of_true ⟨?_, ?_⟩ ?_
      · simpa using h.1
      · intro d hd
        have hrec := h.2 d hd
        rw [hfile] at hrec
        cases hrec
      · intro _ htext
        rw [hfile] at htext
        cases htext
    | some text =>
      refine iff_of_false ?_ ?_
      · intro hkept
        have hnil := hkept.1
        simp at hnil
      · intro hok
        exact load_fresh_iff.mp hload text hfile (hok text hfile)

theorem rename_kept_iff (hjson : ∀ d, parse (render d) = some d.written)
    (hwhole : s.TempWhole render) (h : s.Kept parse) {ok}
    (hstep : s.step parse render (.rename ok) = some t) :
    t.Kept parse ↔ s.Sound parse (.rename ok) := by
  obtain ⟨p, hp, hstep⟩ := bind_eq_some_iff.mp hstep
  split at hstep
  · next w left hst =>
    cases hstep
    have hsound : s.Sound parse (.rename ok) ↔
        if ok then p.store.state.WholePairs else s.file.bind parse = some p.store.state := by
      simp only [Sound, hp, mem_some_iff, forall_eq']
    rw [hsound]
    cases ok with
    | true =>
      rw [if_pos rfl, Kept, if_pos rfl, hwhole p hp w left hst]
      simp [h.1, hjson, Document.WholePairs]
    | false =>
      rw [if_neg nofun, Kept, if_neg nofun]
      simp [h.1]
  · cases hstep

theorem step_kept_iff (hjson : ∀ d, parse (render d) = some d.written) (hwhole : s.TempWhole render)
    (h : s.Kept parse) (hstep : s.step parse render a = some t) :
    t.Kept parse ↔ s.Sound parse a := by
  cases a with
  | start => exact start_kept_iff h hstep
  | rename => exact rename_kept_iff hjson hwhole h hstep
  | call | writeTemp | writeFails =>
    obtain ⟨p, -, hstep⟩ := bind_eq_some_iff.mp hstep
    split at hstep
    · cases hstep
      exact iff_of_true h trivial
    · cases hstep
  | crash =>
    obtain ⟨p, -, rfl⟩ := map_eq_some_iff.mp hstep
    exact iff_of_true h trivial

/-- No existing store is ever replaced and the last document written is always there to be loaded,
exactly in the runs whose every step is sound. -/
theorem trust_store_kept_iff (hjson : ∀ d, parse (render d) = some d.written)
    (file : Option (List Byte)) (as : List Action) {t : Phone Byte}
    (hrun : run (step parse render) (initial parse file) as = some t) :
    Always (step parse render) (Kept parse) (initial parse file) as ↔
      Meets (step parse render) (Sound parse) (initial parse file) as :=
  always_iff_meets (step parse render) (fun _ _ _ hs hu => step_tempWhole hs hu)
    (fun _ _ _ hs hp hu => step_kept_iff hjson hs hp hu) hrun nofun ⟨rfl, fun _ hd => hd⟩

/-- For the concrete runs a text is one unit, and what is cut off does not parse. -/
def oneUnit (state : Document) : List Document := [state.written]

def readUnit : List Document → Option Document
  | [state] => some state
  | _ => none

def sampleComputer : Fingerprint := ⟨replicate 32 0, rfl⟩

def samplePeer : TrustedPeer :=
  ⟨"desk", [100], sampleComputer, 1, {"files.v1"}, [], false, false, {}, {}⟩

def sampleDocument : Document :=
  { schemaVersion := 1, deviceId := "phone", deviceName := []
    peers := some [some samplePeer.toJson] }

def revokeAndRestart : List Action :=
  [.start true "" [] 0, .call (.revokePeer sampleComputer), .writeTemp 0, .writeTemp 1,
    .rename true, .crash, .start true "" [] 0]

theorem trust_store_kept_revocation :
    ∃ t, run (step readUnit oneUnit) (initial readUnit (some [sampleDocument])) revokeAndRestart =
      some t ∧ (t.process.map (·.store.records)) = some [samplePeer.asRevoked] ∧
      Always (step readUnit oneUnit) (Kept readUnit) (initial readUnit (some [sampleDocument]))
      revokeAndRestart :=
  ⟨_, rfl, by decide,
    (trust_store_kept_iff (fun _ => rfl) (some [sampleDocument]) revokeAndRestart rfl).mpr
    (by decide +kernel)⟩

/-- The file is intact but cannot be read at one start-up: it is overwritten by
an empty store. -/
theorem unreadable_store_replaced :
    (run (step readUnit oneUnit) (initial readUnit (some [sampleDocument]))
      [.start false "new" [] 1]).map (fun s => (s.replaced, s.file)) = some ([[sampleDocument]],
      some [emptyDocument "new" []]) := by
  decide

end Phone

end OmniBridge.Trust
