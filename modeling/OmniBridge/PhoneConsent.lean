import OmniBridge.Run

/-! Sending the phone's clipboard. A clip that the platform marks sensitive raises a question, and
the answer repeats the call, which reads the clipboard anew. -/

namespace OmniBridge.ClipboardSync

inductive ReadFailure where
  | notAllowed
  | empty
  | notText
  | rejected

structure Clip where
  text : String
  sensitive : Bool

inductive SendFailure where
  | notPermitted
  | notConnected
  | cannotRead (failure : ReadFailure)
  | needsConfirmation (bytes : Nat)

structure Surroundings where
  allowSend : Bool
  allowSendText : Bool
  connected : Bool

def sendText (x : Surroundings) (clip : Clip) : Except SendFailure Clip :=
  if !x.allowSendText then .error .notPermitted
  else if !x.connected then .error .notConnected
  else .ok clip

def sendCurrentClipboard (x : Surroundings) (read : Except ReadFailure Clip)
    (confirmedSensitive : Bool) : Except SendFailure Clip :=
  if !x.allowSend then .error .notPermitted
  else match read with
    | .error failure => .error (.cannotRead failure)
    | .ok clip =>
      if clip.sensitive && !confirmedSensitive then .error
        (.needsConfirmation clip.text.utf8ByteSize)
      else sendText x clip

/-- A question is kept with the text it was raised for, which the person is not shown. -/
structure Consent (Peer : Type) where
  clipboard : Except ReadFailure Clip
  questions : List (Peer × String) := []
  confirmed : List (Peer × String) := []
  sent : List (Peer × Clip) := []

inductive Move (Peer : Type) where
  | copy (clipboard : Except ReadFailure Clip)
  | send (peer : Peer) (x : Surroundings)
  | answer (index : Nat) (yes : Bool) (x : Surroundings)

namespace Consent

variable {Peer : Type}

def call (peer : Peer) (x : Surroundings) (confirmedSensitive : Bool) (s : Consent Peer) :
    Consent Peer :=
  match s.clipboard, sendCurrentClipboard x s.clipboard confirmedSensitive with
  | _, .ok clip => { s with sent := s.sent ++ [(peer, clip)] }
  | .ok clip, .error (.needsConfirmation _) =>
    { s with questions := s.questions ++ [(peer, clip.text)] }
  | _, _ => s

def step (s : Consent Peer) : Move Peer → Option (Consent Peer)
  | .copy clipboard => some { s with clipboard }
  | .send peer x => some (s.call peer x false)
  | .answer index yes x =>
    (s.questions[index]?).map fun q =>
      let s := { s with questions := s.questions.eraseIdx index }
      if yes then { s with confirmed := s.confirmed ++ [q] }.call q.1 x true else s

/-- Every sensitive text that was sent is one the person was asked about, for that computer. -/
def Consented (s : Consent Peer) : Prop :=
  ∀ m ∈ s.sent, m.2.sensitive → (m.1, m.2.text) ∈ s.confirmed

/-- A question is confirmed while the clipboard has no other sensitive text than the one asked
about. -/
def Unchanged (s : Consent Peer) : Move Peer → Prop
  | .answer index true _ =>
    ∀ q ∈ s.questions[index]?, ∀ clip, s.clipboard = .ok clip → clip.sensitive → clip.text = q.2
  | _ => True

variable {s t : Consent Peer} {m : Move Peer}

theorem sendCurrentClipboard_ok {x read confirmed clip}
    (h : sendCurrentClipboard x read confirmed = .ok clip) :
    read = .ok clip ∧ (clip.sensitive → confirmed) := by
  unfold sendCurrentClipboard sendText at h
  grind

theorem call_consented {peer x confirmed} (hs : s.Consented)
    (hok : confirmed = true → ∀ clip, s.clipboard = .ok clip → clip.sensitive = true →
      (peer, clip.text) ∈ s.confirmed) : (s.call peer x confirmed).Consented := by
  unfold call
  split
  · next clip h =>
    obtain ⟨hread, hsens⟩ := sendCurrentClipboard_ok h
    intro m hm hmark
    rcases List.mem_append.mp hm with hold | hnew
    · exact hs m hold hmark
    · obtain rfl := List.mem_singleton.mp hnew
      exact hok (hsens hmark) clip hread hmark
  · exact hs
  · exact hs

theorem step_consented (hok : s.Unchanged m) (h : s.step m = some t) (hs : s.Consented) :
    t.Consented := by
  cases m with
  | copy =>
    cases h
    exact hs
  | send =>
    cases h
    exact call_consented hs nofun
  | answer index yes =>
    obtain ⟨q, hq, rfl⟩ := Option.map_eq_some_iff.mp h
    cases yes with
    | false => exact hs
    | true =>
      refine call_consented (fun m hm hmark => List.mem_append_left _ (hs m hm hmark)) ?_
      intro _ clip hclip hmark
      rw [hok q hq clip hclip hmark]
      exact List.mem_append_right _ (List.mem_singleton_self q)

/-- While the clipboard holds what each confirmed question was raised for, a sensitive text is sent
only with the consent to that text. -/
theorem sensitive_sent_with_consent {ms : List (Move Peer)} (clipboard : Except ReadFailure Clip)
    (hrun : run step { clipboard } ms = some s) (hok : Meets step Unchanged { clipboard } ms) :
    s.Consented :=
  run_invariant step (fun _ _ _ => step_consented) hrun hok nofun

def granted : Surroundings := ⟨true, true, true⟩

def secret (text : String) : Except ReadFailure Clip := .ok ⟨text, true⟩

theorem sensitive_sent_with_consent_confirmed :
    ∃ s, run step ⟨secret "a", [], [], []⟩ [.send 1 granted, .answer 0 true granted] = some s ∧
      s.sent.length = 1 ∧ s.Consented := by
  refine ⟨_, rfl, rfl, @sensitive_sent_with_consent _ _ [.send 1 granted, .answer 0 true granted]
    (secret "a") rfl ?_⟩
  simp [Meets, Unchanged, step, call, sendCurrentClipboard, granted, secret]

theorem sensitive_sent_unasked :
    ∃ s, run step ⟨secret "a", [], [], []⟩ [.send 1 granted, .copy (secret "b"),
      .answer 0 true granted] = some s ∧ ¬ s.Consented := by
  refine ⟨⟨secret "b", [], [(1, "a")], [(1, ⟨"b", true⟩)]⟩, rfl, fun h => ?_⟩
  simpa using h (1, ⟨"b", true⟩) (by simp) rfl

end Consent

end OmniBridge.ClipboardSync
