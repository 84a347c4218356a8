import OmniBridge.Run
import OmniBridge.Slots
import OmniBridge.ClipboardManager

/-! The loop through the clipboard: remote clips are armed, written and
signalled while the watcher reads late. The relay rule is that no text last
written by a remote apply leaves for a peer. -/

namespace OmniBridge.Clipboard

open SuppressionCache

inductive Writer where
  | remote
  | user
deriving DecidableEq

/-- A remote clip between its arming and the end of `write_text`. A clip taken
from the pending table is put back when the write fails. -/
structure Applying (Peer : Type) where
  text : ClipboardText
  sensitive : Bool
  held : Option (Peer × PendingClip)

structure LocalEvent where
  text : ClipboardText
  sensitive : Bool
  originDeviceId : String

inductive Watcher (Peer : Type) where
  | idle
  | woken
  | read (text : ClipboardText) (writer : Writer)
  | sending (event : LocalEvent) (writer : Writer) (peers : List Peer)

structure Sent (Peer : Type) where
  peer : Peer
  session : Nat
  event : LocalEvent
  writer : Writer

structure System (Peer : Type) where
  manager : Manager Peer := {}
  peers : List Peer := []
  policyFor : Peer → ClipboardPolicy := fun _ => .DENIED
  clipboard : Option (ClipboardText × Writer) := none
  signals : Nat := 0
  applying : List (Applying Peer) := []
  watcher : Watcher Peer := .idle
  sent : List (Sent Peer) := []
  now : Nat := 0

inductive Action (Peer : Type) where
  | tick (ms : Nat)
  | setPolicy (peer : Peer) (policy : ClipboardPolicy)
  | attach (peer : Peer) (session : Nat)
  | detach (peer : Peer)
  | update (peer : Peer) (peerDeviceId : String) (update : ClipboardUpdate)
  | applyPending (peer : Peer)
  | finishWrite (index : Nat) (ok : Bool)
  | userCopy (content : Option ClipboardText)
  | signal
  | read (ok : Bool)
  | take
  | deliver (accepted : Bool)

namespace System

variable {Peer : Type} [DecidableEq Peer] (contentHash : String → Digest)

section

variable (s : System Peer)

def autoSendPeers : List Peer :=
  s.peers.filter (fun p => (s.policyFor p).mayAutoSend)

/-- `apply` up to `write_text`: the entry is armed and the write is under way. -/
def beginApply (text : ClipboardText) (sensitive : Bool) (origin : String)
    (held : Option (Peer × PendingClip)) (s : System Peer) : System Peer :=
  { s with manager := s.manager.armFor contentHash s.now text origin
           applying := s.applying ++ [⟨text, sensitive, held⟩] }

/-- The write of one clip ended. A success changes the clipboard and queues its
signal; a failure releases the entry and puts a held clip back. -/
def endApply (a : Applying Peer) (ok : Bool) (rest : List (Applying Peer)) (s : System Peer) :
    System Peer :=
  if ok then
    { s with applying := rest, clipboard := some (a.text, .remote), signals := s.signals + 1 }
  else
    let m := (s.manager.takeFor contentHash s.now a.text).2
    { s with applying := rest
             manager := match a.held with
               | none => m
               | some (peer, clip) =>
                 { m with pending := Function.update m.pending peer (some clip) } }

def step : Action Peer → Option (System Peer)
  | .tick ms => some { s with now := s.now + ms }
  | .setPolicy peer policy => some { s with policyFor := Function.update s.policyFor peer policy }
  | .attach peer session => some { s with manager := s.manager.attachSession peer session }
  | .detach peer =>
    some { s with manager := ((s.manager.detachSender peer).detachPending peer).detachResults peer }
  | .update peer peerDeviceId update =>
    match s.manager.handleUpdate contentHash (s.policyFor peer) s.now peer peerDeviceId update with
    | (m, .answer _) => some { s with manager := m }
    | (m, .apply text sensitive origin) =>
      some ({ s with manager := m }.beginApply contentHash text sensitive origin none)
  | .applyPending peer =>
    match s.manager.takePending (s.policyFor peer) s.now peer with
    | (m, .error _) => some { s with manager := m }
    | (m, .ok clip) =>
      some ({ s with manager := m }.beginApply contentHash clip.text clip.sensitive
        clip.originDeviceId (some (peer, clip)))
  | .finishWrite index ok =>
    (s.applying[index]?).map (fun a => s.endApply contentHash a ok (s.applying.eraseIdx index))
  | .userCopy content =>
    some { s with clipboard := content.map (fun t => (t, .user)), signals := s.signals + 1 }
  | .signal =>
    match s.watcher, s.signals with
    | .idle, n + 1 => some { s with watcher := .woken, signals := n }
    | _, _ => none
  | .read ok =>
    match s.watcher, s.clipboard, ok with
    | .woken, some (text, writer), true => some { s with watcher := .read text writer }
    | .woken, _, _ => some { s with watcher := .idle }
    | _, _, _ => none
  | .take =>
    match s.watcher with
    | .read text writer =>
      match s.manager.takeFor contentHash s.now text with
      | (some _, m) => some { s with manager := m, watcher := .idle }
      | (none, m) =>
        some { s with manager := m
                      watcher := .sending ⟨text, false, m.localDeviceId⟩ writer s.autoSendPeers }
    | _ => none
  | .deliver accepted =>
    match s.watcher with
    | .sending _ _ [] => some { s with watcher := .idle }
    | .sending event writer (peer :: rest) =>
      match s.manager.sessions peer, accepted with
      | some session, true =>
        some { s with sent := s.sent ++ [⟨peer, session, event, writer⟩]
                      watcher := .sending event writer rest }
      | _, _ => some { s with watcher := .sending event writer rest }
    | _ => none

def init (localDeviceId : String) (peers : List Peer) (policyFor : Peer → ClipboardPolicy) :
    System Peer :=
  { manager := { localDeviceId := localDeviceId }, peers := peers, policyFor := policyFor }

def observing (d : Digest) : Nat :=
  s.signals + match s.watcher with
    | .woken => 1
    | .read text _ => if contentHash text.text = d then 1 else 0
    | _ => 0

def inFlight (d : Digest) : Nat :=
  s.applying.countP (fun a => contentHash a.text.text == d)

def armed (s : System Peer) (d : Digest) : Nat := s.manager.suppression.armed d

def arms : Action Peer → Bool
  | .update peer peerDeviceId update =>
    match s.manager.handleUpdate contentHash (s.policyFor peer) s.now peer peerDeviceId update with
    | (_, .apply ..) => true
    | (_, .answer _) => false
  | .applyPending peer =>
    match s.manager.takePending (s.policyFor peer) s.now peer with
    | (_, .ok _) => true
    | (_, .error _) => false
  | _ => false

def remoteClip : Option ClipboardText :=
  match s.clipboard with
  | some (text, .remote) => some text
  | _ => none

def remoteRead : Option ClipboardText :=
  match s.watcher with
  | .read text .remote => some text
  | _ => none

/-- A digest whose entries are all needed: every observation still to come may
read it, and every write under way may release one. -/
def Tight (d : Digest) : Prop :=
  (∃ text ∈ s.remoteClip, contentHash text.text = d ∧
    s.armed d ≤ s.observing contentHash d + s.inFlight contentHash d) ∨
  (∃ text ∈ s.remoteRead, contentHash text.text = d ∧ s.armed d ≤ 1 + s.inFlight contentHash d)

instance (s : System Peer) (d : Digest) : Decidable (s.Tight contentHash d) :=
  inferInstanceAs (Decidable (_ ∨ _))

/-- A write that succeeds finds an entry for every observation of its text, and
an arming does not push out an entry that is still needed. -/
def WriteCovered : Action Peer → Prop
  | .finishWrite index true => ∀ a ∈ s.applying[index]?,
    s.observing contentHash (contentHash a.text.text) +
      s.inFlight contentHash (contentHash a.text.text) ≤ s.armed (contentHash a.text.text)
  | a => s.arms contentHash a → ∀ e ∈ s.manager.suppression.oldest,
    ¬ s.Tight contentHash e.hash

end

instance (s : System Peer) (a : Action Peer) : Decidable (s.WriteCovered contentHash a) := by
  unfold WriteCovered
  induction a using Action.casesOn
  case finishWrite _ ok => induction ok using Bool.casesOn <;> infer_instance
  all_goals infer_instance

structure Covered (s : System Peer) : Prop where
  bounded : s.manager.suppression.Bounded
  clip : ∀ text, s.clipboard = some (text, .remote) →
    s.observing contentHash (contentHash text.text) +
      s.inFlight contentHash (contentHash text.text) ≤ s.armed (contentHash text.text)
  read : ∀ text, s.watcher = .read text .remote →
    1 + s.inFlight contentHash (contentHash text.text) ≤ s.armed (contentHash text.text)
  sending : ∀ event peers, s.watcher ≠ .sending event .remote peers
  sent : ∀ m ∈ s.sent, m.writer = .user

variable {index : Nat} {s : System Peer} {a : Applying Peer} {text : ClipboardText}
  {m : Manager Peer}

section

omit [DecidableEq Peer]

theorem mem_remoteClip : text ∈ s.remoteClip ↔ s.clipboard = some (text, .remote) := by
  unfold remoteClip
  split <;> simp_all

theorem mem_remoteRead : text ∈ s.remoteRead ↔ s.watcher = .read text .remote := by
  unfold remoteRead
  split <;> simp_all

theorem Covered.congr (h : s.Covered contentHash) (hm : m.suppression = s.manager.suppression) :
    Covered contentHash { s with manager := m } := by
  have ha : armed { s with manager := m } = s.armed := by
    funext d
    simp only [armed, hm]
  constructor
  · exact hm ▸ h.bounded
  · intro text ht
    rw [ha]
    exact h.clip text ht
  · intro text ht
    rw [ha]
    exact h.read text ht
  · exact h.sending
  · exact h.sent

theorem tight_congr (hm : m.suppression = s.manager.suppression) (d) :
    Tight contentHash { s with manager := m } d ↔ s.Tight contentHash d := by
  have ha : armed { s with manager := m } d = s.armed d := by simp only [armed, hm]
  unfold Tight
  rw [ha]
  exact Iff.rfl

theorem le_armed_beginApply (hb : s.manager.suppression.Bounded)
    (hf : s.manager.suppression.Fresh s.now) (text) (sensitive) (origin) (held) {n} {d}
    (hle : n + s.inFlight contentHash d ≤ s.armed d)
    (hold : ∀ e, s.manager.suppression.oldest = some e → e.hash = d →
      ¬ s.armed d ≤ n + s.inFlight contentHash d) :
    n + (s.beginApply contentHash text sensitive origin held).inFlight contentHash d ≤
      (s.beginApply contentHash text sensitive origin held).armed d := by
  have ha : (s.beginApply contentHash text sensitive origin held).armed d + _ = s.armed d + _ :=
    armed_arm hb hf (contentHash text.text) d origin
  have hi : (s.beginApply contentHash text sensitive origin held).inFlight contentHash d =
      s.inFlight contentHash d + (if contentHash text.text = d then 1 else 0) := by
    simp [beginApply, inFlight, List.countP_append, List.countP_cons]
  cases he : s.manager.suppression.oldest with
  | none =>
    rw [he, Option.elim_none] at ha
    omega
  | some e =>
    rw [he, Option.elim_some] at ha
    by_cases hd : e.hash = d
    · have hn := hold e he hd
      rw [if_pos hd] at ha
      omega
    · rw [if_neg hd] at ha
      omega

theorem Covered.beginApply (h : s.Covered contentHash) (hf : s.manager.suppression.Fresh s.now)
    (hold : ∀ e, s.manager.suppression.oldest = some e → ¬ s.Tight contentHash e.hash) (text)
    (sensitive) (origin) (held) :
    (s.beginApply contentHash text sensitive origin held).Covered contentHash := by
  constructor
  · exact h.bounded.arm _ _
  · intro t ht
    apply le_armed_beginApply contentHash h.bounded hf text sensitive origin held (h.clip t ht)
    intro e he hd hle
    exact hold e he (.inl ⟨t, mem_remoteClip.mpr ht, hd.symm, hd ▸ hle⟩)
  · intro t ht
    apply le_armed_beginApply contentHash h.bounded hf text sensitive origin held (h.read t ht)
    intro e he hd hle
    exact hold e he (.inr ⟨t, mem_remoteRead.mpr ht, hd.symm, hd ▸ hle⟩)
  · exact h.sending
  · exact h.sent

theorem inFlight_eraseIdx (ha : s.applying[index]? = some a) (d) :
    s.inFlight contentHash d = (s.applying.eraseIdx index).countP
      (fun a => contentHash a.text.text == d) + (if contentHash a.text.text = d then 1 else 0) := by
  simpa [inFlight] using countP_eraseIdx (fun a : Applying Peer => contentHash a.text.text == d) ha

theorem armed_takeFor (hf : s.manager.suppression.Fresh s.now) (text) (d) :
    (s.manager.takeFor contentHash s.now text).2.suppression.armed d = s.armed d -
      (if contentHash text.text = d then 1 else 0) := by
  by_cases hd : contentHash text.text = d
  · subst hd
    rw [if_pos rfl]
    exact armed_take hf (contentHash text.text)
  · rw [if_neg hd, Nat.sub_zero]
    exact armed_take_of_ne hf (Ne.symm hd)

theorem Covered.take (h : s.Covered contentHash) (hf : s.manager.suppression.Fresh s.now) {writer}
    (hw : s.watcher = .read text writer) {w} (hidle : ∀ t v, w ≠ .read t v) (hwoken : w ≠ .woken)
    (hsend : ∀ event peers, w ≠ .sending event .remote peers) :
    Covered contentHash { s with
      manager := (s.manager.takeFor contentHash s.now text).2, watcher := w } := by
  have harm := armed_takeFor contentHash hf text
  constructor
  · exact h.bounded.take _
  · intro t ht
    have hc := h.clip t ht
    have ha := harm (contentHash t.text)
    have ho : observing contentHash
        { s with manager := (s.manager.takeFor contentHash s.now text).2, watcher := w }
        (contentHash t.text) = s.signals := by
      cases w with
      | idle | sending => rfl
      | woken => exact absurd rfl hwoken
      | read t v => exact absurd rfl (hidle t v)
    simp only [observing, hw, armed, inFlight] at hc ha ⊢
    omega
  · intro t ht
    exact absurd ht (hidle t .remote)
  · exact hsend
  · exact h.sent

end

theorem Covered.writeOk (h : s.Covered contentHash) (ha : s.applying[index]? = some a)
    (hok : s.observing contentHash (contentHash a.text.text) + s.inFlight contentHash
      (contentHash a.text.text) ≤ s.armed (contentHash a.text.text)) :
    (s.endApply contentHash a true (s.applying.eraseIdx index)).Covered contentHash := by
  have hfly := inFlight_eraseIdx contentHash ha
  constructor
  · exact h.bounded
  · intro t ht
    obtain rfl : a.text = t := by simpa [endApply] using ht
    have hi := hfly (contentHash a.text.text)
    simp only [endApply, if_true, observing, inFlight, armed] at hok hi ⊢
    omega
  · intro t ht
    have hr := h.read t (by simpa [endApply] using ht)
    have hi := hfly (contentHash t.text)
    simp only [endApply, if_true, inFlight, armed] at hr hi ⊢
    omega
  · exact h.sending
  · exact h.sent

theorem Covered.writeFailed (h : s.Covered contentHash) (hf : s.manager.suppression.Fresh s.now)
    (ha : s.applying[index]? = some a) :
    (s.endApply contentHash a false (s.applying.eraseIdx index)).Covered contentHash := by
  have hfly := inFlight_eraseIdx contentHash ha
  have harm := armed_takeFor contentHash hf a.text
  have hsup : (s.endApply contentHash a false (s.applying.eraseIdx index)).manager.suppression =
      (s.manager.takeFor contentHash s.now a.text).2.suppression := by
    simp only [endApply, Bool.false_eq_true, if_false]
    cases a.held <;> rfl
  have harmed (d : Digest) : (s.endApply contentHash a false (s.applying.eraseIdx index)).armed d =
      s.armed d - (if contentHash a.text.text = d then 1 else 0) := by
    simp only [armed, hsup]
    exact harm d
  constructor
  · rw [hsup]
    exact h.bounded.take _
  · intro t ht
    have hc := h.clip t (by simpa [endApply] using ht)
    have hi := hfly (contentHash t.text)
    rw [harmed]
    simp only [endApply, Bool.false_eq_true, if_false, observing, inFlight] at hc hi ⊢
    omega
  · intro t ht
    have hr := h.read t (by simpa [endApply] using ht)
    have hi := hfly (contentHash t.text)
    rw [harmed]
    simp only [endApply, Bool.false_eq_true, if_false, inFlight] at hr hi ⊢
    omega
  · exact h.sending
  · exact h.sent

theorem step_covered {t a} (hok : s.manager.suppression.Fresh s.now ∧ s.WriteCovered contentHash a)
    (hstep : step contentHash s a = some t) (h : s.Covered contentHash) :
    t.Covered contentHash := by
  obtain ⟨hf, hok⟩ := hok
  cases a with
  | tick | setPolicy =>
    cases hstep
    exact ⟨h.bounded, h.clip, h.read, h.sending, h.sent⟩
  | attach | detach =>
    cases hstep
    exact h.congr contentHash rfl
  | update peer peerDeviceId update =>
    have hm := Manager.handleUpdate_suppression contentHash (s.policyFor peer) s.now peer
      peerDeviceId update s.manager
    simp only [step] at hstep
    simp only [WriteCovered, arms] at hok
    cases hu : s.manager.handleUpdate contentHash (s.policyFor peer) s.now peer peerDeviceId
      update with
    | mk m decision =>
      rw [hu] at hstep hok hm
      replace hm : m.suppression = s.manager.suppression := hm
      have hc := h.congr contentHash hm
      cases decision with
      | answer =>
        cases hstep
        exact hc
      | apply text sensitive origin =>
        cases hstep
        refine hc.beginApply contentHash (hm ▸ hf) ?_ text sensitive origin none
        intro e he
        rw [tight_congr contentHash hm]
        exact hok rfl e (hm ▸ he)
  | applyPending peer =>
    have hm := Manager.takePending_suppression (s.policyFor peer) s.now peer s.manager
    simp only [step] at hstep
    simp only [WriteCovered, arms] at hok
    cases hu : s.manager.takePending (s.policyFor peer) s.now peer with
    | mk m result =>
      rw [hu] at hstep hok hm
      replace hm : m.suppression = s.manager.suppression := hm
      have hc := h.congr contentHash hm
      cases result with
      | error =>
        cases hstep
        exact hc
      | ok =>
        cases hstep
        refine hc.beginApply contentHash (hm ▸ hf) ?_ _ _ _ _
        intro e he
        rw [tight_congr contentHash hm]
        exact hok rfl e (hm ▸ he)
  | finishWrite _ ok =>
    simp only [step, Option.map_eq_some_iff] at hstep
    obtain ⟨a, ha, rfl⟩ := hstep
    cases ok with
    | true => exact h.writeOk contentHash ha (hok a ha)
    | false => exact h.writeFailed contentHash hf ha
  | userCopy content =>
    cases hstep
    refine ⟨h.bounded, ?_, h.read, h.sending, h.sent⟩
    intro _ ht
    cases content with
    | _ => simp at ht
  | signal =>
    simp only [step] at hstep
    split at hstep
    · next hw hn =>
      cases hstep
      refine ⟨h.bounded, ?_, by simp, by simp, h.sent⟩
      intro text ht
      have hc := h.clip text ht
      simp only [observing, hw, hn, armed, inFlight] at hc ⊢
      omega
    · cases hstep
  | read =>
    simp only [step] at hstep
    split at hstep
    · next text writer hw hclip =>
      cases hstep
      refine ⟨h.bounded, ?_, ?_, by simp, h.sent⟩
      · intro t ht
        have hc := h.clip t ht
        simp only [observing, hw, armed, inFlight] at hc ⊢
        split <;> omega
      · intro t ht
        obtain ⟨rfl, rfl⟩ : text = t ∧ writer = .remote := by simpa using ht
        have hc := h.clip text hclip
        simp only [observing, hw, armed, inFlight] at hc ⊢
        omega
    · next hw _ =>
      cases hstep
      refine ⟨h.bounded, ?_, by simp, by simp, h.sent⟩
      intro t ht
      have hc := h.clip t ht
      simp only [observing, hw, armed, inFlight] at hc ⊢
      omega
    · cases hstep
  | take =>
    simp only [step] at hstep
    split at hstep
    · next text writer hw =>
      split at hstep
      · next hm =>
        cases hstep
        have hc := h.take contentHash hf hw (w := .idle) (by simp) (by simp) (by simp)
        simpa only [hm] using hc
      · next m hm =>
        cases hstep
        have hnone : s.armed (contentHash text.text) = 0 := by
          apply take_eq_none hf
          exact congrArg Prod.fst hm
        have hwr : writer ≠ .remote := by
          intro hr
          have hh := h.read text (hr ▸ hw)
          omega
        have hc := h.take contentHash hf hw (w := .sending ⟨text, false, m.localDeviceId⟩ writer
          s.autoSendPeers) (by simp) (by simp) (by simp [hwr])
        simpa only [hm] using hc
    · cases hstep
  | deliver =>
    simp only [step] at hstep
    split at hstep
    · next hw =>
      cases hstep
      refine ⟨h.bounded, ?_, by simp, by simp, h.sent⟩
      intro t ht
      have hc := h.clip t ht
      simpa only [observing, hw, armed, inFlight] using hc
    · next event writer peer rest hw =>
      have hwr : writer ≠ .remote := fun hr => h.sending event (peer :: rest) (hr ▸ hw)
      have hc (t : ClipboardText) (ht : s.clipboard = some (t, .remote)) := h.clip t ht
      simp only [observing, hw, armed, inFlight] at hc
      split at hstep
      · cases hstep
        refine ⟨h.bounded, hc, by simp, by simp [hwr], ?_⟩
        refine forall_mem_concat h.sent ?_
        cases writer with
        | remote => exact absurd rfl hwr
        | user => rfl
      · cases hstep
        exact ⟨h.bounded, hc, by simp, by simp [hwr], h.sent⟩
    · cases hstep

/-- While the hashes of what is being applied stay in the suppression cache, nothing that a peer
sent is sent on. -/
theorem sent_written_by_user (localDeviceId : String) (peers : List Peer)
    (policyFor : Peer → ClipboardPolicy) (as : List (Action Peer)) {t : System Peer}
    (hrun : run (step contentHash) (init localDeviceId peers policyFor) as = some t)
    (hok : Meets (step contentHash) (fun s a => s.manager.suppression.Fresh s.now ∧
      s.WriteCovered contentHash a) (init localDeviceId peers policyFor) as) :
    ∀ m ∈ t.sent, m.writer = .user := by
  have hcov : t.Covered contentHash :=
    run_invariant (step contentHash) (fun _ _ _ => step_covered contentHash)
      hrun hok (by refine ⟨⟨?_, ?_⟩, ?_, ?_, ?_, ?_⟩ <;> simp [init, SUPPRESSION_ENTRIES])
  exact hcov.sent

/-- A digest without collisions for the concrete runs: a text stands for itself. -/
def textBytes (text : String) : Digest := text.toUTF8.data.toList

def twoPolicies (peer : Nat) : ClipboardPolicy :=
  if peer = 0 then { autoReceive := true } else { autoSend := true }

def clipUpdate (event : UInt8) (text : String) : Action Nat :=
  .update 0 "desk" ⟨List.replicate EVENT_ID_LEN event, "desk", text, [], false⟩

def userText : ClipboardText := ⟨"mine", by decide, by decide, by decide⟩

def ownCopyRun : List (Action Nat) :=
  [.attach 1 7, clipUpdate 1 "a", .finishWrite 0 true, .signal, .read true, .take,
    .userCopy (some userText), .signal, .read true, .take, .deliver true]

theorem sent_written_by_user_after_remote_clip :
    ∃ t, run (step textBytes) (init "phone" [0, 1] twoPolicies) ownCopyRun = some t ∧
      t.sent.map (fun m => (m.peer, m.event.text.text)) = [(1, "mine")] ∧ ∀ m ∈ t.sent,
      m.writer = .user :=
  ⟨_, rfl, by decide,
    sent_written_by_user textBytes "phone" [0, 1] twoPolicies ownCopyRun rfl (by decide)⟩

/-- Two remote clips are written before the watcher wakes. Both signals read the
second text: the first reading takes its entry, the other is sent on. -/
def twoClipsRun : List (Action Nat) :=
  [.attach 1 7, clipUpdate 1 "a", .finishWrite 0 true, clipUpdate 2 "b", .finishWrite 0 true,
    .signal, .read true, .take, .signal, .read true, .take, .deliver true]

theorem remote_clip_relayed :
    Meets (step textBytes) (fun s _ => s.manager.suppression.Fresh s.now)
      (init "phone" [0, 1] twoPolicies) twoClipsRun ∧
      (run (step textBytes) (init "phone" [0, 1] twoPolicies) twoClipsRun).map
      (fun t => t.sent.map (fun m => (m.peer, m.event.text.text, m.writer))) =
      some [(1, "b", .remote)] := by
  decide

end System

end OmniBridge.Clipboard
