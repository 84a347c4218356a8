import OmniBridge.ClipboardFrame

/-! What one end makes of what it reads from the other: envelopes behind the replay guard,
and frames out of a stream of bytes. -/

namespace OmniBridge

open List Option Clipboard

namespace Wire.ReplayGuard

variable {Body : Type} {g g' : ReplayGuard} {accepted : List (Envelope Body)} {e : Envelope Body}

def readNext (s : ReplayGuard × List (Envelope Body)) (e : Envelope Body) :
    ReplayGuard × List (Envelope Body) :=
  match s.1.admitEnvelope e with
  | .ok g => (g, s.2 ++ [e])
  | .error _ => s

variable (es : List (Envelope Body))

def readAll : ReplayGuard × List (Envelope Body) := es.foldl readNext ({}, [])

open Envelope

structure Windowed (g : ReplayGuard) (accepted : List (Envelope Body)) : Prop where
  order : g.order = keepLast DEDUP_WINDOW (accepted.map messageId)
  seen : ∀ id, id ∈ g.seen ↔ id ∈ g.order
  last : g.lastSequence = 0 ∨ ∃ a ∈ accepted, a.sequence = g.lastSequence
  bounded : ∀ a ∈ accepted, a.sequence ≤ g.lastSequence
  increasing : accepted.Pairwise (fun a b => a.sequence < b.sequence)
  wellFormed : ∀ a ∈ accepted, a.messageId.length = MESSAGE_ID_LENGTH
  distinct : ∀ window, window <:+: accepted.map messageId → window.length ≤ DEDUP_WINDOW →
    window.Nodup

theorem of_admitEnvelope_ok (h : g.admitEnvelope e = .ok g') :
    e.messageId.length = MESSAGE_ID_LENGTH ∧ g.lastSequence < e.sequence ∧ e.messageId ∉ g.seen ∧
      g' = g.record e := by
  unfold admitEnvelope at h
  split_ifs at h with hlength hseq hseen
  exact ⟨not_not.mp hlength, UInt64.not_le.mp hseq, hseen, (Except.ok.inj h).symm⟩

theorem Windowed.record (h : g.Windowed accepted) (hlength : e.messageId.length = MESSAGE_ID_LENGTH)
    (hseq : g.lastSequence < e.sequence) (hnew : e.messageId ∉ g.seen) :
    (g.record e).Windowed (accepted ++ [e]) := by
  have hnodup : g.order.Nodup := by
    refine h.distinct _ ?_ ?_
    · rw [h.order]
      exact (drop_suffix _ _).isInfix
    · rw [h.order]
      exact length_keepLast_le _ _
  rw [h.seen] at hnew
  have hlen : g.order.length ≤ DEDUP_WINDOW := h.order ▸ length_keepLast_le _ _
  have horder : keepLast DEDUP_WINDOW ((accepted ++ [e]).map messageId) =
      keepLast DEDUP_WINDOW (g.order ++ [e.messageId]) := by
    rw [h.order, keepLast_append_keepLast, map_append]
    rfl
  have hahead : ∀ a ∈ accepted, a.sequence < e.sequence :=
    fun a ha => UInt64.lt_of_le_of_lt (h.bounded a ha) hseq
  refine ⟨?_, ?_, .inr ⟨e, by simp, (record_lastSequence g e).symm⟩, ?_, ?_, ?_, ?_⟩
  · rw [horder, ReplayGuard.record]
    by_cases hlong : DEDUP_WINDOW < (g.order ++ [e.messageId]).length
    · have hone : (g.order ++ [e.messageId]).length - DEDUP_WINDOW = 1 := by
        simp only [length_append, length_singleton] at hlong ⊢
        omega
      rw [if_pos hlong, keepLast, hone, drop_one]
    · rw [if_neg hlong, keepLast_of_length_le (Nat.le_of_not_lt hlong)]
  · intro id
    unfold ReplayGuard.record
    dsimp only
    split
    · cases ho : g.order with
      | nil => simp [ho, DEDUP_WINDOW] at *
      | cons oldest rest =>
        simp only [ho, List.cons_append, List.head?_cons, Option.elim, List.tail_cons,
          Finset.mem_erase, Finset.mem_insert, h.seen, mem_append]
        grind
    · simp [h.seen, or_comm]
  · rw [record_lastSequence]
    simpa [or_imp, forall_and] using fun a ha => UInt64.le_of_lt (hahead a ha)
  · simpa [pairwise_append] using ⟨h.increasing, hahead⟩
  · simpa [or_imp, forall_and] using ⟨h.wellFormed, hlength⟩
  · intro window hwind hshort
    rw [map_append, map_singleton, infix_concat_iff, suffix_concat_iff] at hwind
    rcases hwind with (rfl | ⟨t, rfl, ht⟩) | hwind
    · exact nodup_nil
    · rw [length_append, length_singleton] at hshort
      have hold : t <:+ g.order := by
        refine suffix_of_suffix_length_le ht (h.order ▸ drop_suffix _ _) ?_
        rw [h.order, keepLast, length_drop]
        have := ht.length_le
        omega
      rw [nodup_append]
      refine ⟨h.distinct t ht.isInfix (by omega), nodup_singleton _, ?_⟩
      rintro id hid _ (_ | ⟨_, ⟨⟩⟩) rfl
      exact hnew (hold.subset hid)
    · exact h.distinct window hwind hshort

theorem windowed_readAll : (readAll es).1.Windowed (readAll es).2 := by
  induction es using reverseRecOn with
  | nil =>
    exact ⟨by simp [readAll,
      keepLast], by simp [readAll], .inl rfl, nofun, .nil, nofun, by simp [readAll]⟩
  | append_singleton es e ih =>
    rw [readAll, foldl_append]
    change Windowed (readNext (readAll es) e).1 (readNext (readAll es) e).2
    unfold readNext
    cases h : (readAll es).1.admitEnvelope e with
    | error => exact ih
    | ok =>
      obtain ⟨hlength, hseq, hnew, rfl⟩ := of_admitEnvelope_ok h
      exact ih.record hlength hseq hnew

/-- What is admitted is numbered upwards with no id twice in a window; a refusal changes nothing. -/
theorem replay_window_kept :
    (readAll es).2.Pairwise (fun a b => a.sequence < b.sequence) ∧
    (∀ a ∈ (readAll es).2, a.messageId.length = MESSAGE_ID_LENGTH) ∧
    (∀ window, window <:+: (readAll es).2.map messageId → window.length ≤ DEDUP_WINDOW →
      window.Nodup) ∧
    (∀ e : Envelope Body, e.messageId.length = MESSAGE_ID_LENGTH → 0 < e.sequence →
      (∀ a ∈ (readAll es).2, a.sequence < e.sequence) →
      e.messageId ∉ keepLast DEDUP_WINDOW ((readAll es).2.map messageId) →
      ∃ g, (readAll es).1.admitEnvelope e = .ok g) ∧
    (readAll es).1.order.length ≤ DEDUP_WINDOW ∧ (readAll es).1.seen.card ≤ DEDUP_WINDOW ∧
    ∀ (e : Envelope Body) refusal later, (readAll es).1.admitEnvelope e = .error refusal →
      readAll (es ++ e :: later) = readAll (es ++ later) := by
  have h := windowed_readAll es
  have hlen : (readAll es).1.order.length ≤ DEDUP_WINDOW := h.order ▸ length_keepLast_le _ _
  refine ⟨h.increasing, h.wellFormed, h.distinct, ?_, hlen, ?_, ?_⟩
  · intro e hlength hpos hlarger hnew
    refine ⟨_, admitEnvelope_ok hlength ?_ (by rwa [h.seen, h.order])⟩
    rcases h.last with hlast | ⟨a, ha, hlast⟩
    · rwa [hlast]
    · exact hlast ▸ hlarger a ha
  · have hsub : (readAll es).1.seen ⊆ (readAll es).1.order.toFinset := fun id hid =>
      by rwa [List.mem_toFinset, ← h.seen]
    exact (Finset.card_le_card hsub).trans ((toFinset_card_le _).trans hlen)
  · intro e refusal later href
    unfold readAll at href ⊢
    rw [foldl_append, foldl_append, foldl_cons]
    simp only [readNext, href]

end Wire.ReplayGuard

namespace Framing

open Clipboard (MAX_FRAME_LEN)

/-- The bytes still to come, as the reads of the stream divide them, and the error at their end,
if it is one. -/
structure Source (ε : Type) where
  chunks : List (List UInt8)
  failure : Option ε := none

inductive ReadError (ε : Type) where
  | closed | decode
  | io (e : ε)
  | frameTooLarge (len max : Nat)
  | protocol (text : String)

variable {ε Env : Type}

def Source.ended (s : Source ε) : ReadError ε := s.failure.elim .closed .io

def Source.bytes (s : Source ε) : List UInt8 := s.chunks.flatten

/-- `read_exact` takes what each read gives until the buffer is full. -/
def readExact : Nat → List (List UInt8) → Option (List UInt8 × List (List UInt8))
  | 0, chunks => some ([], chunks)
  | _ + 1, [] => none
  | n + 1, chunk :: chunks =>
    if n < chunk.length then some (chunk.take (n + 1), chunk.drop (n + 1) :: chunks)
    else (readExact (n + 1 - chunk.length) chunks).map (fun r => (chunk ++ r.1, r.2))

def fromBeBytes (bytes : List UInt8) : Nat := bytes.foldl (fun n b => n * 256 + b.toNat) 0

def Source.announced (s : Source ε) : Nat := fromBeBytes (s.bytes.take 4)

/-- What is read, what is left of the stream, and the size of the buffer made for the body. -/
structure Frame (ε Env : Type) where
  result : Except (ReadError ε) Env
  rest : Source ε
  allocated : Nat := 0

def readEnvelope (decode : List UInt8 → Option Env) (s : Source ε) : Frame ε Env :=
  match readExact 4 s.chunks with
  | none => { result := .error s.ended, rest := { s with chunks := [] } }
  | some (lenBuf, chunks) =>
    let len := fromBeBytes lenBuf
    if MAX_FRAME_LEN < len then
      { result := .error (.frameTooLarge len MAX_FRAME_LEN), rest := { s with chunks } }
    else if len = 0 then
      { result := .error (.protocol "zero-length frame"), rest := { s with chunks } }
    else match readExact len chunks with
      | none => ⟨.error s.ended, { s with chunks := [] }, len⟩
      | some (body, chunks) => ⟨(decode body).elim (.error .decode) .ok, { s with chunks }, len⟩

def frame (body : List UInt8) : List UInt8 :=
  [24, 16, 8, 0].map (fun k => .ofNat (body.length >>> k)) ++ body

variable {encode : Env → List UInt8}

theorem writeEnvelope_eq {ρ : Type} (io : List UInt8 → Except ε ρ) {e}
    (h : (encode e).length ≤ MAX_FRAME_LEN) :
    writeEnvelope encode io e = (io (frame (encode e))).mapError .io := by
  have hsmall : (encode e).length < 2 ^ 32 := h.trans_lt (by decide)
  rw [writeEnvelope, if_neg hsmall.not_ge, if_neg h.not_gt]
  rfl

/-- Writes the envelopes one after the other to a stream that takes all bytes; `out` are those it
has taken. -/
def writeAll (ε : Type) (encode : Env → List UInt8) (es : List Env) (out : List UInt8) :
    Except (FrameError ε) (List UInt8) :=
  es.foldlM (fun out e => writeEnvelope encode (fun bytes => .ok (out ++ bytes)) e) out

theorem writeAll_eq {es : List Env} (hes : ∀ e ∈ es, (encode e).length ≤ MAX_FRAME_LEN) (out) :
    writeAll ε encode es out = .ok (out ++ es.flatMap (fun e => frame (encode e))) := by
  induction es generalizing out with
  | nil =>
    rw [flatMap_nil, append_nil]
    rfl
  | cons e es ih =>
    obtain ⟨he, hes⟩ := forall_mem_cons.mp hes
    rw [writeAll, foldlM_cons, writeEnvelope_eq _ he]
    exact (ih hes _).trans (by rw [append_assoc, flatMap_cons])

/-- Reading gives these envelopes, one after the other, and then `Closed`. -/
def Reads (decode : List UInt8 → Option Env) : List Env → Source ε → Prop
  | [], s => (readEnvelope decode s).result = .error .closed
  | e :: es, s =>
    (readEnvelope decode s).result = .ok e ∧ Reads decode es (readEnvelope decode s).rest

theorem readExact_eq {n chunks} (h : n ≤ chunks.flatten.length) :
    ∃ rest, readExact n chunks = some (chunks.flatten.take n, rest) ∧
      rest.flatten = chunks.flatten.drop n := by
  induction chunks generalizing n with
  | nil =>
    obtain rfl : n = 0 := by simpa using h
    exact ⟨[], rfl, rfl⟩
  | cons chunk chunks ih =>
    cases n with
    | zero => exact ⟨_, rfl, rfl⟩
    | succ n =>
      rw [flatten_cons, length_append] at h
      rw [readExact, flatten_cons]
      by_cases hn : n < chunk.length
      · rw [if_pos hn, take_append_of_le_length hn, drop_append_of_le_length hn]
        exact ⟨_, rfl, rfl⟩
      obtain ⟨rest, hread, hrest⟩ := @ih (n + 1 - chunk.length) (by omega)
      have hle : chunk.length ≤ n + 1 := by omega
      rw [if_neg hn, hread, take_append, drop_append, take_of_length_le hle, drop_of_length_le hle]
      exact ⟨rest, rfl, hrest⟩

theorem readExact_eq_none {n chunks} (h : chunks.flatten.length < n) :
    readExact n chunks = none := by
  induction chunks generalizing n with
  | nil => cases n <;> simp_all [readExact]
  | cons chunk chunks ih =>
    rw [flatten_cons, length_append] at h
    cases n with
    | zero => cases h
    | succ n =>
      rw [readExact, if_neg (by omega), ih (by omega)]
      rfl

theorem fromBeBytes_length {n} (h : n < 2 ^ 32) :
    fromBeBytes ([24, 16, 8, 0].map (fun k => .ofNat (n >>> k))) = n := by
  simp only [fromBeBytes, map_cons, map_nil, foldl_cons, foldl_nil, UInt8.toNat_ofNat',
    Nat.shiftRight_eq_div_pow]
  omega

variable {decode : List UInt8 → Option Env} {s : Source ε}

theorem readEnvelope_of_short (h : s.bytes.length < 4) :
    readEnvelope decode s = { result := .error s.ended, rest := { s with chunks := [] } } := by
  rw [readEnvelope, readExact_eq_none h]

theorem readEnvelope_frame {e body rest} (hdec : decode body = some e) (hpos : 0 < body.length)
    (hle : body.length ≤ MAX_FRAME_LEN) (hs : s.bytes = frame body ++ rest) :
    (readEnvelope decode s).result = .ok e ∧ (readEnvelope decode s).rest.bytes = rest ∧
      (readEnvelope decode s).rest.failure = s.failure := by
  obtain ⟨chunks, hread, hchunks⟩ :=
    @readExact_eq 4 s.chunks (by change 4 ≤ s.bytes.length; simp [hs, frame])
  change readExact 4 s.chunks = some (s.bytes.take 4, chunks) at hread
  change chunks.flatten = s.bytes.drop 4 at hchunks
  have hlen : fromBeBytes (s.bytes.take 4) = body.length := by
    rw [hs]
    exact fromBeBytes_length (hle.trans_lt (by decide))
  have hrest : chunks.flatten = body ++ rest := by
    rw [hchunks, hs]
    rfl
  obtain ⟨left, hbody, hleft⟩ := @readExact_eq body.length chunks (by simp [hrest])
  rw [hrest, take_left] at hbody
  rw [hrest, drop_left] at hleft
  simp only [readEnvelope, hread, hlen, if_neg hle.not_gt, if_neg hpos.ne', hbody, hdec]
  exact ⟨rfl, hleft, trivial⟩

theorem reads_frames {es} (hs : s.failure = none)
    (hes : ∀ e ∈ es, decode (encode e) = some e ∧ 0 < (encode e).length ∧
      (encode e).length ≤ MAX_FRAME_LEN)
    (hbytes : s.bytes = es.flatMap (fun e => frame (encode e))) : Reads decode es s := by
  induction es generalizing s with
  | nil =>
    rw [Reads, readEnvelope_of_short (by simp [hbytes]), Source.ended, hs]
    rfl
  | cons e es ih =>
    obtain ⟨⟨hdec, hpos, hle⟩, hes⟩ := forall_mem_cons.mp hes
    obtain ⟨hres, hrest, hfail⟩ := readEnvelope_frame hdec hpos hle hbytes
    exact ⟨hres, ih (hfail.trans hs) hes hrest⟩

/-- What is written is read back, however the stream divides it. A frame of length zero or of too
great a length is refused before its body, and a stream that is cut off is not taken for an
envelope. -/
theorem framing_lossless_and_bounded (decode : List UInt8 → Option Env)
    (encode : Env → List UInt8) :
    (∀ es : List Env, (∀ e ∈ es, decode (encode e) = some e ∧ 0 < (encode e).length ∧
        (encode e).length ≤ MAX_FRAME_LEN) →
      ∃ bytes, writeAll ε encode es [] = .ok bytes ∧
        ∀ chunks, chunks.flatten = bytes → Reads decode es (⟨chunks, none⟩ : Source ε)) ∧
    ∀ s : Source ε, (readEnvelope decode s).allocated ≤ MAX_FRAME_LEN ∧
      (4 ≤ s.bytes.length → s.announced = 0 ∨ MAX_FRAME_LEN < s.announced →
        (∃ e, (readEnvelope decode s).result = .error e) ∧ (readEnvelope decode s).allocated = 0 ∧
        (readEnvelope decode s).rest.bytes = s.bytes.drop 4) ∧
      (s.bytes.length < 4 ∨ 0 < s.announced ∧ s.announced ≤ MAX_FRAME_LEN ∧
        s.bytes.length < 4 + s.announced → (readEnvelope decode s).result = .error s.ended) := by
  refine ⟨fun es hes => ?_, fun s => ?_⟩
  · refine ⟨_, writeAll_eq (fun e he => (hes e he).2.2) [], fun chunks hchunks => ?_⟩
    exact reads_frames rfl hes hchunks
  rcases Nat.lt_or_ge s.bytes.length 4 with hshort | hlong
  · rw [readEnvelope_of_short hshort]
    exact ⟨Nat.zero_le _, fun h => absurd h (by omega), fun _ => rfl⟩
  obtain ⟨chunks, hread, hchunks⟩ := readExact_eq hlong
  change readExact 4 s.chunks = some (s.bytes.take 4, chunks) at hread
  change chunks.flatten = s.bytes.drop 4 at hchunks
  unfold Source.announced
  simp only [readEnvelope, hread]
  generalize fromBeBytes (s.bytes.take 4) = len
  by_cases hmax : MAX_FRAME_LEN < len
  · simp only [if_pos hmax]
    exact ⟨Nat.zero_le _, fun _ _ => ⟨⟨_, rfl⟩, trivial, hchunks⟩, fun h => absurd h (by omega)⟩
  by_cases hzero : len = 0
  · simp only [if_neg hmax, if_pos hzero]
    exact ⟨Nat.zero_le _, fun _ _ => ⟨⟨_, rfl⟩, trivial, hchunks⟩, fun h => absurd h (by omega)⟩
  simp only [if_neg hmax, if_neg hzero]
  refine ⟨?_, fun _ h => absurd h (by omega), fun h => ?_⟩
  · cases readExact len chunks <;> exact Nat.le_of_not_lt hmax
  · rw [readExact_eq_none]
    rw [hchunks, length_drop]
    omega

end Framing

end OmniBridge
