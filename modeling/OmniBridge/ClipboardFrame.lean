import OmniBridge.ClipboardRelay
import OmniBridge.PhoneWire
import OmniBridge.Protobuf

/-! The frame of a clipboard update: a text inside an update, a control message, a capability
message and an envelope, each of which puts tags and lengths around the one before it. -/

namespace OmniBridge.Clipboard

open Protobuf Field

def CAPABILITY_ID : String := "clipboard.v1"
def CONTENT_HASH_LEN : Nat := 32
def MAX_FRAME_LEN : Nat := 64 * 1024

def utf8 (s : String) : List UInt8 := s.toByteArray.data.toList

def updateFields (contentHash : String → Digest) (eventId : List UInt8) (now : Nat)
    (event : LocalEvent) : List Field :=
  [.bytes 1 eventId, .bytes 2 (utf8 event.originDeviceId), .bytes 3 (utf8 event.text.text),
    .bytes 4 (contentHash event.text.text), .uint 5 event.sensitive.toNat, .uint 6 (now % 2 ^ 64)]

def encodeUpdate (contentHash : String → Digest) (eventId : List UInt8) (now : Nat)
    (event : LocalEvent) : List UInt8 :=
  encode [.message 1 (encode (updateFields contentHash eventId now event))]

def encodeCapabilityMessage (capabilityId : String) (payload : List UInt8) : List UInt8 :=
  encode [.bytes 1 (utf8 capabilityId), .bytes 2 payload]

/-- The body is an encoded capability message. -/
def encodeEnvelope (e : Wire.Envelope (List UInt8)) : List UInt8 :=
  encode [.uint 1 (e.protocolVersion % 2 ^ 32), .bytes 2 e.messageId, .uint 3 e.sequence.toNat,
    .uint 4 (e.timestampUnixMs % 2 ^ 64), .bytes 5 e.correlationId, .message 24 e.body]

inductive FrameError (ε : Type) where
  | frameTooLarge (len max : Nat)
  | io (e : ε)

/-- `io` is what the stream makes of the bytes. -/
def writeEnvelope {ε ρ Env : Type} (encodeToVec : Env → List UInt8) (io : List UInt8 → Except ε ρ)
    (e : Env) : Except (FrameError ε) ρ :=
  let body := encodeToVec e
  if 2 ^ 32 ≤ body.length then .error (.frameTooLarge (2 ^ 32 - 1) MAX_FRAME_LEN)
  else if MAX_FRAME_LEN < body.length then .error (.frameTooLarge body.length MAX_FRAME_LEN)
  else (io ([24, 16, 8, 0].map (fun k => .ofNat (body.length >>> k)) ++ body)).mapError .io

def IsDeviceId (s : String) : Prop := s.length = 32 ∧ ∀ c ∈ s.toList, c ∈ "0123456789abcdef".toList

theorem utf8ByteSize_ofList {l} (h : ∀ c ∈ l, c.utf8Size = 1) :
    (String.ofList l).utf8ByteSize = l.length := by
  induction l with
  | nil => rfl
  | cons c l ih =>
    have hc : (String.ofList [c]).utf8ByteSize = 1 :=
      String.utf8ByteSize_singleton.trans (h c List.mem_cons_self)
    rw [← List.singleton_append, String.ofList_append, String.utf8ByteSize_append, hc,
      ih (fun d hd => h d (List.mem_cons_of_mem _ hd)), List.length_append]
    rfl

theorem IsDeviceId.length_utf8 {s} (h : IsDeviceId s) : (utf8 s).length = 32 := by
  have hsize : ∀ c ∈ "0123456789abcdef".toList, c.utf8Size = 1 := by simp [Char.utf8Size]
  change s.utf8ByteSize = 32
  rw [← @String.ofList_toList s, utf8ByteSize_ofList (fun c hc => hsize c (h.2 c hc)),
    String.length_toList, h.1]

/-- A validated text fits a frame, whatever device and session it is sent by. -/
theorem clip_fits_frame {ε : Type} (io : List UInt8 → Except ε Unit) {contentHash : String → Digest}
    (hhash : ∀ text, (contentHash text).length = CONTENT_HASH_LEN) {text : String}
    {clip : ClipboardText} (_ : ClipboardText.validate text = .ok clip) {deviceId : String}
    (hdev : IsDeviceId deviceId) {eventId : List UInt8} (hevent : eventId.length = EVENT_ID_LEN)
    (sensitive : Bool) (now sentAt : Nat) (id : Wire.MessageId) (f : Wire.EnvelopeFactory) :
    let payload := encodeUpdate contentHash eventId now ⟨clip, sensitive, deviceId⟩
    let e := (f.build id sentAt (encodeCapabilityMessage CAPABILITY_ID payload)).1
    (encodeEnvelope e).length ≤ MAX_FRAME_LEN ∧
      ∀ len max, writeEnvelope encodeEnvelope io e ≠ .error (.frameTooLarge len max) := by
  intro payload e
  have hevent : eventId.length = 16 := hevent
  have hhash : (contentHash clip.text).length = 32 := hhash clip.text
  have hdev := hdev.length_utf8
  have htext : (utf8 clip.text).length ≤ 32768 := clip.bounded
  have hname : (utf8 CAPABILITY_ID).length = 12 := rfl
  have hid : e.messageId.length = 16 := id.length_eq
  have hcorr : e.correlationId.length = 0 := rfl
  have hseq := e.sequence.toNat_lt
  have hhint : sensitive.toNat < 2 := sensitive.toNat_lt
  have hupd : (encode (updateFields contentHash eventId now ⟨clip, sensitive,
      deviceId⟩)).length ≤ 32920 :=
    length_encode_le (by simp [updateFields, Short]; omega) (by simp [updateFields, size]; omega)
  have hpayl : payload.length ≤ 32932 := length_encode_le (by simp [Short]; omega)
    (by simp [size]; omega)
  have hbody : e.body.length ≤ 32968 := length_encode_le (by simp [Short]; omega)
    (by simp [size]; omega)
  have hfits : (encodeEnvelope e).length ≤ MAX_FRAME_LEN :=
    length_encode_le (by simp [Short]; omega) (by simp [size, MAX_FRAME_LEN]; omega)
  refine ⟨hfits, fun len max => ?_⟩
  have hsmall : (encodeEnvelope e).length < 2 ^ 32 := hfits.trans_lt (by decide)
  rw [writeEnvelope, if_neg hsmall.not_ge, if_neg hfits.not_gt]
  cases io _ with
  | _ => nofun

theorem clip_fits_frame_hello :
    ∃ clip, ClipboardText.validate "hello" = .ok clip ∧
      (encodeEnvelope (Wire.EnvelopeFactory.build ⟨List.replicate 16 0, rfl⟩ 1
        (encodeCapabilityMessage CAPABILITY_ID (encodeUpdate (fun _ => List.replicate 32 7)
          (List.replicate 16 1) 1 ⟨clip, false, "0123456789abcdef0123456789abcdef"⟩))
        ⟨1, 0⟩).1).length ≤ MAX_FRAME_LEN := by
  have hvalid : ClipboardText.validate "hello" = .ok _ := rfl
  exact ⟨_, hvalid, (@clip_fits_frame Unit (fun _ => .ok ()) _ (fun _ => rfl) _ _ hvalid _ ⟨rfl,
    by simp⟩ _ rfl false 1 1 _ _).1⟩

end OmniBridge.Clipboard
