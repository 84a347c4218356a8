import OmniBridge.SortedMap
import OmniBridge.DesktopPairing
import Mathlib.Data.List.Lex
import Mathlib.Data.Nat.Digits.Defs

/-! What the desktop keeps of a file transfer: its id and its record, the table of state
transitions, and the download directory. Names in the directory lead to files, so that a
file that was removed or renamed is still the one its stream writes to. -/

namespace OmniBridge.Desktop.Files

open Function

def TRANSFER_ID_LEN : Nat := 16
def STREAM_CHALLENGE_LEN : Nat := 32
def SHA256_LEN : Nat := 32
def MAX_CONCURRENT_TRANSFERS_PER_PEER : Nat := 4
def MAX_FILENAME_BYTES : Nat := 255
def MAX_MIME_TYPE_BYTES : Nat := 128
def COPY_BUFFER_BYTES : Nat := 64 * 1024
def MAX_DUPLICATE_SUFFIX : Nat := 999

/-- The times are in milliseconds. -/
def VERDICT_TIMEOUT : Nat := 600000
def PEER_VERDICT_GRACE : Nat := 750
def FINISHED_DEADLINE : Nat := 3600000

structure TransferId where
  bytes : Bytes
  length_eq : bytes.length = TRANSFER_ID_LEN

structure StreamChallenge where
  bytes : Bytes
  length_eq : bytes.length = STREAM_CHALLENGE_LEN
deriving DecidableEq

def StreamChallenge.fromBytes (bytes : Bytes) : Option StreamChallenge :=
  if h : bytes.length = STREAM_CHALLENGE_LEN then some ⟨bytes, h⟩ else none

namespace TransferId

def fromBytes (bytes : Bytes) : Option TransferId :=
  if h : bytes.length = TRANSFER_ID_LEN then some ⟨bytes, h⟩ else none

def hexByte (b : UInt8) : List Char := [Nat.digitChar (b.toNat / 16), Nat.digitChar (b.toNat % 16)]

def toHex (id : TransferId) : String := String.ofList (id.bytes.flatMap hexByte)

def key (id : TransferId) : List Nat := id.bytes.map UInt8.toNat

theorem key_injective : Injective key := by
  rintro ⟨bs, _⟩ ⟨cs, _⟩ heq
  have hbytes : bs = cs := List.map_injective_iff.mpr (fun a b h => UInt8.toNat_inj.mp h) heq
  subst hbytes
  rfl

instance : LinearOrder TransferId := LinearOrder.lift' key key_injective

end TransferId

inductive Direction where
  | sending
  | receiving
deriving DecidableEq

inductive StreamRole where
  | acceptor
  | dialer
deriving DecidableEq

inductive TransferState where
  | offered | waitingAccept | transferring | verifying | completed | failed | cancelled
deriving DecidableEq

namespace TransferState

def isTerminal : TransferState → Bool
  | .completed | .failed | .cancelled => true
  | _ => false

def isActive (s : TransferState) : Bool := !s.isTerminal

def canTransitionTo : TransferState → TransferState → Bool
  | .offered, .transferring => true
  | .waitingAccept, .transferring => true
  | .transferring, .verifying => true
  | .verifying, .completed => true
  | .transferring, .completed => true
  | s, .failed | s, .cancelled => !s.isTerminal
  | _, _ => false

theorem isActive_of_canTransitionTo {s next : TransferState} (h : s.canTransitionTo next) :
    s.isActive := by
  cases s <;> cases next <;> simp_all [canTransitionTo, isActive, isTerminal]

end TransferState

inductive FailureReason where
  | declinedByUser | notAuthorized | tooManyTransfers | tooLarge | badMetadata | timedOut
  | integrity | storage | transport | cancelledByUser | revoked | unknownTransfer
deriving DecidableEq

namespace FailureReason

def isCancellation : FailureReason → Bool
  | .cancelledByUser | .declinedByUser => true
  | _ => false

/-- A reason on the wire is absent when it is unspecified or unrecognised. -/
def fromProto (reason : Option FailureReason) : FailureReason := reason.getD .unknownTransfer

end FailureReason

structure FilesConfig where
  maxFileBytes : Nat
  acceptTimeout : Nat
  streamOpenTimeout : Nat

def FilesConfig.deadlineFor (config : FilesConfig) : TransferState → Nat
  | .offered | .waitingAccept => config.acceptTimeout
  | .transferring => config.streamOpenTimeout
  | .verifying => VERDICT_TIMEOUT
  | _ => FINISHED_DEADLINE

structure FileOffer where
  transferId : Bytes
  filename : String
  sizeBytes : Nat
  mimeType : String
  sha256 : Bytes
deriving DecidableEq

inductive FileControl where
  | offer (offer : FileOffer)
  | accept (transferId streamChallenge : Bytes)
  | ready (transferId streamChallenge : Bytes)
  | reject (transferId : Bytes) (reason : Option FailureReason)
  | cancel (transferId : Bytes) (reason : Option FailureReason)
  | failed (transferId : Bytes) (reason : Option FailureReason)
  | complete (transferId : Bytes)
deriving DecidableEq

structure DataStreamAuth where
  protocolVersion : Nat
  transferId : Bytes
  mac : Bytes

structure DataStreamReady where
  accepted : Bool
  reason : Option FailureReason
deriving DecidableEq

structure IncomingOffer (Fp : Type) where
  transferId : TransferId
  peer : Fp
  filename : String
  sizeBytes : Nat
  mimeType : String
deriving DecidableEq

/-- `cancel` is the version of the record's watch channel; `session` is the number of the
control session. -/
structure TransferRecord (Fp : Type) where
  seq : Nat
  id : TransferId
  peer : Fp
  direction : Direction
  filename : String
  sizeBytes : Nat
  sha256 : Bytes
  mimeType : String
  state : TransferState
  challenge : Option StreamChallenge := none
  source : Option String := none
  temp : Option String := none
  storedAt : Option String := none
  failure : Option FailureReason := none
  cancel : Nat := 0
  session : Nat
  profile : Profile
  deadline : Nat
  streamActive : Bool := false
deriving DecidableEq

structure Host (Fp : Type) where
  role : StreamRole
  localFingerprint : Fp
  protocolVersion : Nat
  config : FilesConfig
  fileName : String → Option String
  sanitize : String → Option String
  sha256 : Bytes → Bytes
  computeStreamMac : Profile → StreamChallenge → Fp → Fp → TransferId → Bytes

def guessMimeType (name : String) : String :=
  match (String.ofList (name.toList.reverse.takeWhile (· ≠ '.')).reverse).toLower with
  | "jpg" | "jpeg" => "image/jpeg"
  | "png" => "image/png"
  | "gif" => "image/gif"
  | "webp" => "image/webp"
  | "heic" => "image/heic"
  | "pdf" => "application/pdf"
  | "txt" | "log" | "md" => "text/plain"
  | "mp4" => "video/mp4"
  | "mp3" => "audio/mpeg"
  | "zip" => "application/zip"
  | _ => ""

def Host.validateOffer {Fp : Type} (host : Host Fp) (offer : FileOffer) :
    Except FailureReason Unit :=
  if offer.sha256.length ≠ SHA256_LEN then .error .badMetadata
  else if MAX_FILENAME_BYTES * 4 < offer.filename.utf8ByteSize then .error .badMetadata
  else if MAX_MIME_TYPE_BYTES < offer.mimeType.utf8ByteSize then .error .badMetadata
  else if (host.sanitize offer.filename).isNone then .error .badMetadata
  else if host.config.maxFileBytes < offer.sizeBytes then .error .tooLarge
  else .ok ()

namespace TransferRecord

variable {Fp : Type} {r : TransferRecord Fp}

/-- The state change of `transition`; a terminal one signals the watch channel and drops the
challenge. A record it is not legal for stays as it is. -/
def enter (next : TransferState) (failure : Option FailureReason) (deadline : Nat)
    (r : TransferRecord Fp) : TransferRecord Fp :=
  if r.state.canTransitionTo next then
    { r with state := next
             failure := failure.or r.failure
             deadline := deadline
             cancel := if next.isTerminal then r.cancel + 1 else r.cancel
             challenge := if next.isTerminal then none else r.challenge }
  else r

end TransferRecord

/-- `creator` numbers the transfer whose temp file it was; a file found there has none. -/
structure File where
  content : Bytes
  creator : Option Nat := none
deriving DecidableEq

structure Disk where
  files : List File := []
  names : String → Option Nat := fun _ => none

def tempName (id : TransferId) : String := ".pliwee-" ++ id.toHex ++ ".part"

def splitExtension (name : String) : String × String :=
  let ext := (name.toList.reverse.takeWhile (· ≠ '.')).reverse
  let stem := name.toList.take (name.toList.length - (ext.length + 1))
  if '.' ∈ name.toList ∧ stem ≠ [] then (String.ofList stem, "." ++ String.ofList ext)
    else (name, "")

def candidate (name : String) (attempt : Nat) : String :=
  if attempt = 0 then name
  else (splitExtension name).1 ++ " (" ++ toString attempt ++ ")" ++ (splitExtension name).2

def isChild (name : String) : Bool := name ≠ "" && !name.toList.contains '/'

namespace Disk

section Model

variable (d : Disk)

def openTemp (id : TransferId) (creator : Nat) : Option Disk :=
  if (d.names (tempName id)).isSome then none
  else some { files := d.files ++ [{ content := [], creator := some creator }]
              names := update d.names (tempName id) (some d.files.length) }

def remove (path : String) : Disk := { d with names := update d.names path none }

def truncate (file : Nat) : Disk :=
  { d with files := d.files.modify file ({ · with content := [] }) }

def write (file : Nat) (bytes : Bytes) : Disk :=
  { d with files := d.files.modify file (fun f => { f with content := f.content ++ bytes }) }

def reserve (name : String) : Option String :=
  (((List.range (MAX_DUPLICATE_SUFFIX + 1)).map (candidate name)).find? (fun path =>
    !isChild path || (d.names path).isNone)).filter
    isChild

def promotes (temp name : String) : Option String :=
  if (d.names temp).isSome then d.reserve name else none

def rename (temp path : String) : Disk :=
  { d with names := update (update d.names path (d.names temp)) temp none }

end Model

end Disk

end OmniBridge.Desktop.Files
