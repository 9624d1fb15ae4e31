import ColdArchive.Category

/-!
The ways in which an archive can refuse or fail, the wording of each, and two classes of them:
failures of the channel to an archive, and refusals that the caller caused.
-/

namespace ColdArchive

/-- Why a file operation failed. -/
inductive IoFailure where
  | notFound
  | exists
  | notDirectory
  | isDirectory
  | tooLarge
  | nameTooLong
  | addressInUse
  /-- The host does not have the address. -/
  | addressMissing
  | networkUnreachable
  | endOfData
  /-- A zero character stands in a path. -/
  | nulInName
  /-- A failure known by its text only. -/
  | other (text : String)
  deriving DecidableEq, Repr

namespace IoFailure

/-- The system's number, kind and wording of a failure, where the system reported it. -/
def system : IoFailure → Option (Nat × String × String)
  | notFound => some (2, "NotFound", "No such file or directory")
  | .exists => some (17, "AlreadyExists", "File exists")
  | notDirectory => some (20, "NotADirectory", "Not a directory")
  | isDirectory => some (21, "IsADirectory", "Is a directory")
  | tooLarge => some (27, "FileTooLarge", "File too large")
  | nameTooLong => some (36, "InvalidFilename", "File name too long")
  | addressInUse => some (98, "AddrInUse", "Address already in use")
  | addressMissing => some (99, "AddrNotAvailable", "Cannot assign requested address")
  | networkUnreachable => some (101, "NetworkUnreachable", "Network is unreachable")
  | endOfData | nulInName | other _ => none

/-- The kind and wording of a failure that the system did not report. -/
def own : IoFailure → String × String
  | endOfData => ("UnexpectedEof", "failed to fill whole buffer")
  | nulInName => ("InvalidInput", "file name contained an unexpected NUL byte")
  | other text => ("Other", text)
  | _ => ("Uncategorized", "")

def message (e : IoFailure) : String :=
  match e.system with
  | some (code, _, text) => s!"{text} (os error {code})"
  | none => e.own.2

end IoFailure

/-- Why an archive call did not succeed. A local archive and a remote one report the same causes. -/
inductive StoreError where
  /-- The number is not below the frozen count. -/
  | notFound (category : Category) (number frozen : Nat)
  /-- The number of an append is not the frozen count. -/
  | outOfOrderAppend (expected got : Nat)
  /-- The target of a truncation exceeds the frozen count. -/
  | invalidTruncateTarget (target frozen : Nat)
  | malformedEnvelope (reason : String)
  | unknownCategory (name : String)
  | closed
  /-- Somebody else has the directory open. -/
  | locked (directory : String)
  /-- The archive could not be reached. -/
  | transport (reason : String)
  /-- The peer does not follow the protocol. -/
  | protocol (reason : String)
  | versionMismatch (own remote : String)
  | canceled
  | deadlineExceeded
  /-- The files contradict each other beyond repair. -/
  | corrupted (reason : String)
  | io (cause : IoFailure)
  /-- A failure reported by a remote archive without further detail. -/
  | engine (reason : String)
  deriving DecidableEq, Repr

namespace StoreError

/-- The wording of an error. -/
def message : StoreError → String
  | notFound category number frozen =>
    s!"ancient {category.name} #{number} not found (frozen {frozen})"
  | outOfOrderAppend expected got => s!"out-of-order append: expected {expected}, got {got}"
  | invalidTruncateTarget target frozen =>
    s!"invalid truncate target {target}: only {frozen} items frozen"
  | malformedEnvelope reason => s!"malformed envelope: {reason}"
  | unknownCategory name => s!"unknown ancient category: {name}"
  | closed => "ancient store is closed"
  | locked directory => s!"ancient store directory is locked: {directory}"
  | transport reason => s!"transport error: {reason}"
  | protocol reason => s!"protocol error: {reason}"
  | versionMismatch own remote => s!"protocol version mismatch: local={own}, remote={remote}"
  | canceled => "call canceled"
  | deadlineExceeded => "deadline exceeded"
  | corrupted reason => s!"ancient data corrupted: {reason}"
  | io cause => s!"I/O error: {cause.message}"
  | engine reason => s!"engine error: {reason}"

/-- The name of the cause. -/
def kind : StoreError → String
  | notFound .. => "NotFound"
  | outOfOrderAppend .. => "OutOfOrderAppend"
  | invalidTruncateTarget .. => "InvalidTruncateTarget"
  | malformedEnvelope _ => "MalformedEnvelope"
  | unknownCategory _ => "UnknownCategory"
  | closed => "Closed"
  | locked _ => "Locked"
  | transport _ => "Transport"
  | protocol _ => "Protocol"
  | versionMismatch .. => "VersionMismatch"
  | canceled => "Canceled"
  | deadlineExceeded => "DeadlineExceeded"
  | corrupted _ => "Corrupted"
  | io _ => "Io"
  | engine _ => "Engine"

/-- The failure lies in the channel to the archive and not in the archive. -/
def isTransport : StoreError → Bool
  | transport _ | protocol _ | versionMismatch .. | canceled | deadlineExceeded => true
  | _ => false

/-- The archive refused what the caller asked for. -/
def isClientError : StoreError → Bool
  | notFound .. | outOfOrderAppend .. | invalidTruncateTarget .. | malformedEnvelope _
  | unknownCategory _ => true
  | _ => false

end StoreError

/-- The category a text names, or the refusal of an unknown name. -/
def Category.ofName (s : String) : Except StoreError Category :=
  match Category.ofName? s with
  | some c => .ok c
  | none => .error (.unknownCategory s)

end ColdArchive
