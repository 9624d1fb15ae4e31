import ColdArchive.CommandLine.Arguments
import ColdArchive.CommandLine.Diagnosis
import ColdArchive.Hosted
import ColdArchive.Inspection
import ColdArchive.Remote.Connect

/-!
What the commands do, and how they end: with an exit code and with text on both outputs.
-/

namespace ColdArchive.CommandLine

/-- How a command ends. -/
structure Ending where
  code : Nat
  output : String
  errors : String
  deriving DecidableEq, Repr

namespace Ending

/-- A command has done what it was asked for. -/
def success (output : String) : Ending := ⟨0, output, ""⟩

/-- A command has failed. -/
def failure (diagnosis : String) : Ending := ⟨1, "", "Error: " ++ diagnosis ++ "\n"⟩

/-- The arguments are not a command. -/
def ofStop : Stop → Ending
  | .help usage => success usage
  | .version => success (programName ++ " " ++ programVersion ++ "\n")
  | .refused => ⟨2, "", "error: unusable arguments\n\n" ++ program.usage⟩

/-- A service did not start. One that cannot count its connections gives up at once. -/
def ofServiceError (e : ServiceError) : Ending :=
  match e with
  | .uncountable _ => ⟨101, "", e.message ++ "\n"⟩
  | _ => failure e.diagnosis

def ofResult : Except StoreError String → Ending
  | .ok output => success output
  | .error e => failure e.diagnosis

end Ending

namespace Invocation

/-- The settings of a remote archive. -/
def remoteConfig (i : Invocation) : RemoteConfig :=
  { RemoteConfig.default with ns := i.ns, defaultTimeout := i.timeout }

/-- The settings of a service. -/
def serviceConfig (i : Invocation) (bind : SocketAddress) (maxConnections : Nat) :
    ServiceConfig :=
  { ServiceConfig.default with
    bind := bind, ns := i.ns, maxConnections := maxConnections, requestTimeout := i.timeout }

end Invocation

/-! ### Commands on a directory -/

/-- Reports on the archive of a directory, and lets it go. -/
def inspectDirectory (now : Instant) (directory : String) : DiskM Inspection := do
  let a ← FileArchive.openAt directory
  fun d =>
    match Inspection.collect now directory (a, d) with
    | .ok report (a, d) => .ok report (a.release d).2
    | .error e (a, d) => .error e (a.release d).2

/-- A started service and its archive. -/
structure Serving where
  listener : Listener
  archive : Hosted

namespace Serving

/-- What is printed once the service listens. -/
def banner (s : Serving) : String := "Listening on " ++ s.listener.address.text ++ "\n"

/-- Opens the archive and starts to listen. -/
def start (c : ServiceConfig) (directory : Option String)
    (claim : SocketAddress → Except IoFailure SocketAddress) (d : Disk) :
    Except Ending Serving × Disk :=
  match Hosted.openAt directory d with
  | .error e d => (.error (.failure e.diagnosis), d)
  | .ok archive d =>
    match Listener.bind c claim (archive, d) with
    | (.ok listener, archive, d) => (.ok ⟨listener, archive⟩, d)
    | (.error e, archive, d) => (.error (.ofServiceError e), archive.release d)

/-- Stops listening and closes the archive. -/
def stop (s : Serving) (now : Instant) (d : Disk) : Ending × Disk :=
  let (outcome, _, d) := Archive.perform (s.archive, d) now .background .close
  (.ofResult (outcome.map fun _ => ""), d)

end Serving

/-! ### Commands on a remote archive -/

variable [Json.Wording] {π : Type} [StreamPeer π]

/-- Calls of a remote archive. -/
abbrev RemoteM (π : Type) := EStateM StoreError (RemoteArchive (StreamTransport π))

/-- One call under no limits but those of the settings. -/
def ask (now : Instant) (call : Call) : RemoteM π Reply := fun c =>
  match c.perform now .background call with
  | (.ok reply, c) => .ok reply c
  | (.error e, c) => .error e c

/-- What a command prints that needs a remote archive; `elapsed` is the time it has taken. -/
def remoteOutput (now : Instant) (elapsed : Duration) (endpoint : String) :
    Command → RemoteM π String
  | .ping => do
    let c ← get
    return s!"{endpoint}: {c.status} ({Duration.millis elapsed} ms)\n"
  | .inspect _ format => do
    return (← Inspection.collect now endpoint).render format
  | .get name number => do
    match Category.ofName name with
    | .error e => throw e
    | .ok category =>
      match ← ask now (.read category number) with
      | .blob bytes => return Envelope.encode bytes ++ "\n"
      | _ => return "\n"
  | .truncate target => do
    let before ← Inspection.number now .count
    let _ ← ask now (.truncate target)
    let _ ← ask now .sync
    return s!"Truncated {endpoint} from {before} to {target} items\n"
  | .serve .. => return ""

/-- Connects to the endpoint, does a command and lets the connection go. A category that does not
exist is refused before that. -/
def runRemote (i : Invocation) (now : Instant) (elapsed : Duration) (wire : Wire π) :
    Ending × Wire π :=
  let refusal := match i.command with
    | .get name _ => (Category.ofName name).map fun _ => ()
    | _ => .ok ()
  match refusal with
  | .error e => (.failure e.diagnosis, wire)
  | .ok () =>
    match RemoteArchive.connect i.endpoint i.remoteConfig now wire with
    | (.error e, t) => (.failure e.diagnosis, (t.close now).wire)
    | (.ok c, _) =>
      match remoteOutput now elapsed i.endpoint i.command c with
      | .ok output c => (.success output, c.release now)
      | .error e c => (.failure e.diagnosis, c.release now)

end ColdArchive.CommandLine
