import ColdArchive.CommandLine.Run

/-!
The program: reads the arguments, loads the directory they name, runs the command and writes back
what has changed.

There is no network here. A service answers one peer, at the standard input and output, until the
input ends; no endpoint can be reached.
-/

namespace ColdArchive.CommandLine

/-- The text of a place. -/
def hostName (d : Disk) (place : Place) : String :=
  "/" ++ "/".intercalate (d.wayTo place.directory ++ [place.name])

/-- The bytes of a file, if there is one. -/
def load? (name : String) : IO (Option Bytes) := do
  try
    let bytes ← IO.FS.readBinFile name
    return some bytes.data.toList
  catch _ => return none

def isDirectory (name : String) : IO Bool := do
  let here ← IO.currentDir
  (here / name).isDir

/-- Adds what a name leads to, if it is not there yet. -/
def loadPlace (d : Disk) (place : Place) : IO Disk := do
  if (d.find? place).isSome then return d
  else if ← isDirectory (hostName d place) then return d.addDirectory place
  else
    match ← load? (hostName d place) with
    | some bytes =>
      return { d with
        tree := (place, .file d.contents.length) :: d.tree
        contents := d.contents ++ [.bytes bytes .empty] }
    | none => return d

/-- Adds what stands on the way along some steps. Gives the last directory as well. -/
def loadWay (d : Disk) (id : DirectoryId) : List Step → IO (DirectoryId × Disk)
  | [] => return (id, d)
  | .name name :: rest => do
    let d ← loadPlace d ⟨id, name⟩
    match d.find? ⟨id, name⟩ with
    | some (.directory next) => loadWay d next rest
    | _ => return (id, d)
  | .here :: rest => loadWay d id rest
  | .up :: rest => loadWay d (d.parent id) rest

/-- The files of an archive in a directory. -/
def archivePaths (directory : Path) : List Path :=
  directory.child FileArchive.lockName
    :: Category.all.flatMap fun c => [Table.dataPath directory c, Table.indexPath directory c]

/-- A disk with a directory, the way to it and the files of an archive in it. -/
def loadDisk (directory : String) : IO Disk := do
  let here ← IO.currentDir
  let (home, d) ← loadWay .empty 0 (Path.ofText here.toString).steps
  (archivePaths (Path.ofText directory)).foldlM
    (fun d p => do return (← loadWay d (d.start p) p.steps).2) { d with home := home }

/-- Makes the directories and writes the files of a disk in which it differs from another. -/
def saveDisk (old new : Disk) : IO Unit :=
  for (place, node) in new.tree.reverse do
    match node with
    | .directory _ =>
      if (old.find? place).isNone then IO.FS.createDirAll (hostName new place)
    | .file id =>
      let bytes := (new.content id).toBytes
      if old.read? place ≠ some bytes then
        IO.FS.writeBinFile (hostName new place) ⟨bytes.toArray⟩

/-- Takes the lock of a directory. Gives a disk on which the lock is taken if somebody has it. -/
def lockDisk (directory : String) (d : Disk) : IO (Option IO.FS.Handle × Disk) := do
  match d.fileAt ((Path.ofText directory).child FileArchive.lockName) with
  | .ok (id, place) =>
    let handle ← IO.FS.Handle.mk (hostName d place) .append
    if ← handle.tryLock then return (some handle, d)
    else return (none, { d with locks := [id] })
  | .error _ => return (none, d)

def printEnding (e : Ending) : IO UInt32 := do
  IO.print e.output
  IO.eprint e.errors
  return UInt32.ofNat e.code

/-- Answers what comes from the standard input. -/
partial def serveInput (directory : Option String) (listener : Listener) (archive : Hosted)
    (d : Disk) : IO (Hosted × Disk) := do
  let input ← IO.getStdin
  let output ← IO.getStdout
  let bytes ← input.read 65536
  if bytes.isEmpty then return (archive, d)
  else
    let now ← IO.monoNanosNow
    let (sent, listener, archive, after) :=
      listener.deliver now 0 bytes.data.toList (archive, d)
    for (_, answer) in sent do
      output.write ⟨answer.toArray⟩
    output.flush
    if directory.isSome then saveDisk d after
    if listener.connection 0 = .closed then return (archive, after)
    else serveInput directory listener archive after

/-- Serves until the input ends. -/
def serveCommand (i : Invocation) (directory : Option String) (bind : SocketAddress)
    (maxConnections : Nat) : IO UInt32 := do
  let name := directory.getD ""
  let before ← loadDisk name
  let (_handle, d) ← lockDisk name before
  let config := i.serviceConfig bind maxConnections
  match Serving.start config directory (SocketAddress.claim []) d with
  | (.error ending, d) =>
    if directory.isSome then saveDisk before d
    printEnding ending
  | (.ok serving, d) =>
    if directory.isSome then saveDisk before d
    IO.print serving.banner
    (← IO.getStdout).flush
    let now ← IO.monoNanosNow
    let (_, listener, archive, d) := serving.listener.connect now 0 (serving.archive, d)
    let (archive, d) ← serveInput directory listener archive d
    let now ← IO.monoNanosNow
    let (ending, after) := Serving.stop { serving with archive := archive } now d
    if directory.isSome then saveDisk d after
    printEnding ending

/-- Reports on a directory. -/
def inspectCommand (directory format : String) : IO UInt32 := do
  let before ← loadDisk directory
  let (_handle, d) ← lockDisk directory before
  let now ← IO.monoNanosNow
  match inspectDirectory now directory d with
  | .ok report d =>
    saveDisk before d
    printEnding (.success (report.render format))
  | .error e d =>
    saveDisk before d
    printEnding (.failure e.diagnosis)

def runCommand (i : Invocation) : IO UInt32 :=
  match i.command with
  | .serve directory bind maxConnections => serveCommand i directory bind maxConnections
  | .inspect (some directory) format => inspectCommand directory format
  | _ => do
    let now ← IO.monoNanosNow
    let (ending, _) := runRemote i now 0 (Wire.ofPeer .isolated ())
    printEnding ending

end ColdArchive.CommandLine

/-- The command line. -/
def main (arguments : List String) : IO UInt32 :=
  match ColdArchive.CommandLine.read arguments with
  | .ok i => ColdArchive.CommandLine.runCommand i
  | .error stop => ColdArchive.CommandLine.printEnding (.ofStop stop)
