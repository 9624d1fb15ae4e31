import ColdArchive.Disk.Content
import ColdArchive.Disk.Path

/-!
A disk: a tree of directories and files, the contents of the files, the locks held on them, and
what the device does with each change asked of it.

A handle on a file names its contents and not its place in the tree, so a file can be removed or
replaced behind an open handle. A change can succeed, fail after storing a part, or be lost
because the power went off; `FaultPlan` says which, so that a cap on file sizes, a failing device
and a power cut are three plans of one disk.
-/

namespace ColdArchive

/-- The contents of a file, whatever name leads to it. -/
abbrev FileId := Nat

/-- The number of a directory. -/
abbrev DirectoryId := Nat

/-- A name in a directory. -/
structure Place where
  directory : DirectoryId
  name : String
  deriving DecidableEq, Repr

/-- What a name leads to. -/
inductive Node where
  | directory (id : DirectoryId)
  | file (id : FileId)
  deriving DecidableEq, Repr

/-- A change asked of the device. -/
inductive Change where
  /-- A new name for a new empty file. -/
  | create
  /-- A new length for a file. -/
  | resize (old new : Nat)
  /-- So many bytes from an offset on. -/
  | write (offset count : Nat)
  deriving DecidableEq, Repr

/-- What becomes of a change. -/
inductive Verdict where
  | done
  /-- It fails and says so; the first `stored` bytes of a write are kept all the same. -/
  | fails (stored : Nat)
  /-- The power is gone: at most the first `stored` bytes of a write are kept, and nobody learns
  of it. -/
  | lost (stored : Nat)
  deriving DecidableEq, Repr

/-- What becomes of the changes of a disk, by their number and nature. -/
abbrev FaultPlan := Nat → Change → Verdict

namespace FaultPlan

/-- Every change succeeds. -/
def reliable : FaultPlan := fun _ _ => .done

/-- No file grows past `limit`: a write stores what fits and fails, growth by a new length fails
altogether. -/
def capped (limit : Nat) : FaultPlan := fun _ change =>
  match change with
  | .create => .done
  | .resize old new => if old < new ∧ limit < new then .fails 0 else .done
  | .write offset count => if offset + count ≤ limit then .done else .fails (limit - offset)

/-- The changes before number `n` go by `plan`, number `n` keeps at most `stored` bytes of a
write, and all later changes are lost. -/
def cutAt (plan : FaultPlan) (n stored : Nat) : FaultPlan := fun i change =>
  if i < n then plan i change else if i = n then .lost stored else .lost 0

end FaultPlan

/-- A disk. -/
structure Disk where
  tree : List (Place × Node)
  /-- Where every directory stands, by its number. Number 0 is the top, and stands in itself. -/
  directories : List Place
  /-- The working directory. -/
  home : DirectoryId
  contents : List Content
  locks : List FileId
  /-- The number of changes asked so far. -/
  changes : Nat
  faults : FaultPlan

/-- Work on a disk: it may fail, and what it changed before stays changed. -/
abbrev DiskM := EStateM StoreError Disk

namespace Disk

/-- The empty disk, which does as it is asked. -/
def empty : Disk := ⟨[], [⟨0, ""⟩], 0, [], [], 0, FaultPlan.reliable⟩

/-- The same files after the power came back: no locks are held and nothing fails. -/
def restart (d : Disk) : Disk := { d with locks := [], changes := 0, faults := .reliable }

def content (d : Disk) (id : FileId) : Content := d.contents.getD id .empty

def setContent (d : Disk) (id : FileId) (c : Content) : Disk :=
  { d with contents := d.contents.set id c }

/-! ### Walking the tree -/

/-- What a name leads to. -/
def find? (d : Disk) (place : Place) : Option Node := d.tree.lookup place

/-- The bytes of the file of a name. -/
def read? (d : Disk) (place : Place) : Option Bytes :=
  match d.find? place with
  | some (.file id) => some (d.content id).toBytes
  | _ => none

/-- The directory that a directory stands in. -/
def parent (d : Disk) (id : DirectoryId) : DirectoryId :=
  (d.directories.getD id ⟨0, ""⟩).directory

/-- The names on the way to a directory from the top. -/
def wayTo (d : Disk) (id : DirectoryId) : List String :=
  match d.directories[id]? with
  | none => []
  | some place => if place.directory < id then d.wayTo place.directory ++ [place.name] else []

/-- What a path leads to. -/
inductive Target where
  | directory (id : DirectoryId)
  /-- A name in a directory, with or without something behind it; `slash` if it has to be a
  directory. -/
  | entry (place : Place) (slash : Bool)
  deriving DecidableEq, Repr

/-- A name that is not too long. -/
def placeIn (id : DirectoryId) (name : String) : Except IoFailure Place :=
  if nameLimit < (utf8 name).length then .error .nameTooLong else .ok ⟨id, name⟩

/-- The directory a step leads to. -/
def enter (d : Disk) (id : DirectoryId) : Step → Except IoFailure DirectoryId
  | .here => .ok id
  | .up => .ok (d.parent id)
  | .name name => do
    match d.find? (← placeIn id name) with
    | some (.directory next) => return next
    | some (.file _) => throw .notDirectory
    | none => throw .notFound

/-- The directory a path starts from. -/
def start (d : Disk) (p : Path) : DirectoryId := if p.rooted then 0 else d.home

/-- What a path leads to: every step but the last goes into a directory. -/
def locate (d : Disk) (p : Path) : Except IoFailure Target :=
  match p.refusal? with
  | some failure => .error failure
  | none => do
    let id ← p.steps.dropLast.foldlM d.enter (d.start p)
    match p.steps.getLast? with
    | none => return .directory id
    | some (.name name) => return .entry (← placeIn id name) p.slash
    | some s => return .directory (← d.enter id s)

/-- A path leads to a directory. -/
def isDirectory (d : Disk) (p : Path) : Bool :=
  match d.locate p with
  | .ok (.directory _) => true
  | .ok (.entry place _) =>
    match d.find? place with
    | some (.directory _) => true
    | _ => false
  | .error _ => false

/-- The file at a path, or else the place where it can be made. -/
def vacancy (d : Disk) (p : Path) : Except IoFailure (FileId ⊕ Place) := do
  match ← d.locate p with
  | .directory _ => throw .isDirectory
  | .entry place slash =>
    if slash then throw .isDirectory
    match d.find? place with
    | some (.file id) => return .inl id
    | some (.directory _) => throw .isDirectory
    | none => return .inr place

/-- The file at a path, and its place. -/
def fileAt (d : Disk) (p : Path) : Except IoFailure (FileId × Place) := do
  match ← d.locate p with
  | .directory _ => throw .isDirectory
  | .entry place slash =>
    match d.find? place with
    | some (.file id) => if slash then throw .notDirectory else return (id, place)
    | some (.directory _) => throw .isDirectory
    | none => throw .notFound

/-- The length of the file at a path, if there is one. -/
def lengthAt? (d : Disk) (p : Path) : Option Nat :=
  match d.fileAt p with
  | .ok (id, _) => some (d.content id).length
  | .error _ => none

/-! ### Work on open files -/

/-- Asks for a change. -/
def ask (change : Change) : DiskM Verdict := fun d =>
  .ok (d.faults d.changes change) { d with changes := d.changes + 1 }

def length (id : FileId) : DiskM Nat := fun d => .ok (d.content id).length d

def readAll (id : FileId) : DiskM Bytes := fun d => .ok (d.content id).toBytes d

/-- Exactly `count` bytes from `offset` on. -/
def readAt (id : FileId) (offset count : Nat) : DiskM Bytes := fun d =>
  let found := ((d.content id).drop offset).take count
  if found.length = count then .ok found.toBytes d else .error (.io .endOfData) d

/-- Gives a file a new length, with zeros for what it gains. -/
def resize (id : FileId) (length : Nat) : DiskM Unit := do
  let old ← Disk.length id
  match ← ask (.resize old length) with
  | .done => modify fun d => d.setContent id ((d.content id).fit length)
  | .fails _ => throw (.io .tooLarge)
  | .lost _ => pure ()

/-- Writes `bytes` at `offset`. To write nothing asks for no change. -/
def writeAt (id : FileId) (offset : Nat) (bytes : Bytes) : DiskM Unit := do
  if bytes = [] then return
  match ← ask (.write offset bytes.length) with
  | .done => modify fun d => d.setContent id ((d.content id).splice offset bytes)
  | .fails stored =>
    modify fun d => d.setContent id ((d.content id).splice offset (bytes.take stored))
    throw (.io .tooLarge)
  | .lost stored =>
    modify fun d => d.setContent id ((d.content id).splice offset (bytes.take stored))

/-! ### Work on the tree -/

/-- Work that fails where a part of it that changes nothing does. -/
def attempt {α : Type} (found : Except IoFailure α) : DiskM α :=
  match found with
  | .ok a => return a
  | .error failure => throw (.io failure)

/-- A new file at a place where nothing is. -/
def create (place : Place) : DiskM FileId := do
  let verdict ← ask .create
  let id := (← get).contents.length
  modify fun d => { d with contents := d.contents ++ [.empty] }
  match verdict with
  | .done => modify fun d => { d with tree := (place, .file id) :: d.tree }
  | .fails _ => throw (.io .tooLarge)
  | .lost _ => pure ()
  return id

/-- The file at a path, made if there is none. -/
def openFile (p : Path) : DiskM FileId := do
  match ← attempt ((← get).vacancy p) with
  | .inl id => return id
  | .inr place => create place

/-- A disk with a new directory at a place where nothing is. -/
def addDirectory (d : Disk) (place : Place) : Disk :=
  { d with
    tree := (place, .directory d.directories.length) :: d.tree
    directories := d.directories ++ [place] }

/-- Makes the directory at a path, unless it is there. -/
def ensureDirectory (p : Path) : DiskM Unit := do
  match ← attempt ((← get).locate p) with
  | .directory _ => pure ()
  | .entry place _ =>
    match (← get).find? place with
    | some (.directory _) => pure ()
    | some (.file _) => throw (.io .exists)
    | none => modify fun d => d.addDirectory place

/-- Goes from directory to directory and makes those that are missing; `made` if one of them was. A
file in the way has the place of a directory to be made once there is a new one before it. -/
def ensureWay (id : DirectoryId) (made : Bool) : List Step → DiskM Unit
  | [] => pure ()
  | .here :: rest => ensureWay id made rest
  | .up :: rest => do ensureWay ((← get).parent id) made rest
  | .name name :: rest => do
    let place ← attempt (placeIn id name)
    match (← get).find? place with
    | some (.directory next) => ensureWay next made rest
    | some (.file _) => throw (.io (if made then .exists else .notDirectory))
    | none => do
      let next := (← get).directories.length
      modify fun d => d.addDirectory place
      ensureWay next true rest

/-- Makes the directories on the way to the last part of a path, where they are missing. -/
def makeWay (p : Path) : DiskM Unit := do
  if Path.hasNul p.way then throw (.io .nulInName)
  if pathLimit < p.waySize then throw (.io .nameTooLong)
  ensureWay ((← get).start p) false p.way

/-- Makes the directory at a path and those on the way to it, where they are missing. The empty path
asks for nothing. -/
def makeDirectories (p : Path) : DiskM Unit := do
  if p.isEmpty then return
  if let some failure := p.refusal? then throw (.io failure)
  makeWay p
  ensureDirectory p

/-- Takes the lock of a file, unless it is taken. -/
def tryLock (id : FileId) : DiskM Bool := fun d =>
  if id ∈ d.locks then .ok false d else .ok true { d with locks := id :: d.locks }

def unlock (id : FileId) : DiskM Unit := modify fun d => { d with locks := d.locks.erase id }

/-- Puts `bytes` in place of the file at a path, with the directories on the way to it. -/
def replaceFile (p : Path) (bytes : Bytes) : DiskM Unit := do
  makeWay p
  let id ← openFile p
  resize id 0
  writeAt id 0 bytes

/-- Adds `bytes` to the end of the file at a path. -/
def extendFile (p : Path) (bytes : Bytes) : DiskM Unit := do
  let (id, _) ← attempt ((← get).fileAt p)
  writeAt id (← length id) bytes

/-- The greatest length of a file. -/
def greatestLength : Nat := 9223372036854775807

/-- Gives the file at a path a new length. -/
def resizeFile (p : Path) (length : Nat) : DiskM Unit := do
  let (id, _) ← attempt ((← get).fileAt p)
  if greatestLength < length then throw (.io .tooLarge)
  resize id length

/-- Takes the file at a path out of the tree. Who has it open keeps its contents. -/
def removeFile (p : Path) : DiskM Unit := do
  let (_, place) ← attempt ((← get).fileAt p)
  modify fun d => { d with tree := d.tree.filter fun entry => entry.1 ≠ place }

def contentAt (p : Path) : DiskM Bytes := do
  let (id, _) ← attempt ((← get).fileAt p)
  readAll id

end Disk

end ColdArchive
