import ColdArchive.Archive
import ColdArchive.Table

/-!
An archive in a directory: a table per category and a lock file.

The frozen count is the point at which a record comes into being: it is raised only when every
table holds the record, and lowered before any table is cut. An append that fails at one table is
taken back from all of them.
-/

namespace ColdArchive

/-- What an open archive has in hand. -/
structure OpenTables where
  tables : ByCategory Table
  lock : FileId
  deriving DecidableEq, Repr

/-- A handle on an archive in a directory. A closed handle has nothing in hand. -/
structure FileArchive where
  directory : String
  opened : Option OpenTables
  frozen : Nat
  deriving DecidableEq, Repr

/-- Work with an open archive: its tables, its frozen count and its disk. -/
structure FileState where
  tables : ByCategory Table
  frozen : Nat
  disk : Disk

/-- Work on the state of an open archive. -/
abbrev FileM := EStateM StoreError FileState

namespace FileM

def onDisk {α : Type} (work : DiskM α) : FileM α := fun s =>
  match work s.disk with
  | .ok a d => .ok a { s with disk := d }
  | .error e d => .error e { s with disk := d }

/-- Work on the table of one category. -/
def onTable {α : Type} (c : Category) (work : TableM α) : FileM α := fun s =>
  match work (s.tables.get c, s.disk) with
  | .ok a (t, d) => .ok a { s with tables := s.tables.set c t, disk := d }
  | .error e (t, d) => .error e { s with tables := s.tables.set c t, disk := d }

def setFrozen (n : Nat) : FileM Unit := modify fun s => { s with frozen := n }

/-- Cuts the tables of the given categories to `n` items. -/
def cutTables (n : Nat) (categories : List Category) : FileM Unit :=
  categories.forM fun c => onTable c (Table.truncate n)

/-- Cuts every table to the shortest and commits what is left. -/
def repair : FileM RepairReport := do
  let lengths := ((← get).tables.map Table.items).toList
  let least := leastCount lengths
  setFrozen least
  cutTables least Category.all
  return ⟨lengths, least⟩

/-- Writes the blobs of a record to the tables one after the other. If one fails, it and those
before it are cut back, and the first failure to cut is reported in place of the cause. -/
def writeBlobs (number : Nat) (record : Record) (written : List Category) :
    List Category → FileM Unit
  | [] => pure ()
  | c :: rest => fun s =>
    match onTable c (Table.append number (record.get c)) s with
    | .ok () s => writeBlobs number record (written ++ [c]) rest s
    | .error e s =>
      match cutTables number (written ++ [c]) s with
      | .ok () s => .error e s
      | .error e' s => .error e' s

/-- Appends the record at `number`. -/
def append (number : Nat) (record : Record) : FileM Unit := do
  let frozen := (← get).frozen
  if number ≠ frozen then throw (.outOfOrderAppend frozen number)
  writeBlobs number record [] Category.all
  setFrozen (number + 1)

/-- Drops every record at or above `target`. The records are hidden before a table is cut. -/
def truncate (target : Nat) : FileM Unit := do
  let frozen := (← get).frozen
  if frozen < target then throw (.invalidTruncateTarget target frozen)
  setFrozen target
  cutTables target Category.all

/-- The blob committed at a number. -/
def read (c : Category) (number : Nat) : FileM Blob := do
  let s ← get
  let missing := StoreError.notFound c number s.frozen
  if s.frozen ≤ number then throw missing
  match ← onDisk ((s.tables.get c).retrieve number) with
  | some blob => return blob
  | none => throw missing

/-- Every call but a close. -/
def perform : Call → FileM Reply
  | .has _ number => return .truth (decide (number < (← get).frozen))
  | .read c number => return .blob (← read c number)
  | .count => return .number (← get).frozen
  | .size c => do
    let s ← get
    return .number ((s.tables.get c).sizeAt s.frozen)
  | .append number record => do append number record; return .done
  | .truncate target => do truncate target; return .done
  | .sync => return .done
  | .close => return .done

end FileM

namespace FileArchive

def lockName : String := "LOCK"

/-- The tables of all categories, opened in storage order. -/
def openTables (directory : Path) : DiskM (ByCategory Table) := do
  let hash ← Table.openAt directory .hash
  let header ← Table.openAt directory .header
  let body ← Table.openAt directory .body
  let receipts ← Table.openAt directory .receipts
  let difficulty ← Table.openAt directory .difficulty
  return ⟨hash, header, body, receipts, difficulty⟩

/-- Opens the tables of a directory whose lock is held, and aligns them. -/
def openLocked (directory : String) (lock : FileId) : DiskM FileArchive := fun d =>
  match openTables (Path.ofText directory) d with
  | .error e d => .error e d
  | .ok tables d =>
    match FileM.repair { tables := tables, frozen := 0, disk := d } with
    | .error e s => .error e s.disk
    | .ok _ s => .ok ⟨directory, some ⟨s.tables, lock⟩, s.frozen⟩ s.disk

/-- Opens the archive of a directory, made if missing. It is refused while somebody has the
directory open, and the lock is given back if anything after it fails. -/
def openAt (directory : String) : DiskM FileArchive := do
  let path := Path.ofText directory
  Disk.makeDirectories path
  let lock ← Disk.openFile (path.child lockName)
  if ← Disk.tryLock lock then
    fun d =>
      match openLocked directory lock d with
      | .ok a d => .ok a d
      | .error e d => .error e { d with locks := d.locks.erase lock }
  else throw (.locked directory)

/-- Lets go of the tables and the lock. -/
def release (a : FileArchive) (d : Disk) : FileArchive × Disk :=
  match a.opened with
  | none => (a, d)
  | some o => ({ a with opened := none, frozen := 0 }, { d with locks := d.locks.erase o.lock })

/-- Runs work on an open archive, and keeps what it changed whether it succeeds or not. -/
def work {α : Type} (a : FileArchive) (d : Disk) (f : FileM α) :
    Except StoreError α × FileArchive × Disk :=
  match a.opened with
  | none => (.error .closed, a, d)
  | some o =>
    let keep (s : FileState) : FileArchive × Disk :=
      ({ a with opened := some { o with tables := s.tables }, frozen := s.frozen }, s.disk)
    match f { tables := o.tables, frozen := a.frozen, disk := d } with
    | .ok r s => (.ok r, keep s)
    | .error e s => (.error e, keep s)

/-- The answer to a call, with the handle and the disk after it. A close is never refused. -/
def perform (a : FileArchive) (d : Disk) (now : Instant) (ctx : Context) :
    Call → Outcome × FileArchive × Disk
  | .close => (.ok .done, a.release d)
  | call =>
    match ctx.check now with
    | .error e => (.error e, a, d)
    | .ok () => a.work d (FileM.perform call)

def repair (a : FileArchive) (d : Disk) : Except StoreError RepairReport × FileArchive × Disk :=
  a.work d FileM.repair

instance : Engine (FileArchive × Disk) where
  perform := fun (a, d) now ctx call => a.perform d now ctx call
  repair := fun (a, d) => a.repair d

end FileArchive

end ColdArchive
