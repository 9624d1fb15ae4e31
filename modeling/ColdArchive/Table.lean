import ColdArchive.Disk.Basic

/-!
A table: the blobs of one category in two files.

The data file holds the blobs one after the other, and the index file the end of each of them as
eight bytes. An item is written to the data file before its entry is written to the index, and is
dropped from the index first, so that a change broken off in the middle leaves data without an
entry or a part of an entry, both of which go when the table is opened.
-/

namespace ColdArchive

/-- An open table: its two files and the ends of its items in the data file. -/
structure Table where
  category : Category
  data : FileId
  index : FileId
  ends : List Nat
  deriving DecidableEq, Repr

namespace Table

/-- The bytes of an index entry. -/
def entrySize : Nat := 8

/-- The whole entries of an index file. -/
def entries : Bytes → List Nat
  | a :: b :: c :: d :: e :: f :: g :: h :: rest =>
    ofLittleEndian [a, b, c, d, e, f, g, h] :: entries rest
  | _ => []

/-- The first item that ends before its predecessor, or before `previous`; `item` is the number of
the first one. -/
def firstDrop? (previous item : Nat) : List Nat → Option Nat
  | [] => none
  | e :: es => if e < previous then some item else firstDrop? e (item + 1) es

/-- Where item `n` starts: at the end of the item before it. -/
def startOf (ends : List Nat) : Nat → Nat
  | 0 => 0
  | n + 1 => ends.getD n 0

/-- The number of items. -/
def items (t : Table) : Nat := t.ends.length

/-- The bytes of the first `n` items, of all items if there are fewer. -/
def sizeAt (t : Table) (n : Nat) : Nat := startOf t.ends (min n t.items)

/-- The table with its first `n` items, before its files follow. -/
def keep (t : Table) (n : Nat) : Table := { t with ends := t.ends.take n }

def dataPath (directory : Path) (c : Category) : Path := directory.child (c.name ++ ".dat")

def indexPath (directory : Path) (c : Category) : Path := directory.child (c.name ++ ".idx")

/-- Opens the table of a category, with new files where there are none. Index entries that are
incomplete or end behind the data are cut off, and so is data behind the last entry. -/
def openAt (directory : Path) (c : Category) : DiskM Table := do
  let data ← Disk.openFile (dataPath directory c)
  let index ← Disk.openFile (indexPath directory c)
  let indexLength ← Disk.length index
  let stored := entries (← Disk.readAll index)
  if let some item := firstDrop? 0 0 stored then
    throw (.corrupted s!"{c.name} index goes backwards at item {item}")
  let dataLength ← Disk.length data
  let ends := stored.takeWhile fun e => decide (e ≤ dataLength)
  if entrySize * ends.length ≠ indexLength then
    Disk.resize index (entrySize * ends.length)
  if startOf ends ends.length ≠ dataLength then
    Disk.resize data (startOf ends ends.length)
  return { category := c, data := data, index := index, ends := ends }

/-- The blob of item `n`, if the table has it. -/
def retrieve (t : Table) (n : Nat) : DiskM (Option Blob) :=
  match t.ends[n]? with
  | none => return none
  | some stop => do
    let start := startOf t.ends n
    return some (← Disk.readAt t.data start (stop - start))

/-- Writes `blob` behind the last item. The files are first cut to what the table holds, so that
bytes left by an earlier failure never become part of an item. -/
def extend (t : Table) (blob : Blob) : DiskM Table := do
  let start := startOf t.ends t.items
  let stop := start + blob.length
  Disk.resize t.data start
  Disk.writeAt t.data start blob
  Disk.resize t.index (entrySize * t.items)
  Disk.writeAt t.index (entrySize * t.items) (littleEndian stop)
  return { t with ends := t.ends ++ [stop] }

/-- Cuts both files to the first `n` items, the index first. -/
def cutFiles (t : Table) (n : Nat) : DiskM Unit := do
  Disk.resize t.index (entrySize * n)
  Disk.resize t.data (startOf t.ends n)

end Table

/-- Work on an open table and its disk. -/
abbrev TableM := EStateM StoreError (Table × Disk)

/-- Work on the disk while a table is open. -/
def TableM.onDisk {α : Type} (work : DiskM α) : TableM α := fun (t, d) =>
  match work d with
  | .ok a d => .ok a (t, d)
  | .error e d => .error e (t, d)

namespace Table

/-- Writes `blob` as item `n` in place of everything at or above `n`. The items above go even if
the write fails. -/
def append (n : Nat) (blob : Blob) : TableM Unit := do
  let (t, _) ← get
  if t.items < n then
    throw (.corrupted s!"{t.category.name} table holds {t.items} items, cannot write item {n}")
  let t := t.keep n
  modify fun (_, d) => (t, d)
  let t ← TableM.onDisk (t.extend blob)
  modify fun (_, d) => (t, d)

/-- Drops everything at or above item `n`, unless there is nothing. -/
def truncate (n : Nat) : TableM Unit := do
  let (t, _) ← get
  if t.items < n then return
  TableM.onDisk (t.cutFiles n)
  modify fun (_, d) => (t.keep n, d)

end Table

end ColdArchive
