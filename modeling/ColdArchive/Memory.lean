import ColdArchive.Archive

/-!
An archive in memory: a table of blobs per category and the frozen count.

The tables may be longer than the frozen count when they come from a crash; the excess is never
shown, and an append or a repair drops it. A table keeps the ends of its blobs beside them, so that
the bytes of any number of first blobs are at hand.
-/

namespace ColdArchive

/-- The total length of a list of blobs. -/
def blobBytes : List Blob → Nat
  | [] => 0
  | blob :: blobs => blob.length + blobBytes blobs

theorem blobBytes_concat (blobs : List Blob) (blob : Blob) :
    blobBytes (blobs ++ [blob]) = blobBytes blobs + blob.length := by
  induction blobs with
  | nil => simp [blobBytes]
  | cons b bs ih => rw [List.cons_append, blobBytes, blobBytes, ih, Nat.add_assoc]

/-- The blobs of one category. The end of a blob is the total length up to it. -/
structure MemoryTable where
  blobs : List Blob
  ends : List Nat
  ends_eq : ends = (List.range blobs.length).map fun n => blobBytes (blobs.take (n + 1))
  deriving DecidableEq, Repr

namespace MemoryTable

/-- The last end is the total length. -/
theorem getLast?_ends (t : MemoryTable) : t.ends.getLast?.getD 0 = blobBytes t.blobs := by
  rw [t.ends_eq, List.getLast?_eq_getElem?, List.length_map, List.length_range]
  cases h : t.blobs.length with
  | zero =>
    rw [List.eq_nil_of_length_eq_zero h]
    rfl
  | succ n =>
    have hall : t.blobs.take (n + 1) = t.blobs := List.take_of_length_le (Nat.le_of_eq h)
    simp [hall]

/-- The table without blobs. -/
def empty : MemoryTable := ⟨[], [], rfl⟩

/-- Adds a blob behind the others. -/
def push (t : MemoryTable) (blob : Blob) : MemoryTable where
  blobs := t.blobs ++ [blob]
  ends := t.ends ++ [t.ends.getLast?.getD 0 + blob.length]
  ends_eq := by
    rw [getLast?_ends, t.ends_eq, List.length_append, List.length_singleton, List.range_succ,
      List.map_append, List.map_singleton, ← blobBytes_concat, List.take_of_length_le (by simp)]
    congr 1
    apply List.map_congr_left
    intro n hn
    rw [List.take_append_of_le_length (Nat.succ_le_of_lt (List.mem_range.mp hn))]

/-- Keeps the first `count` blobs. -/
def truncate (t : MemoryTable) (count : Nat) : MemoryTable where
  blobs := t.blobs.take count
  ends := t.ends.take count
  ends_eq := by
    rw [t.ends_eq, ← List.map_take, List.take_range, List.length_take]
    apply List.map_congr_left
    intro n hn
    have hlt := List.mem_range.mp hn
    rw [List.take_take, Nat.min_eq_left (by omega)]

/-- The table of a list of blobs. -/
def ofBlobs (blobs : List Blob) : MemoryTable := blobs.foldl push empty

/-- The bytes of the first `count` blobs, or of all if there are fewer. -/
def sizeAt (t : MemoryTable) (count : Nat) : Nat :=
  match min count t.blobs.length with
  | 0 => 0
  | last + 1 => t.ends.getD last 0

@[simp] theorem blobs_empty : empty.blobs = [] := rfl

@[simp] theorem blobs_push (t : MemoryTable) (blob : Blob) :
    (t.push blob).blobs = t.blobs ++ [blob] := rfl

@[simp] theorem blobs_truncate (t : MemoryTable) (count : Nat) :
    (t.truncate count).blobs = t.blobs.take count := rfl

@[simp] theorem blobs_ofBlobs (blobs : List Blob) : (ofBlobs blobs).blobs = blobs := by
  have h : ∀ (bs : List Blob) (t : MemoryTable), (bs.foldl push t).blobs = t.blobs ++ bs := by
    intro bs
    induction bs with
    | nil => simp
    | cons b bs ih =>
      intro t
      rw [List.foldl_cons, ih, blobs_push, List.append_assoc, List.singleton_append]
  rw [ofBlobs, h, blobs_empty, List.nil_append]

/-- The ends at hand give the total length of the first blobs. -/
theorem sizeAt_eq (t : MemoryTable) (count : Nat) :
    t.sizeAt count = blobBytes (t.blobs.take count) := by
  unfold sizeAt
  cases h : min count t.blobs.length with
  | zero =>
    have hnone : t.blobs.take count = [] := by
      apply List.eq_nil_of_length_eq_zero
      rw [List.length_take, h]
    rw [hnone]
    rfl
  | succ last =>
    have hlast : last < t.blobs.length := by omega
    have htake : t.blobs.take (last + 1) = t.blobs.take count := by
      rw [← h, ← List.take_eq_take_min]
    simp [t.ends_eq, hlast, htake]

end MemoryTable

/-- An archive in memory. -/
structure Memory where
  held : ByCategory MemoryTable
  frozen : Nat
  closed : Bool
  deriving DecidableEq, Repr

namespace Memory

/-- The blobs of the tables, committed or not. -/
def tables (m : Memory) : ByCategory (List Blob) := m.held.map MemoryTable.blobs

/-- The archive without records. -/
def empty : Memory := ⟨ByCategory.replicate .empty, 0, false⟩

/-- The archive left behind by tables of any lengths: what every table holds is committed. -/
def ofTables (tables : ByCategory (List Blob)) : Memory :=
  ⟨tables.map .ofBlobs, leastCount (tables.map List.length).toList, false⟩

/-- Goes on with an archive that is open, in a context that lets it. -/
def guarded (m : Memory) (now : Instant) (ctx : Context) : Except StoreError Unit := do
  ctx.check now
  if m.closed then throw .closed

/-- The blob committed at a number. -/
def read (m : Memory) (c : Category) (number : Nat) : Except StoreError Blob :=
  let missing := StoreError.notFound c number m.frozen
  if m.frozen ≤ number then .error missing
  else match (m.held.get c).blobs[number]? with
    | some blob => .ok blob
    | none => .error missing

/-- The bytes of the committed blobs of a category. -/
def size (m : Memory) (c : Category) : Nat := (m.held.get c).sizeAt m.frozen

/-- Puts the record in place of everything at or above the frozen count. -/
def push (m : Memory) (record : Record) : Memory :=
  { m with
    held := ByCategory.ofFn fun c => ((m.held.get c).truncate m.frozen).push (record.get c)
    frozen := m.frozen + 1 }

/-- Keeps the first `target` items of every table. -/
def cut (m : Memory) (target : Nat) : Memory :=
  { m with held := m.held.map fun t => t.truncate target, frozen := target }

/-- Drops everything and answers no further call. -/
def shut (m : Memory) : Memory :=
  if m.closed then m else { held := ByCategory.replicate .empty, frozen := 0, closed := true }

/-- The answer to a call and the archive after it. A close is never refused. -/
def perform (m : Memory) (now : Instant) (ctx : Context) : Call → Outcome × Memory
  | .close => (.ok .done, m.shut)
  | call =>
    match m.guarded now ctx with
    | .error e => (.error e, m)
    | .ok () =>
      match call with
      | .has _ number => (.ok (.truth (decide (number < m.frozen))), m)
      | .read c number => ((m.read c number).map .blob, m)
      | .count => (.ok (.number m.frozen), m)
      | .size c => (.ok (.number (m.size c)), m)
      | .append number record =>
        if number = m.frozen then (.ok .done, m.push record)
        else (.error (.outOfOrderAppend m.frozen number), m)
      | .truncate target =>
        if target ≤ m.frozen then (.ok .done, m.cut target)
        else (.error (.invalidTruncateTarget target m.frozen), m)
      | .sync => (.ok .done, m)
      | .close => (.ok .done, m.shut)

/-- Cuts every table to the shortest and commits what is left. -/
def repair (m : Memory) : Except StoreError RepairReport × Memory :=
  if m.closed then (.error .closed, m)
  else
    let lengths := (m.held.map fun t => t.blobs.length).toList
    let least := leastCount lengths
    (.ok ⟨lengths, least⟩, m.cut least)

instance : Engine Memory where
  perform := perform
  repair := repair

end Memory

end ColdArchive
