import ColdArchive.Proofs.Table.Blobs

/-!
# A table that counts in words

The ends of a table, its numbers of items and the offsets in its files are words of 64 bits. Each
operation is written once more here, with arithmetic that stops where a result is no word and where
an end is looked up that is not there, and with every step in its place among the comparisons and
the changes of the files. From a table whose ends are those of blobs that fit a file
(`Table.Spans`), no operation stops: it does exactly what it does without the bounds (`RunsAs`).
-/

namespace ColdArchive

/-! ### Words -/

/-- Why arithmetic stops. -/
inductive Trap where
  /-- The result is no word. -/
  | overflow
  /-- More is taken away than there is. -/
  | underflow
  /-- A list does not reach so far. -/
  | outOfRange
  deriving DecidableEq, Repr

namespace Word

def add (a b : Nat) : Except Trap Nat :=
  if a + b < wordLimit then .ok (a + b) else .error .overflow

def sub (a b : Nat) : Except Trap Nat := if b ≤ a then .ok (a - b) else .error .underflow

def mul (a b : Nat) : Except Trap Nat :=
  if a * b < wordLimit then .ok (a * b) else .error .overflow

/-- The word at a place of a list. -/
def lookup (words : List Nat) (place : Nat) : Except Trap Nat :=
  match words[place]? with
  | some word => .ok word
  | none => .error .outOfRange

theorem add_eq {a b : Nat} (h : a + b < wordLimit) : add a b = .ok (a + b) := if_pos h

theorem sub_eq {a b : Nat} (h : b ≤ a) : sub a b = .ok (a - b) := if_pos h

theorem mul_eq {a b : Nat} (h : a * b < wordLimit) : mul a b = .ok (a * b) := if_pos h

theorem lookup_eq {words : List Nat} {place word : Nat} (h : words[place]? = some word) :
    lookup words place = .ok word := by rw [lookup, h]

end Word

/-! ### Work that may stop -/

/-- Work whose arithmetic may stop. -/
abbrev WordM (σ α : Type) := ExceptT Trap (EStateM StoreError σ) α

/-- From the state `s` the work in words ends as the other work does, and its arithmetic does not
stop. -/
def RunsAs {σ α : Type} (inWords : WordM σ α) (work : EStateM StoreError σ α) (s : σ) : Prop :=
  inWords.run s =
    match work s with
    | .ok a s => .ok (.ok a) s
    | .error e s => .error e s

section RunsAs

variable {σ α β : Type}

theorem runsAs_lift (work : EStateM StoreError σ α) (s : σ) : RunsAs (liftM work) work s := by
  have hrun : (liftM work : WordM σ α).run s = (work >>= fun a => pure (Except.ok a)) s := rfl
  rw [RunsAs, hrun, bind_apply]
  cases work s <;> rfl

/-- **One work after another**, each without a stop. -/
theorem RunsAs.bind {inWords : WordM σ α} {work : EStateM StoreError σ α}
    {nextInWords : α → WordM σ β} {next : α → EStateM StoreError σ β} {s : σ}
    (h : RunsAs inWords work s)
    (hn : ∀ a s', work s = .ok a s' → RunsAs (nextInWords a) (next a) s') :
    RunsAs (inWords >>= nextInWords) (work >>= next) s := by
  have hrun : (inWords >>= nextInWords).run s =
      (inWords.run >>= ExceptT.bindCont nextInWords) s := rfl
  rw [RunsAs, hrun, bind_apply, bind_apply, h]
  cases hw : work s with
  | ok a s' => exact hn a s' hw
  | error e s' => rfl

/-- A computation that does not stop leaves what follows. -/
theorem RunsAs.compute {x : Except Trap α} {a : α} {nextInWords : α → WordM σ β}
    {next : EStateM StoreError σ β} {s : σ} (hx : x = .ok a)
    (h : RunsAs (nextInWords a) next s) : RunsAs (liftM x >>= nextInWords) next s := by
  subst hx
  exact h

/-- Work in words on the disk while a table is open. -/
def WordM.onDisk (work : WordM Disk α) : WordM (Table × Disk) α :=
  ExceptT.mk (TableM.onDisk work.run)

theorem RunsAs.onDisk {inWords : WordM Disk α} {work : DiskM α} {d : Disk}
    (h : RunsAs inWords work d) (t : Table) :
    RunsAs inWords.onDisk (TableM.onDisk work) (t, d) := by
  have hrun : inWords.onDisk.run (t, d) = TableM.onDisk inWords.run (t, d) := rfl
  rw [RunsAs, hrun, TableM.onDisk, TableM.onDisk, h]
  cases work d <;> rfl

end RunsAs

namespace Table

/-! ### The operations in words -/

/-- Where item `n` starts. -/
def startInWords (ends : List Nat) (n : Nat) : Except Trap Nat :=
  if n = 0 then .ok 0 else do Word.lookup ends (← Word.sub n 1)

/-- The bytes of the first `n` items, of all items if there are fewer. -/
def sizeInWords (t : Table) (n : Nat) : Except Trap Nat := startInWords t.ends (min n t.items)

/-- The blob of item `n`, if the table has it. -/
def retrieveInWords (t : Table) (n : Nat) : WordM Disk (Option Blob) :=
  match t.ends[n]? with
  | none => return none
  | some stop => do
    let start ← startInWords t.ends n
    let count ← Word.sub stop start
    return some (← Disk.readAt t.data start count)

/-- Writes `blob` as item `n` behind the last item. -/
def extendInWords (t : Table) (n : Nat) (blob : Blob) : WordM Disk Table := do
  let start := t.ends.getLast?.getD 0
  let stop ← Word.add start blob.length
  let offset ← Word.mul n entrySize
  Disk.resize t.data start
  Disk.writeAt t.data start blob
  Disk.resize t.index offset
  Disk.writeAt t.index offset (littleEndian stop)
  return { t with ends := t.ends ++ [stop] }

/-- Cuts both files to the first `n` items. -/
def cutFilesInWords (t : Table) (n : Nat) : WordM Disk Unit := do
  let start ← startInWords t.ends n
  let offset ← Word.mul n entrySize
  Disk.resize t.index offset
  Disk.resize t.data start

/-- Writes `blob` as item `n` in place of everything at or above `n`. -/
def appendInWords (n : Nat) (blob : Blob) : WordM (Table × Disk) Unit := do
  let (t, _) ← get
  if t.items < n then
    throwThe StoreError
      (.corrupted s!"{t.category.name} table holds {t.items} items, cannot write item {n}")
  let t := t.keep n
  modify fun (_, d) => (t, d)
  let t ← (t.extendInWords n blob).onDisk
  modify fun (_, d) => (t, d)

/-- Drops everything at or above item `n`, unless there is nothing. -/
def truncateInWords (n : Nat) : WordM (Table × Disk) Unit := do
  let (t, _) ← get
  if t.items < n then return
  (t.cutFilesInWords n).onDisk
  modify fun (_, d) => (t.keep n, d)

theorem startInWords_eq {ends : List Nat} {n : Nat} (h : n ≤ ends.length) :
    startInWords ends n = .ok (startOf ends n) := by
  cases n with
  | zero => rfl
  | succ n =>
    rw [startInWords, if_neg (Nat.succ_ne_zero n), Word.sub_eq (Nat.le_add_left 1 n), ok_bind,
      Nat.add_sub_cancel, Word.lookup_eq (List.getElem?_eq_getElem h), startOf,
      List.getD_eq_getElem?_getD, List.getElem?_eq_getElem h, Option.getD_some]

theorem getLast?_eq_startOf (t : Table) : t.ends.getLast?.getD 0 = startOf t.ends t.items := by
  rw [List.getLast?_eq_getElem?, items]
  cases t.ends with
  | nil => rfl
  | cons e es => rw [List.length_cons, Nat.add_sub_cancel, startOf, List.getD_eq_getElem?_getD]

theorem sizeInWords_eq (t : Table) (n : Nat) : t.sizeInWords n = .ok (t.sizeAt n) :=
  startInWords_eq (Nat.min_le_right n t.items)

/-! ### Tables whose ends fit a file -/

/-- The table has the ends of these blobs, which fit a data file as their entries fit an index. -/
structure Spans (t : Table) (blobs : List Blob) : Prop where
  ends : t.ends = endsOf blobs
  data : blobBytes blobs ≤ Disk.greatestLength
  index : entrySize * blobs.length ≤ Disk.greatestLength

section Spans

variable {t t' : Table} {d d' : Disk} {blobs : List Blob} {n : Nat} {blob : Blob}

theorem Spans.items_eq (h : t.Spans blobs) : t.items = blobs.length := by
  rw [items, h.ends, length_endsOf]

theorem Spans.startOf_eq (h : t.Spans blobs) (hn : n ≤ t.items) :
    startOf t.ends n = blobBytes (blobs.take n) := by
  rw [h.ends, startOf_endsOf (h.items_eq ▸ hn)]

theorem Spans.startOf_le (h : t.Spans blobs) (hn : n ≤ t.items) :
    startOf t.ends n ≤ Disk.greatestLength := by
  rw [h.startOf_eq hn]
  exact Nat.le_trans (blobBytes_take_le n blobs) h.data

theorem Spans.entries_le (h : t.Spans blobs) (hn : n ≤ t.items) :
    n * entrySize ≤ Disk.greatestLength := by
  rw [h.items_eq] at hn
  rw [Nat.mul_comm]
  exact Nat.le_trans (Nat.mul_le_mul_left _ hn) h.index

theorem Spans.keep (h : t.Spans blobs) (n : Nat) : (t.keep n).Spans (blobs.take n) := by
  refine ⟨?_, Nat.le_trans (blobBytes_take_le n blobs) h.data, ?_⟩
  · rw [Table.keep, h.ends, take_endsOf]
  · refine Nat.le_trans (Nat.mul_le_mul_left _ ?_) h.index
    rw [List.length_take]
    exact Nat.min_le_right ..

theorem Spans.stop_eq (h : t.Spans blobs) {stop : Nat} (hstop : t.ends[n]? = some stop) :
    ∃ b, blobs[n]? = some b ∧ stop = startOf t.ends n + b.length := by
  rw [h.ends] at hstop ⊢
  exact stop_of_endsOf hstop

/-! ### Operations that do not stop -/

theorem Spans.retrieve_runsAs (h : t.Spans blobs) (n : Nat) (d : Disk) :
    RunsAs (t.retrieveInWords n) (t.retrieve n) d := by
  unfold retrieveInWords retrieve
  cases hstop : t.ends[n]? with
  | none => rfl
  | some stop =>
    obtain ⟨hn, -⟩ := List.getElem?_eq_some_iff.mp hstop
    obtain ⟨b, -, hb⟩ := h.stop_eq hstop
    refine RunsAs.compute (startInWords_eq (Nat.le_of_lt hn)) ?_
    refine RunsAs.compute (Word.sub_eq (hb ▸ Nat.le_add_right ..)) ?_
    exact (runsAs_lift _ d).bind fun _ _ _ => rfl

theorem Spans.extend_runsAs (h : t.Spans blobs) (hb : blob.length ≤ Disk.greatestLength)
    (d : Disk) : RunsAs (t.extendInWords t.items blob) (t.extend blob) d := by
  have hstart := h.startOf_le (Nat.le_refl t.items)
  have hentries := h.entries_le (Nat.le_refl t.items)
  have hstop : startOf t.ends t.items + blob.length < wordLimit := by
    simp only [Disk.greatestLength] at hstart hb
    rw [wordLimit]
    omega
  unfold extendInWords extend
  rw [getLast?_eq_startOf, Nat.mul_comm entrySize]
  refine RunsAs.compute (Word.add_eq hstop) ?_
  refine RunsAs.compute (Word.mul_eq (Nat.lt_of_le_of_lt hentries (by decide))) ?_
  refine (runsAs_lift _ d).bind fun _ d₁ _ => ?_
  refine (runsAs_lift _ d₁).bind fun _ d₂ _ => ?_
  refine (runsAs_lift _ d₂).bind fun _ d₃ _ => ?_
  exact (runsAs_lift _ d₃).bind fun _ _ _ => rfl

theorem Spans.cutFiles_runsAs (h : t.Spans blobs) (hn : n ≤ t.items) (d : Disk) :
    RunsAs (t.cutFilesInWords n) (t.cutFiles n) d := by
  unfold cutFilesInWords cutFiles
  rw [Nat.mul_comm entrySize]
  refine RunsAs.compute (startInWords_eq hn) ?_
  refine RunsAs.compute (Word.mul_eq (Nat.lt_of_le_of_lt (h.entries_le hn) (by decide))) ?_
  exact (runsAs_lift _ d).bind fun _ d₁ _ => runsAs_lift _ d₁

theorem Spans.append_runsAs (h : t.Spans blobs) (n : Nat)
    (hb : blob.length ≤ Disk.greatestLength) (d : Disk) :
    RunsAs (appendInWords n blob) (append n blob) (t, d) := by
  unfold appendInWords append
  refine (runsAs_lift get (t, d)).bind ?_
  rintro _ _ ⟨⟩
  simp only
  split
  · rfl
  · next hn =>
    have hkept := (h.keep n).extend_runsAs hb d
    rw [items_keep (Nat.le_of_not_lt hn)] at hkept
    refine (runsAs_lift _ (t, d)).bind ?_
    rintro _ _ ⟨⟩
    exact (hkept.onDisk (t.keep n)).bind fun _ s _ => runsAs_lift _ s

theorem Spans.truncate_runsAs (h : t.Spans blobs) (n : Nat) (d : Disk) :
    RunsAs (truncateInWords n) (truncate n) (t, d) := by
  unfold truncateInWords truncate
  refine (runsAs_lift get (t, d)).bind ?_
  rintro _ _ ⟨⟩
  simp only
  split
  · rfl
  · next hn =>
    have hcut := h.cutFiles_runsAs (Nat.le_of_not_lt hn) d
    exact (hcut.onDisk t).bind fun _ s _ => runsAs_lift _ s

/-! ### The lengths of items -/

/-- The lengths of items that stand one behind the other from `start` on, by their ends. -/
def lengthsFrom (start : Nat) : List Nat → List Nat
  | [] => []
  | stop :: ends => (stop - start) :: lengthsFrom stop ends

/-- The lengths of the items. -/
def lengths (t : Table) : List Nat := lengthsFrom 0 t.ends

theorem lengthsFrom_endsFrom (start : Nat) (blobs : List Blob) :
    lengthsFrom start (endsFrom start blobs) = blobs.map List.length := by
  induction blobs generalizing start with
  | nil => rfl
  | cons b bs ih =>
    rw [endsFrom, lengthsFrom, ih, Nat.add_sub_cancel_left, List.map_cons]

theorem blobBytes_eq_foldr (blobs : List Blob) :
    blobBytes blobs = (blobs.map List.length).foldr (fun length rest => length + rest) 0 := by
  induction blobs with
  | nil => rfl
  | cons b bs ih => rw [blobBytes, ih, List.map_cons, List.foldr_cons]

theorem Spans.lengths_eq (h : t.Spans blobs) : t.lengths = blobs.map List.length := by
  rw [lengths, h.ends, endsOf, lengthsFrom_endsFrom]

/-- **The size of the first items is the sum of their lengths.** -/
theorem Spans.sizeAt_eq_foldr (h : t.Spans blobs) (n : Nat) :
    t.sizeAt n = (t.lengths.take n).foldr (fun length rest => length + rest) 0 := by
  rw [sizeAt, h.startOf_eq (Nat.min_le_right ..), h.items_eq, ← List.take_eq_take_min,
    blobBytes_eq_foldr, h.lengths_eq, List.map_take]

/-- **An item that is read has its length.** -/
theorem Spans.length_retrieve (h : t.Spans blobs) (hr : t.retrieve n d = .ok (some blob) d') :
    t.lengths[n]? = some blob.length := by
  unfold retrieve at hr
  cases hstop : t.ends[n]? with
  | none =>
    rw [hstop] at hr
    cases hr
  | some stop =>
    obtain ⟨b, hb, hlen⟩ := h.stop_eq hstop
    rw [hstop] at hr
    simp only [bind_apply, Disk.readAt_eq, hlen, Nat.add_sub_cancel_left] at hr
    split at hr
    · next hfound =>
      split at hfound
      · next hcount =>
        cases hfound
        cases hr
        rw [h.lengths_eq, List.getElem?_map, hb, hcount]
        rfl
      · cases hfound
    · cases hr

end Spans

end Table

end ColdArchive
