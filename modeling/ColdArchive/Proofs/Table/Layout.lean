import ColdArchive.Memory
import ColdArchive.Table
import ColdArchive.Proofs.Disk.Changes

/-!
# The files of a list of blobs

A table of blobs has the blobs one behind the other in its data file and their ends, eight bytes
each, in its index file. `TableImage.ofBlobs` is that pair of files with the ends a table keeps in
hand; reading an index back gives the ends, whatever part of an entry stands behind them.
-/

namespace ColdArchive

namespace Table

/-- The ends of blobs that stand one behind the other from `start` on. -/
def endsFrom (start : Nat) : List Blob → List Nat
  | [] => []
  | b :: bs => (start + b.length) :: endsFrom (start + b.length) bs

/-- The ends of the blobs of a table. -/
def endsOf (blobs : List Blob) : List Nat := endsFrom 0 blobs

/-- The index file of a list of ends. -/
def indexOf (ends : List Nat) : Bytes := ends.flatMap littleEndian

/-! ### Ends -/

theorem length_endsFrom (start : Nat) (blobs : List Blob) :
    (endsFrom start blobs).length = blobs.length := by
  induction blobs generalizing start with
  | nil => rfl
  | cons b bs ih => rw [endsFrom, List.length_cons, List.length_cons, ih]

@[simp] theorem length_endsOf (blobs : List Blob) : (endsOf blobs).length = blobs.length :=
  length_endsFrom 0 blobs

theorem endsFrom_append (start : Nat) (bs cs : List Blob) :
    endsFrom start (bs ++ cs) = endsFrom start bs ++ endsFrom (start + blobBytes bs) cs := by
  induction bs generalizing start with
  | nil => rfl
  | cons b bs ih => rw [List.cons_append, endsFrom, endsFrom, ih, blobBytes, Nat.add_assoc]; rfl

theorem endsOf_concat (bs : List Blob) (b : Blob) :
    endsOf (bs ++ [b]) = endsOf bs ++ [blobBytes bs + b.length] := by
  rw [endsOf, endsFrom_append, Nat.zero_add]
  rfl

theorem take_endsFrom (start n : Nat) (blobs : List Blob) :
    (endsFrom start blobs).take n = endsFrom start (blobs.take n) := by
  induction blobs generalizing start n with
  | nil => simp [endsFrom]
  | cons b bs ih =>
    cases n with
    | zero => rfl
    | succ n => rw [endsFrom, List.take_succ_cons, List.take_succ_cons, endsFrom, ih]

@[simp] theorem take_endsOf (n : Nat) (blobs : List Blob) :
    (endsOf blobs).take n = endsOf (blobs.take n) := take_endsFrom 0 n blobs

theorem blobBytes_append (bs cs : List Blob) :
    blobBytes (bs ++ cs) = blobBytes bs + blobBytes cs := by
  induction bs with
  | nil => simp [blobBytes]
  | cons b bs ih => rw [List.cons_append, blobBytes, blobBytes, ih, Nat.add_assoc]

theorem length_flatten (blobs : List Blob) : blobs.flatten.length = blobBytes blobs := by
  induction blobs with
  | nil => rfl
  | cons b bs ih => rw [List.flatten_cons, List.length_append, ih, blobBytes]

theorem blobBytes_take_le (n : Nat) (blobs : List Blob) :
    blobBytes (blobs.take n) ≤ blobBytes blobs := by
  have h := blobBytes_append (blobs.take n) (blobs.drop n)
  rw [List.take_append_drop] at h
  omega

/-- Blobs that fit a file have ends that fit an entry. -/
theorem blobBytes_lt_wordLimit {blobs : List Blob} (h : blobBytes blobs ≤ Disk.greatestLength) :
    blobBytes blobs < wordLimit :=
  Nat.lt_of_le_of_lt h (by decide)

theorem take_flatten (n : Nat) (blobs : List Blob) :
    blobs.flatten.take (blobBytes (blobs.take n)) = (blobs.take n).flatten := by
  conv => lhs; rw [← List.take_append_drop n blobs]
  rw [List.flatten_append, ← length_flatten, List.take_append_of_le_length (by simp),
    List.take_of_length_le]
  simp

theorem getElem?_endsFrom (start n : Nat) (blobs : List Blob) :
    (endsFrom start blobs)[n]? =
      if n < blobs.length then some (start + blobBytes (blobs.take (n + 1))) else none := by
  induction blobs generalizing start n with
  | nil => simp [endsFrom]
  | cons b bs ih =>
    cases n with
    | zero => simp [endsFrom, blobBytes]
    | succ n =>
      rw [endsFrom, List.getElem?_cons_succ, ih, List.length_cons, List.take_succ_cons, blobBytes]
      simp only [Nat.add_lt_add_iff_right, Nat.add_assoc]

theorem getElem?_endsOf {n : Nat} {blobs : List Blob} (h : n < blobs.length) :
    (endsOf blobs)[n]? = some (blobBytes (blobs.take (n + 1))) := by
  rw [endsOf, getElem?_endsFrom, if_pos h, Nat.zero_add]

/-- An item starts where those before it end. -/
theorem startOf_endsOf {n : Nat} {blobs : List Blob} (h : n ≤ blobs.length) :
    startOf (endsOf blobs) n = blobBytes (blobs.take n) := by
  cases n with
  | zero => simp [startOf, blobBytes]
  | succ n => rw [startOf, List.getD_eq_getElem?_getD, getElem?_endsOf h, Option.getD_some]

theorem startOf_endsOf_length (blobs : List Blob) :
    startOf (endsOf blobs) blobs.length = blobBytes blobs := by
  rw [startOf_endsOf (Nat.le_refl _), List.take_length]

theorem mem_endsFrom {start e : Nat} {blobs : List Blob} (h : e ∈ endsFrom start blobs) :
    start ≤ e ∧ e ≤ start + blobBytes blobs := by
  induction blobs generalizing start with
  | nil => cases h
  | cons b bs ih =>
    rw [endsFrom, List.mem_cons] at h
    rw [blobBytes]
    rcases h with rfl | h
    · omega
    · have := ih h
      omega

theorem le_of_mem_endsOf {e : Nat} {blobs : List Blob} (h : e ∈ endsOf blobs) :
    e ≤ blobBytes blobs := by
  have := (mem_endsFrom h).2
  omega

/-! ### The blob of an item -/

theorem drop_take_flatten {n : Nat} {b : Blob} {blobs : List Blob} (h : blobs[n]? = some b) :
    (blobs.flatten.drop (blobBytes (blobs.take n))).take b.length = b := by
  obtain ⟨hn, hb⟩ := List.getElem?_eq_some_iff.mp h
  have hsplit : blobs.flatten = (blobs.take n).flatten ++ (b ++ (blobs.drop (n + 1)).flatten) := by
    rw [← List.flatten_cons, ← hb, ← List.drop_eq_getElem_cons hn, ← List.flatten_append,
      List.take_append_drop]
  rw [hsplit, ← length_flatten, List.drop_left, List.take_left]

theorem blobBytes_take_succ {n : Nat} {b : Blob} {blobs : List Blob} (h : blobs[n]? = some b) :
    blobBytes (blobs.take (n + 1)) = blobBytes (blobs.take n) + b.length := by
  rw [List.take_add_one, h, Option.toList_some, blobBytes_append]
  rfl

/-- An item stops where its blob does. -/
theorem stop_of_endsOf {n stop : Nat} {blobs : List Blob} (h : (endsOf blobs)[n]? = some stop) :
    ∃ b, blobs[n]? = some b ∧ stop = startOf (endsOf blobs) n + b.length := by
  obtain ⟨hn, -⟩ := List.getElem?_eq_some_iff.mp h
  rw [length_endsOf] at hn
  have hb := List.getElem?_eq_getElem hn
  rw [getElem?_endsOf hn, Option.some.injEq, blobBytes_take_succ hb] at h
  exact ⟨_, hb, by rw [startOf_endsOf (Nat.le_of_lt hn), h]⟩

/-! ### Entries of an index -/

theorem length_indexOf (ends : List Nat) : (indexOf ends).length = entrySize * ends.length := by
  induction ends with
  | nil => rfl
  | cons e ends ih =>
    rw [indexOf, List.flatMap_cons, List.length_append, littleEndian_length]
    rw [indexOf] at ih
    rw [ih, List.length_cons, entrySize]
    omega

theorem indexOf_append (es fs : List Nat) : indexOf (es ++ fs) = indexOf es ++ indexOf fs :=
  List.flatMap_append

theorem indexOf_concat (es : List Nat) (e : Nat) :
    indexOf (es ++ [e]) = indexOf es ++ littleEndian e := by
  simp [indexOf]

theorem entries_append {entry : Bytes} (h : entry.length = entrySize) (rest : Bytes) :
    entries (entry ++ rest) = ofLittleEndian entry :: entries rest := by
  match entry, h with
  | [_, _, _, _, _, _, _, _], _ => rfl

theorem entries_of_short {bs : Bytes} (h : bs.length < entrySize) : entries bs = [] := by
  unfold entries
  split
  · simp [entrySize] at h
    omega
  · rfl

/-- **An index file is read back as it was written**, whatever part of an entry stands behind it. -/
theorem entries_indexOf {ends : List Nat} {torn : Bytes} (h : ∀ e ∈ ends, e < wordLimit)
    (ht : torn.length < entrySize) : entries (indexOf ends ++ torn) = ends := by
  induction ends with
  | nil => exact entries_of_short ht
  | cons e ends ih =>
    have he : e < wordLimit := h e (List.mem_cons_self ..)
    have hs : indexOf (e :: ends) = littleEndian e ++ indexOf ends := rfl
    rw [hs, List.append_assoc, entries_append (littleEndian_length e),
      ofLittleEndian_littleEndian he, ih fun e' he' => h e' (List.mem_cons_of_mem _ he')]

/-- The ends of blobs never go back. -/
theorem firstDrop?_endsFrom (start item : Nat) (blobs : List Blob) :
    firstDrop? start item (endsFrom start blobs) = none := by
  induction blobs generalizing start item with
  | nil => rfl
  | cons b bs ih =>
    rw [endsFrom, firstDrop?, if_neg (by omega)]
    exact ih _ _

end Table

/-! ### Images of tables -/

/-- The ends that a table has in hand, and its two files. -/
structure TableImage where
  ends : List Nat
  data : Bytes
  index : Bytes
  deriving DecidableEq, Repr

/-- The image of an open table. -/
def Table.image (t : Table) (d : Disk) : TableImage := ⟨t.ends, d.bytes t.data, d.bytes t.index⟩

/-- The image of a table that holds the blobs and nothing else. -/
def TableImage.ofBlobs (blobs : List Blob) : TableImage :=
  ⟨Table.endsOf blobs, blobs.flatten, Table.indexOf (Table.endsOf blobs)⟩

end ColdArchive
