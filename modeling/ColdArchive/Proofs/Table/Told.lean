import ColdArchive.Proofs.Table.Blobs

/-!
# What two files tell

Files of any bytes are taken for a table. Their whole entries either go backwards somewhere, or cut
the data into blobs as far as the data reach. `Table.told` is that answer. Files begin with what
they tell (`begins_of_told`), and while they are cut to it they tell the same (`Holds.told_eq`).
-/

namespace ColdArchive

/-! ### Bytes of words -/

theorem ofLittleEndian_lt (bs : Bytes) : ofLittleEndian bs < Nat.pow 256 bs.length := by
  induction bs with
  | nil => exact Nat.one_pos
  | cons b bs ih =>
    have hb := b.toNat_lt
    have hpow : Nat.pow 256 (bs.length + 1) = Nat.pow 256 bs.length * 256 := rfl
    rw [ofLittleEndian, List.length_cons, hpow]
    omega

theorem lowBytes_ofLittleEndian (bs : Bytes) : lowBytes bs.length (ofLittleEndian bs) = bs := by
  induction bs with
  | nil => rfl
  | cons b bs ih =>
    have hb := b.toNat_lt
    have hdiv : (b.toNat + 256 * ofLittleEndian bs) / 256 = ofLittleEndian bs := by omega
    have hlow : UInt8.ofNat (b.toNat + 256 * ofLittleEndian bs) = b := by
      apply UInt8.toNat_inj.mp
      rw [UInt8.toNat_ofNat']
      omega
    rw [ofLittleEndian, List.length_cons, lowBytes, hdiv, hlow, ih]

namespace Table

/-- An entry has room for every word. -/
theorem wordLimit_eq : Nat.pow 256 entrySize = wordLimit := by decide

/-! ### Entries of any bytes -/

theorem lt_of_mem_entries {index : Bytes} {e : Nat} (h : e ∈ entries index) : e < wordLimit := by
  fun_induction entries index with
  | case1 a b c d i j k l rest ih =>
    rcases List.mem_cons.mp h with he | h
    · rw [he]
      exact Nat.lt_of_lt_of_eq (ofLittleEndian_lt _) wordLimit_eq
    · exact ih h
  | case2 => cases h

/-- The whole entries of an index file are its first bytes. -/
theorem indexOf_entries (index : Bytes) :
    indexOf (entries index) = index.take (entrySize * (entries index).length) := by
  fun_induction entries index with
  | case1 a b c d e f g h rest ih =>
    have hword : littleEndian (ofLittleEndian [a, b, c, d, e, f, g, h]) =
        [a, b, c, d, e, f, g, h] :=
      lowBytes_ofLittleEndian [a, b, c, d, e, f, g, h]
    have hlen : entrySize * ((entries rest).length + 1)
        = entrySize * (entries rest).length + 1 + 1 + 1 + 1 + 1 + 1 + 1 + 1 := by
      rw [entrySize]
      omega
    rw [List.length_cons, hlen]
    simp only [List.take_succ_cons, ← ih]
    rw [indexOf, List.flatMap_cons, hword]
    rfl
  | case2 => simp [indexOf]

/-- Entries in front of any bytes are read one by one. -/
theorem entries_indexOf_append {ends : List Nat} (h : ∀ e ∈ ends, e < wordLimit) (rest : Bytes) :
    entries (indexOf ends ++ rest) = ends ++ entries rest := by
  induction ends with
  | nil => rfl
  | cons e ends ih =>
    have hs : indexOf (e :: ends) = littleEndian e ++ indexOf ends := rfl
    rw [hs, List.append_assoc, entries_append (littleEndian_length e),
      ofLittleEndian_littleEndian (h e (List.mem_cons_self ..)),
      ih fun e' he' => h e' (List.mem_cons_of_mem _ he'), List.cons_append]

/-- **No entry goes backwards exactly if they are in order.** -/
theorem firstDrop?_eq_none_iff {start item : Nat} {es : List Nat} :
    firstDrop? start item es = none ↔ (start :: es).Pairwise (· ≤ ·) := by
  induction es generalizing start item with
  | nil => simp [firstDrop?]
  | cons e es ih =>
    have step : firstDrop? start item (e :: es) = none ↔
        start ≤ e ∧ firstDrop? e (item + 1) es = none := by
      rw [firstDrop?]
      split
      · next h => simp; omega
      · next h => simp; omega
    rw [step, ih]
    constructor
    · rintro ⟨he, hes⟩
      refine List.pairwise_cons.mpr ⟨?_, hes⟩
      intro e' he'
      rcases List.mem_cons.mp he' with rfl | he'
      · exact he
      · exact Nat.le_trans he ((List.pairwise_cons.mp hes).1 e' he')
    · intro hes
      obtain ⟨hle, hes⟩ := List.pairwise_cons.mp hes
      exact ⟨hle e (List.mem_cons_self ..), hes⟩

theorem inOrder_iff {es : List Nat} : firstDrop? 0 0 es = none ↔ es.Pairwise (· ≤ ·) := by
  rw [firstDrop?_eq_none_iff, List.pairwise_cons]
  simp

/-- Of entries in order, those below a bound stand in front. -/
theorem length_takeWhile_le {es : List Nat} (h : es.Pairwise (· ≤ ·)) (bound : Nat) :
    (es.takeWhile fun e => decide (e ≤ bound)).length = es.countP fun e => decide (e ≤ bound) := by
  induction es with
  | nil => rfl
  | cons e es ih =>
    obtain ⟨hle, hes⟩ := List.pairwise_cons.mp h
    by_cases he : e ≤ bound
    · simp [he, ih hes]
    · have hnone : es.countP (fun e => decide (e ≤ bound)) = 0 := by
        rw [List.countP_eq_zero]
        intro e' he'
        have hle := hle e' he'
        rw [decide_eq_true_iff]
        omega
      simp [he, hnone]

/-! ### The blobs between the ends -/

/-- The stretches of the data from `start` on, each up to the next of the ends. -/
def slices (data : Bytes) (start : Nat) : List Nat → List Blob
  | [] => []
  | e :: es => (data.drop start).take (e - start) :: slices data e es

section Slices

variable {data : Bytes} {start : Nat} {es : List Nat}

@[simp] theorem length_slices (data : Bytes) (start : Nat) (es : List Nat) :
    (slices data start es).length = es.length := by
  induction es generalizing start with
  | nil => rfl
  | cons e es ih => rw [slices, List.length_cons, List.length_cons, ih]

/-- Blobs in front of a file are cut out at their ends. -/
theorem slices_endsFrom_append (start : Nat) (data : Bytes) (blobs : List Blob) (es : List Nat)
    (h : blobs.flatten <+: data.drop start) :
    slices data start (endsFrom start blobs ++ es) =
      blobs ++ slices data (start + blobBytes blobs) es := by
  induction blobs generalizing start with
  | nil => rfl
  | cons b bs ih =>
    obtain ⟨rest, hr⟩ := h
    rw [List.flatten_cons, List.append_assoc] at hr
    have hnext : bs.flatten <+: data.drop (start + b.length) := by
      rw [← List.drop_drop, ← hr, List.drop_left]
      exact List.prefix_append _ _
    rw [endsFrom, List.cons_append, slices, ih _ hnext, Nat.add_sub_cancel_left, ← hr,
      List.take_left, List.cons_append, blobBytes, Nat.add_assoc]

theorem flatten_slices_isPrefix (data : Bytes) (h : firstDrop? start 0 es = none) :
    (slices data start es).flatten <+: data.drop start := by
  rw [firstDrop?_eq_none_iff] at h
  induction es generalizing start with
  | nil => exact List.nil_prefix
  | cons e es ih =>
    obtain ⟨hle, hes⟩ := List.pairwise_cons.mp h
    have hse := hle e (List.mem_cons_self ..)
    have hdrop : data.drop e = (data.drop start).drop (e - start) := by
      rw [List.drop_drop, Nat.add_sub_cancel' hse]
    rw [slices, List.flatten_cons]
    conv => rhs; rw [← List.take_append_drop (e - start) (data.drop start), ← hdrop]
    exact (List.prefix_append_right_inj _).mpr (ih hes)

/-- The blobs that are cut out at ends in order have these ends. -/
theorem endsFrom_slices (h : firstDrop? start 0 es = none) (hb : ∀ e ∈ es, e ≤ data.length) :
    endsFrom start (slices data start es) = es := by
  rw [firstDrop?_eq_none_iff] at h
  induction es generalizing start with
  | nil => rfl
  | cons e es ih =>
    obtain ⟨hle, hes⟩ := List.pairwise_cons.mp h
    have hse := hle e (List.mem_cons_self ..)
    have hed := hb e (List.mem_cons_self ..)
    have hend : start + ((data.drop start).take (e - start)).length = e := by
      rw [List.length_take, List.length_drop]
      omega
    rw [slices, endsFrom, hend, ih hes fun e' he' => hb e' (List.mem_cons_of_mem _ he')]

end Slices

/-! ### The answer of two files -/

/-- The entries that the data bear out. -/
def borneOut (data index : Bytes) : List Nat :=
  (entries index).takeWhile fun e => decide (e ≤ data.length)

/-- What two files tell: the first item that ends before its predecessor, or the blobs of the items
that the data bear out. -/
def told (data index : Bytes) : Except Nat (List Blob) :=
  match firstDrop? 0 0 (entries index) with
  | some item => .error item
  | none => .ok (slices data 0 (borneOut data index))

section Told

variable {data index : Bytes} {blobs : List Blob} {item : Nat}

theorem le_of_mem_borneOut {e : Nat} (h : e ∈ borneOut data index) : e ≤ data.length := by
  have hall := List.all_takeWhile (p := fun e => decide (e ≤ data.length)) (l := entries index)
  exact of_decide_eq_true (List.all_eq_true.mp hall e h)

theorem borneOut_isPrefix (data index : Bytes) : borneOut data index <+: entries index :=
  List.takeWhile_prefix _

theorem inOrder_borneOut (h : firstDrop? 0 0 (entries index) = none) :
    firstDrop? 0 0 (borneOut data index) = none := by
  rw [inOrder_iff] at h ⊢
  exact h.sublist (borneOut_isPrefix data index).sublist

theorem told_eq_error_iff :
    told data index = .error item ↔ firstDrop? 0 0 (entries index) = some item := by
  unfold told
  cases firstDrop? 0 0 (entries index) <;> simp

theorem told_eq_ok_iff :
    told data index = .ok blobs ↔
      firstDrop? 0 0 (entries index) = none ∧ slices data 0 (borneOut data index) = blobs := by
  unfold told
  cases firstDrop? 0 0 (entries index) <;> simp

theorem endsOf_of_told (h : told data index = .ok blobs) : endsOf blobs = borneOut data index := by
  obtain ⟨hd, rfl⟩ := told_eq_ok_iff.mp h
  exact endsFrom_slices (inOrder_borneOut hd) fun e => le_of_mem_borneOut

theorem isPrefix_of_told (h : told data index = .ok blobs) : blobs.flatten <+: data := by
  obtain ⟨hd, rfl⟩ := told_eq_ok_iff.mp h
  exact flatten_slices_isPrefix data (inOrder_borneOut hd)

/-- What is told fits the words of an index. -/
theorem blobBytes_of_told (h : told data index = .ok blobs) : blobBytes blobs < wordLimit := by
  cases hl : blobs.length with
  | zero =>
    rw [List.length_eq_zero_iff.mp hl]
    decide
  | succ n =>
    have hlast := getElem?_endsOf (show n < blobs.length by omega)
    rw [endsOf_of_told h, ← hl, List.take_length] at hlast
    exact lt_of_mem_entries ((borneOut_isPrefix data index).subset (List.mem_of_getElem? hlast))

/-- **Files begin with the blobs that they tell.** -/
theorem begins_of_told (h : told data index = .ok blobs) :
    TableImage.Begins ⟨endsOf blobs, data, index⟩ blobs := by
  refine ⟨List.prefix_rfl, isPrefix_of_told h, ?_⟩
  obtain ⟨more, hm⟩ := borneOut_isPrefix data index
  rw [endsOf_of_told h]
  refine List.IsPrefix.trans ?_ (indexOf_entries index ▸ List.take_prefix _ _)
  rw [← hm, indexOf_append]
  exact List.prefix_append _ _

/-- **Files that begin with blobs tell them first**, if their index does not go backwards. -/
theorem isPrefix_told {blobs' : List Blob} (hb : blobBytes blobs < wordLimit)
    (hd : blobs.flatten <+: data) (hi : indexOf (endsOf blobs) <+: index)
    (h : told data index = .ok blobs') : blobs <+: blobs' := by
  obtain ⟨-, rfl⟩ := told_eq_ok_iff.mp h
  obtain ⟨rest, rfl⟩ := hi
  have hword : ∀ e ∈ endsOf blobs, e < wordLimit := fun e he =>
    Nat.lt_of_le_of_lt (le_of_mem_endsOf he) hb
  have hreach : ∀ e ∈ endsOf blobs, decide (e ≤ data.length) = true := by
    intro e he
    have hle := le_of_mem_endsOf he
    have hlen := hd.length_le
    rw [length_flatten] at hlen
    exact decide_eq_true (Nat.le_trans hle hlen)
  rw [borneOut, entries_indexOf_append hword, List.takeWhile_append_of_pos hreach, endsOf,
    slices_endsFrom_append 0 data blobs _ hd]
  exact List.prefix_append _ _

end Told

end Table

namespace TableImage

variable {v : TableImage} {blobs : List Blob}

theorem takeWhile_of_all {α : Type} {p : α → Bool} {as : List α} (h : ∀ a ∈ as, p a = true) :
    as.takeWhile p = as := by
  induction as with
  | nil => rfl
  | cons a as ih =>
    rw [List.takeWhile_cons_of_pos (h a (List.mem_cons_self ..)),
      ih fun b hb => h b (List.mem_cons_of_mem _ hb)]

theorem Holds.entries_eq (h : v.Holds blobs) (hb : blobBytes blobs < wordLimit) :
    Table.entries v.index = Table.endsOf blobs := by
  obtain ⟨torn, ht⟩ := h.index
  have hs := h.short
  rw [← ht, List.length_append, Table.length_indexOf, Table.length_endsOf, Table.entrySize] at hs
  rw [← ht]
  refine Table.entries_indexOf ?_ (by rw [Table.entrySize]; omega)
  intro e he
  have hle := Table.le_of_mem_endsOf he
  omega

/-- **Files that hold blobs tell them**, whatever else was left of a change. -/
theorem Holds.told_eq (h : v.Holds blobs) (hb : blobBytes blobs < wordLimit) :
    Table.told v.data v.index = .ok blobs := by
  have he := h.entries_eq hb
  have hreach : Table.borneOut v.data v.index = Table.endsOf blobs := by
    rw [Table.borneOut, he]
    refine takeWhile_of_all fun e hm => decide_eq_true ?_
    have hle := Table.le_of_mem_endsOf hm
    have hlen := h.data.length_le
    rw [Table.length_flatten] at hlen
    omega
  refine Table.told_eq_ok_iff.mpr ⟨?_, ?_⟩
  · rw [he]
    exact Table.firstDrop?_endsFrom 0 0 blobs
  · have hs := Table.slices_endsFrom_append 0 v.data blobs [] h.data
    rw [List.append_nil] at hs
    rw [hreach, Table.endsOf, hs]
    exact List.append_nil _

end TableImage

namespace Table

section Cut

variable {data index : Bytes} {blobs : List Blob}

theorem endsOf_of_told_eq_take (h : told data index = .ok blobs) :
    endsOf blobs = (entries index).take blobs.length := by
  rw [← length_endsOf blobs, endsOf_of_told h]
  exact List.prefix_iff_eq_take.mp (borneOut_isPrefix data index)

/-- An item is told for each entry that the data bear out. -/
theorem length_of_told (h : told data index = .ok blobs) :
    blobs.length = (entries index).countP fun e => decide (e ≤ data.length) := by
  rw [← length_endsOf blobs, endsOf_of_told h, borneOut, length_takeWhile_le]
  exact inOrder_iff.mp (told_eq_ok_iff.mp h).1

/-- Where the told items start, by the entries. -/
theorem startOf_entries_of_told (h : told data index = .ok blobs) {n : Nat}
    (hn : n ≤ blobs.length) : startOf (entries index) n = blobBytes (blobs.take n) := by
  rw [← startOf_endsOf hn, endsOf_of_told_eq_take h, ← startOf_take ((entries index).take _),
    List.take_take, Nat.min_eq_left hn, startOf_take]

/-- **The told items are the stretches of the data between the entries.** -/
theorem getElem?_of_told (h : told data index = .ok blobs) {n : Nat} (hn : n < blobs.length) :
    ∃ stop, (entries index)[n]? = some stop ∧ startOf (entries index) n ≤ stop ∧
      stop ≤ data.length ∧ blobs[n]? = some
        ((data.drop (startOf (entries index) n)).take (stop - startOf (entries index) n)) := by
  obtain ⟨b, hb⟩ : ∃ b, blobs[n]? = some b := ⟨_, List.getElem?_eq_getElem hn⟩
  have hd := isPrefix_of_told h
  have hstop := getElem?_endsOf hn
  have hlen := hd.length_le
  have hle := blobBytes_take_le (n + 1) blobs
  rw [endsOf_of_told_eq_take h, List.getElem?_take_of_lt hn] at hstop
  rw [length_flatten] at hlen
  rw [blobBytes_take_succ hb] at hstop hle
  refine ⟨_, hstop, ?_, by omega, ?_⟩
  · rw [startOf_entries_of_told h (Nat.le_of_lt hn)]
    omega
  · rw [startOf_entries_of_told h (Nat.le_of_lt hn), Nat.add_sub_cancel_left,
      drop_take_data hd hb, hb]

/-- **The files of the first items are the first bytes.** -/
theorem take_of_told (h : told data index = .ok blobs) {n : Nat} (hn : n ≤ blobs.length) :
    TableImage.ofBlobs (blobs.take n) = ⟨(entries index).take n,
      data.take (startOf (entries index) n), index.take (entrySize * n)⟩ := by
  have hb := (begins_of_told h).take n
  have hlen : (blobs.take n).length = n := List.length_take_of_le hn
  have hi := hb.index.length_le
  have hd := hb.data.length_le
  rw [length_indexOf, length_endsOf, hlen] at hi
  rw [length_flatten] at hd
  have fi := hb.fit_index
  have fd := hb.fit_data
  rw [hlen, Bytes.fit_of_le hi] at fi
  rw [hb.startOf_eq, Bytes.fit_of_le hd] at fd
  rw [startOf_entries_of_told h hn]
  refine TableImage.mk.injEq .. ▸ ⟨?_, fd.symm, fi.symm⟩
  rw [← take_endsOf, endsOf_of_told_eq_take h, List.take_take, Nat.min_eq_left hn]

/-- **Files that are cut to what they tell are those of the table of it.** -/
theorem cut_of_told (h : told data index = .ok blobs) :
    ⟨endsOf blobs, data.take (blobBytes blobs), index.take (entrySize * blobs.length)⟩ =
      TableImage.ofBlobs blobs := by
  have hv := take_of_told h (Nat.le_refl _)
  rw [startOf_entries_of_told h (Nat.le_refl _), List.take_length,
    ← endsOf_of_told_eq_take h] at hv
  exact hv.symm

/-- Files whose index was cut to what they tell still tell it. -/
theorem told_cut_index (h : told data index = .ok blobs) :
    told data (index.take (entrySize * blobs.length)) = .ok blobs := by
  have hb := TableImage.ofBlobs_holds blobs
  rw [← cut_of_told h] at hb
  exact TableImage.Holds.told_eq (v := ⟨[], data, _⟩) ⟨isPrefix_of_told h, hb.index, hb.short⟩
    (blobBytes_of_told h)

/-- Files that were cut to what they tell still tell it. -/
theorem told_cut (h : told data index = .ok blobs) :
    told (data.take (blobBytes blobs)) (index.take (entrySize * blobs.length)) = .ok blobs := by
  have hb := (TableImage.ofBlobs_holds blobs).told_eq (blobBytes_of_told h)
  rwa [← cut_of_told h] at hb

end Cut

end Table

end ColdArchive
