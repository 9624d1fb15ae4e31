import ColdArchive.Proofs.Files.Failures
import ColdArchive.Proofs.Table.Words

/-!
# The arithmetic of a table in use

A table that is opened has the ends of blobs that fit its files, whatever the bytes of the files
are. A change leaves such ends, whether it is done, fails or is refused, as long as it makes no file
longer than files can be: a new end and its entry are in hand only once both were written. So a
table in use counts in words and never stops (`arithmetic_never_stops`).
-/

namespace ColdArchive

namespace Disk

variable {d d' : Disk} {id : FileId}

/-- No file is longer than the greatest length. -/
def Short (d : Disk) : Prop := ∀ c ∈ d.contents, c.length ≤ greatestLength

theorem Short.length_le (h : d.Short) (id : FileId) : (d.bytes id).length ≤ greatestLength := by
  rw [← length_content, content, List.getD_eq_getElem?_getD]
  cases hc : d.contents[id]? with
  | none => exact Nat.zero_le _
  | some c => exact h c (List.mem_of_getElem? hc)

theorem Short.add (h : d.Short) (hc : d'.contents = d.contents ++ [.empty]) : d'.Short := by
  intro c hm
  rw [hc, List.mem_append, List.mem_singleton] at hm
  rcases hm with hm | rfl
  · exact h c hm
  · exact Nat.zero_le _

/-- A file that is opened is there, or new and empty. -/
theorem Short.openFile {p : Path} (h : d.Short) (ho : Disk.openFile p d = .ok id d') : d'.Short := by
  simp only [Disk.openFile, bind_apply, get_apply] at ho
  cases hv : d.vacancy p with
  | error failure =>
    rw [hv] at ho
    cases ho
  | ok found =>
    rw [hv] at ho
    cases found with
    | inl id =>
      cases ho
      exact h
    | inr place =>
      have hc : create place d = .ok id d' := ho
      rw [create_eq] at hc
      split at hc <;> cases hc <;> exact h.add rfl

end Disk

namespace Table

/-! ### Changes of a table -/

section Changes

variable {t t' : Table} {d d' : Disk} {blobs : List Blob} {n : Nat} {blob : Blob}

/-- **An extension that is done fits its files**, since they have all of it. -/
theorem Spans.extended (h : t.Spans blobs) (hw : t.Wired d) (hr : d.faults.Reports)
    (hn : n ≤ t.items) (he : (t.keep n).extend blob d = .ok t' d') (hs : d'.Short) :
    t'.Spans (blobs.take n ++ [blob]) := by
  have hends := extend_ends hw hr.serial hn blob
  rw [he] at hends
  cases hends with
  | done hd =>
    have himage := hd.2.1
    have hdata := congrArg (fun v => v.data.length) himage
    have hindex := congrArg (fun v => v.index.length) himage
    simp only [image, TableImage.extended, List.length_append, Bytes.length_fit,
      littleEndian_length] at hdata hindex
    have hlen : (blobs.take n).length = n := List.length_take_of_le (h.items_eq ▸ hn)
    refine ⟨?_, ?_, ?_⟩
    · rw [endsOf_concat, ← take_endsOf, ← h.ends, ← h.startOf_eq hn]
      exact congrArg TableImage.ends himage
    · rw [blobBytes_append, ← h.startOf_eq hn]
      exact hdata ▸ hs.length_le t'.data
    · rw [List.length_append, hlen, List.length_singleton, Nat.mul_succ]
      exact hindex ▸ hs.length_le t'.index
  | lost dead hd => exact absurd dead (FaultPlan.Reports.not_dead (hd.1.faults ▸ hr))

/-- **A change leaves ends that fit a file**, whether it is done, fails or is refused. -/
theorem Spans.after (h : t.Spans blobs) (hw : t.Wired d) (hr : d.faults.Reports) (e : Edit)
    (hs : (after (t, d) e).2.Short) : ∃ blobs', (after (t, d) e).1.Spans blobs' := by
  cases e with
  | append n blob =>
    rw [after_append, append_eq] at hs ⊢
    by_cases hn : t.items < n
    · rw [if_pos hn]
      exact ⟨blobs, h⟩
    · rw [if_neg hn] at hs ⊢
      cases he : (t.keep n).extend blob d with
      | ok t' d' =>
        rw [he] at hs
        exact ⟨_, h.extended hw hr (Nat.le_of_not_lt hn) he hs⟩
      | error e d' => exact ⟨_, h.keep n⟩
  | truncate n =>
    rw [after_truncate, truncate_eq]
    split
    · exact ⟨blobs, h⟩
    · cases t.cutFiles n d with
      | ok _ d' => exact ⟨_, h.keep n⟩
      | error e d' => exact ⟨_, h⟩

end Changes

/-! ### Opening files of any bytes -/

section Opening

variable {t : Table} {d d' : Disk}

theorem ends_of_settle {c : Category} {data index : FileId}
    (h : settle c data index d = .ok t d') :
    ∃ blobs, told (d.bytes data) (d.bytes index) = .ok blobs ∧ t.ends = endsOf blobs := by
  unfold settle at h
  cases htold : told (d.bytes data) (d.bytes index) with
  | error item =>
    rw [htold] at h
    cases h
  | ok blobs =>
    rw [htold] at h
    obtain ⟨_, d₁, -, h⟩ := done_of_bind h
    obtain ⟨_, d₂, -, h⟩ := done_of_bind h
    cases h
    exact ⟨blobs, rfl, rfl⟩

/-- **A table is opened with ends that fit a file**, whatever the bytes of its files. -/
theorem spans_of_openAt {path : Path} {c : Category} (hs : d.Short)
    (h : openAt path c d = .ok t d') : ∃ blobs, t.Spans blobs := by
  rw [openAt_eq] at h
  obtain ⟨data, d₁, h₁, h⟩ := done_of_bind h
  obtain ⟨index, d₂, h₂, h⟩ := done_of_bind h
  obtain ⟨blobs, htold, hends⟩ := ends_of_settle h
  have hs₂ : d₂.Short := (hs.openFile h₁).openFile h₂
  have hbegins := begins_of_told htold
  have hdata := hbegins.data.length_le
  have hindex := hbegins.index.length_le
  rw [length_flatten] at hdata
  rw [length_indexOf, length_endsOf] at hindex
  exact ⟨blobs, hends, Nat.le_trans hdata (hs₂.length_le data),
    Nat.le_trans hindex (hs₂.length_le index)⟩

end Opening

/-- The tables that come about: files of any bytes are opened, and the table is changed again and
again, each time with any bytes in its two files. A change may be done, be refused or fail in any
way. No file is longer than the greatest length when it is opened, or after a change. -/
inductive Reached : Table → Prop where
  | opened {path : Path} {c : Category} {d d' : Disk} {t : Table} (short : d.Short)
      (h : openAt path c d = .ok t d') : Reached t
  | changed {t : Table} {d : Disk} (h : Reached t) (wired : t.Wired d)
      (reports : d.faults.Reports) (e : Edit) (short : (after (t, d) e).2.Short) :
      Reached (after (t, d) e).1

/-- **Every table that comes about has ends that fit a file.** -/
theorem Reached.spans {t : Table} (h : Reached t) : ∃ blobs, t.Spans blobs := by
  induction h with
  | opened short h => exact spans_of_openAt short h
  | changed _ wired reports e short ih =>
    obtain ⟨blobs, hs⟩ := ih
    exact hs.after wired reports e short

/-- **The arithmetic of a table never stops.** A table was opened from files of any bytes and changed
since, with failures or without. On any disk, for every number and every blob that fits a file, an
append, a truncation, a reading and the size of the first items do in words of 64 bits exactly what
they do without bounds. An append or a truncation behind the items there are leaves everything as it
is, and the append fails. The size of the first items is the sum of their lengths, which are those
of the blobs that are read. -/
theorem arithmetic_never_stops {t : Table} (h : Reached t) (d : Disk) (n : Nat) (blob : Blob)
    (hb : blob.length ≤ Disk.greatestLength) :
    RunsAs (appendInWords n blob) (append n blob) (t, d) ∧
      RunsAs (truncateInWords n) (truncate n) (t, d) ∧
      RunsAs (t.retrieveInWords n) (t.retrieve n) d ∧ t.sizeInWords n = .ok (t.sizeAt n) ∧
      (t.items < n →
        append n blob (t, d) = .error (.corrupted
          s!"{t.category.name} table holds {t.items} items, cannot write item {n}") (t, d) ∧
        truncate n (t, d) = .ok () (t, d)) ∧
      t.lengths.length = t.items ∧
      t.sizeAt n = (t.lengths.take n).foldr (fun length rest => length + rest) 0 ∧
      ∀ found d', t.retrieve n d = .ok (some found) d' → t.lengths[n]? = some found.length := by
  obtain ⟨blobs, hs⟩ := h.spans
  refine ⟨hs.append_runsAs n hb d, hs.truncate_runsAs n d, hs.retrieve_runsAs n d,
    t.sizeInWords_eq n, fun hn => ⟨?_, ?_⟩, ?_, hs.sizeAt_eq_foldr n,
    fun found d' hr => hs.length_retrieve hr⟩
  · rw [append_eq, if_pos hn]
  · rw [truncate_eq, if_pos hn]
  · rw [hs.lengths_eq, List.length_map, hs.items_eq]

/-- A data file of the greatest length, and an index with two entries and a part of a third. -/
def brimful : Disk :=
  { Disk.empty with
    tree := [(⟨0, "hash.dat"⟩, .file 0), (⟨0, "hash.idx"⟩, .file 1)]
    contents := [.bytes [7, 7, 7] (.hole (Disk.greatestLength - 3) .empty),
      .bytes (indexOf [3, Disk.greatestLength] ++ [5]) .empty] }

/-- The table and its disk after an item of no bytes, the only one that has room. -/
def filled (p : Table × Disk) : Table × Disk :=
  after (p.1, { p.2 with faults := .capped Disk.greatestLength }) (.append 2 [])

/-- A byte is appended behind the last byte that a file can have. -/
theorem arithmetic_never_stops_when_full :
    ∃ p, opened? brimful = some p ∧
      (filled p).1.ends = [3, Disk.greatestLength, Disk.greatestLength] ∧
      RunsAs (appendInWords 3 [1]) (append 3 [1]) (filled p) ∧
      RunsAs (truncateInWords 4) (truncate 4) (filled p) ∧
      truncate 4 (filled p) = .ok () (filled p) ∧
      (filled p).1.sizeInWords 4 = .ok Disk.greatestLength ∧
      (filled p).1.lengths = [3, Disk.greatestLength - 3, 0] := by
  have hfull : (opened? brimful).map (fun p =>
      ((p.1.data, p.1.index, p.2.contents.length), (filled p).1.ends,
        (filled p).2.contents.map Content.length)) =
      some ((0, 1, 2), [3, Disk.greatestLength, Disk.greatestLength], [Disk.greatestLength, 24]) := by
    decide +kernel
  obtain ⟨⟨t, d⟩, hopened, hfull⟩ := Option.map_eq_some_iff.mp hfull
  simp only [Prod.mk.injEq] at hfull
  obtain ⟨⟨hdata, hindex, hsize⟩, hends, hlengths⟩ := hfull
  have hshort : (filled (t, d)).2.Short := by
    intro c hc
    have hmem := hlengths ▸ List.mem_map_of_mem hc
    rcases List.mem_cons.mp hmem with h | h
    · exact Nat.le_of_eq h
    · exact List.mem_singleton.mp h ▸ by decide
  have hwired : t.Wired { d with faults := .capped Disk.greatestLength } :=
    ⟨by rw [hdata, hsize]; decide, by rw [hindex, hsize]; decide, by rw [hdata, hindex]; decide⟩
  have hreached : Reached (filled (t, d)).1 :=
    .changed (.opened (by unfold Disk.Short; decide) (openAt_of_opened? hopened)) hwired
      (FaultPlan.reports_capped _) _ hshort
  have hcounts : ∀ t' : Table, t'.ends = [3, Disk.greatestLength, Disk.greatestLength] →
      t'.items = 3 ∧ t'.sizeAt 4 = Disk.greatestLength ∧
        t'.lengths = [3, Disk.greatestLength - 3, 0] := by
    rintro ⟨c, data, index, _⟩ rfl
    exact ⟨rfl, rfl, rfl⟩
  obtain ⟨hitems, hsizeAt, hparts⟩ := hcounts _ hends
  obtain ⟨happend, -⟩ := arithmetic_never_stops hreached (filled (t, d)).2 3 [1] (by decide)
  obtain ⟨-, htruncate, -, hwords, hbehind, -⟩ :=
    arithmetic_never_stops hreached (filled (t, d)).2 4 [] (by decide)
  exact ⟨(t, d), hopened, hends, happend, htruncate, (hbehind (by rw [hitems]; decide)).2,
    hwords.trans (congrArg _ hsizeAt), hparts⟩

end Table

end ColdArchive
