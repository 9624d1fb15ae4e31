import ColdArchive.Proofs.Files.Refinement
import ColdArchive.Proofs.Files.Crash

/-!
# Archives of records

An archive that has a list of records may refuse a call, and has the same records then; a call that
it grants is answered by them and changes them as the call says (`Answered`). This is what an
archive in memory and one in files have in common, whatever writes the device of the files refuses.
-/

namespace ColdArchive

/-- How an archive that has the records may answer a call, and the records that it has then. -/
inductive Answered (records : List Record) : Call → Outcome → List Record → Prop where
  | refused (call : Call) (e : StoreError) : Answered records call (.error e) records
  | has (c : Category) (n : Nat) :
      Answered records (.has c n) (.ok (.truth (decide (n < records.length)))) records
  | read (c : Category) {n : Nat} {record : Record} (h : records[n]? = some record) :
      Answered records (.read c n) (.ok (.blob (record.get c))) records
  | count : Answered records .count (.ok (.number records.length)) records
  | size (c : Category) :
      Answered records (.size c) (.ok (.number (blobBytes ((columns records).get c)))) records
  | append (record : Record) :
      Answered records (.append records.length record) (.ok .done) (records ++ [record])
  | truncate {target : Nat} (h : target ≤ records.length) :
      Answered records (.truncate target) (.ok .done) (records.take target)
  | sync : Answered records .sync (.ok .done) records

theorem getElem?_columns (records : List Record) (c : Category) (n : Nat) :
    ((columns records).get c)[n]? = (records[n]?).map fun record => record.get c := by
  rw [columns, ByCategory.get_ofFn, List.getElem?_map]

theorem map_take_columns (records : List Record) (n : Nat) :
    (columns records).map (List.take n) = columns (records.take n) :=
  ByCategory.ext fun c => by rw [columns_take, ByCategory.get_map]

/-! ### In memory -/

/-- An archive in memory that is open and has the records. -/
structure Memory.Has (m : Memory) (records : List Record) : Prop where
  tables : m.tables = columns records
  frozen : m.frozen = records.length
  unclosed : m.closed = false

namespace Memory.Has

variable {m : Memory} {records : List Record}

theorem empty : Memory.empty.Has [] := by
  refine ⟨ByCategory.ext fun c => ?_, rfl, rfl⟩
  rw [get_tables_empty, columns, ByCategory.get_ofFn]
  rfl

theorem length (h : m.Has records) (c : Category) : (m.tables.get c).length = m.frozen := by
  rw [h.tables, h.frozen, length_columns]

/-- **An archive in memory answers by its records.** -/
theorem perform (h : m.Has records) {now : Instant} {ctx : Context} (hl : ctx.IsLive now)
    {call : Call} (hc : call ≠ .close) :
    ∃ records', Answered records call (m.perform now ctx call).1 records' ∧
      (m.perform now ctx call).2.Has records' := by
  rw [perform_of_live hl h.unclosed hc]
  cases call with
  | has c n =>
    refine ⟨records, ?_, h⟩
    rw [answer, h.frozen]
    exact .has c n
  | read c n =>
    refine ⟨records, ?_, h⟩
    rw [answer, read_eq h.length, h.tables, getElem?_columns]
    cases hr : records[n]? with
    | none => exact .refused _ _
    | some record => exact .read c hr
  | count =>
    refine ⟨records, ?_, h⟩
    rw [answer, h.frozen]
    exact .count
  | size c =>
    refine ⟨records, ?_, h⟩
    rw [answer, size_eq h.length, h.tables]
    exact .size c
  | append n record =>
    by_cases hn : n = m.frozen
    · refine ⟨records ++ [record], ?_, ?_⟩
      · rw [answer, if_pos hn, hn, h.frozen]
        exact .append record
      · rw [answer, if_pos hn]
        refine ⟨ByCategory.ext fun c => ?_, ?_, h.unclosed⟩
        · rw [columns_concat, tables_push, ByCategory.get_ofFn, ← h.length c, List.take_length,
            h.tables]
        · rw [push, h.frozen, List.length_append]
          rfl
    · rw [answer, if_neg hn]
      exact ⟨records, .refused _ _, h⟩
  | truncate target =>
    by_cases ht : target ≤ m.frozen
    · rw [answer, if_pos ht]
      rw [h.frozen] at ht
      refine ⟨records.take target, .truncate ht, ?_, ?_, h.unclosed⟩
      · rw [tables_cut, h.tables, map_take_columns]
      · rw [cut, List.length_take, Nat.min_eq_left ht]
    · rw [answer, if_neg ht]
      exact ⟨records, .refused _ _, h⟩
  | sync => exact ⟨records, .sync, h⟩
  | close => exact absurd rfl hc

end Memory.Has

/-! ### In files -/

/-- No data file of the records is longer than a file can be. -/
def Sized (records : List Record) : Prop :=
  ∀ c, blobBytes ((columns records).get c) ≤ Disk.greatestLength

theorem Sized.take {records : List Record} (h : Sized records) (n : Nat) :
    Sized (records.take n) := by
  intro c
  rw [columns_take]
  exact Nat.le_trans (Table.blobBytes_take_le _ _) (h c)

/-- A device that lets no file grow past the greatest length took the changes for a record. -/
theorem Sized.of_accepted {p : FaultPlan} (hb : p.Bounded) {records : List Record}
    (h : Sized records) {record : Record}
    (ha : ∀ c, ∀ change ∈ (TableImage.ofBlobs ((columns records).get c)).extendChanges
      ((columns records).get c).length (record.get c), p.Accepts change) :
    Sized (records ++ [record]) := by
  intro c
  have hlast : blobBytes [record.get c] = (record.get c).length := rfl
  rw [columns_concat, Table.blobBytes_append, hlast]
  by_cases he : record.get c = []
  · rw [he]
    exact h c
  · obtain ⟨i, hi⟩ := ha c _ ((TableImage.write_mem_extendChanges _ (record.get c)).1 he)
    exact hb i _ _ hi

/-- **Open tables answer by their records** on an obliging device. -/
theorem FileM.perform_answered {s : FileState} (hw : s.Wired) (hr : s.disk.faults.Reports)
    (hp : s.disk.faults.Obliging) {records : List Record} (he : s.Exact (columns records))
    {call : Call} (hc : call ≠ .close) :
    ∃ outcome s' records', FileM.perform call s = FileArchive.result outcome s' ∧ s.Follows s' ∧
      s'.Exact (columns records') ∧ Answered records call outcome records' ∧
      (s.disk.faults.Bounded → Sized records → Sized records') := by
  have hz : s.frozen = records.length := (he.length .hash).symm.trans (length_columns records .hash)
  have still : ∀ outcome, FileM.perform call s = FileArchive.result outcome s →
      Answered records call outcome records →
      ∃ outcome s' records', FileM.perform call s = FileArchive.result outcome s' ∧ s.Follows s' ∧
        s'.Exact (columns records') ∧ Answered records call outcome records' ∧
        (s.disk.faults.Bounded → Sized records → Sized records') := fun _ ho ha =>
    ⟨_, s, records, ho, .refl s, he, ha, fun _ h => h⟩
  cases call with
  | has c n =>
    refine still (.ok (.truth (decide (n < records.length)))) ?_ (.has c n)
    rw [← hz]
    rfl
  | read c n =>
    cases hn : records[n]? with
    | none =>
      refine still (.error (.notFound c n s.frozen)) ?_ (.refused _ _)
      simp only [FileM.perform, bind_apply, FileM.read_trailing he.trails, getElem?_columns, hn,
        Option.map_none, FileArchive.result]
    | some record =>
      refine still (.ok (.blob (record.get c))) ?_ (.read c hn)
      simp only [FileM.perform, bind_apply, FileM.read_trailing he.trails, getElem?_columns, hn,
        Option.map_some, pure_apply, FileArchive.result]
  | count =>
    refine still (.ok (.number records.length)) ?_ .count
    rw [← hz]
    rfl
  | size c =>
    refine still (.ok (.number (blobBytes ((columns records).get c)))) ?_ (.size c)
    rw [← FileM.sizeAt_trailing he.trails]
    rfl
  | append n record =>
    by_cases hn : n = s.frozen
    · subst hn
      obtain ⟨s', hf, ⟨ha, he', hc⟩ | ⟨ha, he', -⟩⟩ := FileM.append_obliging hw hr hp he record
      · refine ⟨.ok .done, s', records ++ [record], ?_, hf, push_columns records record ▸ he', ?_,
          fun hb hs => hs.of_accepted hb hc⟩
        · simp only [FileM.perform, bind_apply, ha, pure_apply, FileArchive.result]
        · rw [hz]
          exact .append record
      · refine ⟨.error (.io .tooLarge), s', records, ?_, hf, he', .refused _ _, fun _ h => h⟩
        simp only [FileM.perform, bind_apply, ha, FileArchive.result]
    · refine still (.error (.outOfOrderAppend s.frozen n)) ?_ (.refused _ _)
      simp only [FileM.perform, bind_apply, FileM.append_of_ne hn, FileArchive.result]
  | truncate target =>
    by_cases ht : target ≤ s.frozen
    · obtain ⟨s', ha, hf, he'⟩ := FileM.truncate_trailing hw hr hp he.trails ht
      rw [map_take_columns] at he'
      refine ⟨.ok .done, s', records.take target, ?_, hf, he', .truncate (hz ▸ ht),
        fun _ h => h.take target⟩
      simp only [FileM.perform, bind_apply, ha, pure_apply, FileArchive.result]
    · refine still (.error (.invalidTruncateTarget target s.frozen)) ?_ (.refused _ _)
      simp only [FileM.perform, bind_apply, FileM.truncate_of_lt (Nat.lt_of_not_le ht),
        FileArchive.result]
  | sync => exact still (.ok .done) rfl .sync
  | close => exact absurd rfl hc

namespace FileArchive

/-- An archive in files that is open and has the records, on a device that cuts without fail. -/
structure Has (id : DirectoryId) (a : FileArchive) (d : Disk) (records : List Record) : Prop where
  opened : ∃ o, a.Stands id o d ∧ (a.state o d).Exact (columns records)
  reports : d.faults.Reports
  obliging : d.faults.Obliging

variable {id : DirectoryId} {a : FileArchive} {o : OpenTables} {d : Disk} {records : List Record}

/-- Work that ended well or not, and left the files of records. -/
theorem Has.of_work {α : Type} (hs : a.Stands id o d) (hr : d.faults.Reports)
    (hp : d.faults.Obliging) {work : FileM α} {outcome : Except StoreError α} {s : FileState}
    (hwork : work (a.state o d) = result outcome s) (hf : (a.state o d).Follows s)
    (he : s.Exact (columns records)) :
    a.work d work = (outcome, a.after o s, s.disk) ∧ Has id (a.after o s) s.disk records ∧
      Shelf.Tended a.directory id d s.disk := by
  have hfaults : s.disk.faults = d.faults := hf.disk.faults
  refine ⟨?_, ⟨⟨_, hs.of_follows hf, he.image, he.length⟩, hfaults ▸ hr, hfaults ▸ hp⟩,
    hs.shelf.tended_of_touches hs.located hf.disk⟩
  rw [work_eq hs.opened, hwork]
  cases outcome <;> rfl

/-- **An archive in files answers by its records.** -/
theorem Has.perform (h : Has id a d records) {now : Instant} {ctx : Context} (hl : ctx.IsLive now)
    {call : Call} (hc : call ≠ .close) :
    ∃ records', Answered records call (a.perform d now ctx call).1 records' ∧
      Has id (a.perform d now ctx call).2.1 (a.perform d now ctx call).2.2 records' ∧
      Shelf.Tended a.directory id d (a.perform d now ctx call).2.2 ∧
      (d.faults.Bounded → Sized records → Sized records') := by
  obtain ⟨o, hs, he⟩ := h.opened
  obtain ⟨outcome, s, records', hwork, hf, he', ha, hsize⟩ :=
    FileM.perform_answered hs.wired h.reports h.obliging he hc
  obtain ⟨hw, hh, ht⟩ := Has.of_work hs h.reports h.obliging hwork hf he'
  rw [perform_of_live hl hc, hw]
  exact ⟨records', ha, hh, ht, hsize⟩

/-- **A repair leaves the records as they are.** -/
theorem Has.repair (h : Has id a d records) :
    Has id (a.repair d).2.1 (a.repair d).2.2 records ∧
      Shelf.Tended a.directory id d (a.repair d).2.2 := by
  obtain ⟨o, hs, he⟩ := h.opened
  obtain ⟨s, hrepair, hf, he'⟩ :=
    FileM.repair_ofBlobs hs.wired h.reports h.obliging he.image
  rw [ByCategory.aligned_of_length (length_columns records)] at he'
  have hresult : FileM.repair (a.state o d) = result (.ok _) s := hrepair
  obtain ⟨hw, hh, ht⟩ := Has.of_work hs h.reports h.obliging hresult hf he'
  rw [FileArchive.repair, hw]
  exact ⟨hh, ht⟩

/-- An empty directory is opened as an archive of no records. -/
theorem Vacant.opens_empty {directory : String} (h : Vacant directory id d) (hr : d.faults.Reports)
    (hp : d.faults.Obliging) :
    ∃ a d', openAt directory d = .ok a d' ∧ Has id a d' [] ∧
      Shelf.Tended directory id d d' := by
  obtain ⟨a, o, d', ho, -, hs, he, ht⟩ := openAt_of_keeps h.free hr hp h.keeps
  have hnone : (ByCategory.replicate [] : ByCategory (List Blob)) = columns [] :=
    ByCategory.ext fun c => by
      rw [columns, ByCategory.get_ofFn]
      exact ByCategory.get_replicate [] c
  rw [hnone, ByCategory.aligned_of_length (length_columns [])] at he
  exact ⟨a, d', ho, ⟨⟨o, hs, he⟩, ht.faults ▸ hr, ht.faults ▸ hp⟩, ht⟩

end FileArchive

end ColdArchive
