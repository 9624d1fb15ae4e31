import ColdArchive.Proofs.Files.Exact

/-!
# Power cuts

The power may go at any change of an append or a truncation, within a write as well as between two
changes. Whatever is left in each of the ten files, every table is found again with its old blobs or
with those the call was to leave, and since a record needs all five of them, the archive is opened
with the old records or with those the call was to leave.
-/

namespace ColdArchive

/-- The blobs of a list of records, by category. -/
def columns (records : List Record) : ByCategory (List Blob) :=
  ByCategory.ofFn fun c => records.map fun r => r.get c

section Columns

variable (records : List Record) (c : Category)

theorem length_columns : ((columns records).get c).length = records.length := by
  rw [columns, ByCategory.get_ofFn, List.length_map]

theorem columns_take (n : Nat) :
    (columns (records.take n)).get c = ((columns records).get c).take n := by
  rw [columns, columns, ByCategory.get_ofFn, ByCategory.get_ofFn, List.map_take]

theorem columns_concat (record : Record) :
    (columns (records ++ [record])).get c = (columns records).get c ++ [record.get c] := by
  rw [columns, columns, ByCategory.get_ofFn, ByCategory.get_ofFn, List.map_append]
  rfl

theorem push_columns (record : Record) :
    (columns records).push record = columns (records ++ [record]) :=
  ByCategory.ext fun c => by rw [columns_concat, ByCategory.push, ByCategory.get_ofFn]

theorem columns_prefix {records records' : List Record} (h : records <+: records') :
    (columns records).get c <+: (columns records').get c := by
  obtain ⟨rest, rfl⟩ := h
  rw [columns, columns, ByCategory.get_ofFn, ByCategory.get_ofFn, List.map_append]
  exact List.prefix_append _ _

end Columns

namespace FileArchive

/-- The archive is open with the records, and its files end exactly at the last of them. No data
file is longer than a file can be. -/
structure Settled (a : FileArchive) (d : Disk) (records : List Record) : Prop where
  stands : ∃ id o, a.Stands id o d ∧ (a.state o d).Exact (columns records)
  sized : ∀ c, blobBytes ((columns records).get c) ≤ Disk.greatestLength

theorem Settled.frozen {a : FileArchive} {d : Disk} {records : List Record}
    (h : a.Settled d records) : a.frozen = records.length := by
  obtain ⟨id, o, -, he⟩ := h.stands
  exact (he.length .hash).symm.trans (length_columns records .hash)

/-- The archive answers with exactly these records, in any context that lets it answer. -/
structure Shows (a : FileArchive) (d : Disk) (records : List Record) : Prop where
  count : ∀ now ctx, ctx.IsLive now →
    (a.perform d now ctx .count).1 = .ok (.number records.length)
  read : ∀ now ctx, ctx.IsLive now → ∀ c n, (a.perform d now ctx (.read c n)).1 =
    match records[n]? with
    | some record => .ok (.blob (record.get c))
    | none => .error (.notFound c n records.length)

/-- The directory is opened with exactly these records. -/
def Reopens (directory : String) (d : Disk) (records : List Record) : Prop :=
  ∃ a d', openAt directory d = .ok a d' ∧ a.Settled d' records ∧ a.Shows d' records

theorem Settled.shows {a : FileArchive} {d : Disk} {records : List Record}
    (h : a.Settled d records) : a.Shows d records := by
  obtain ⟨id, o, hs, hi, -⟩ := h.stands
  constructor
  · intro now ctx hl
    rw [perform_count hs.opened d hl, h.frozen]
  · intro now ctx hl c n
    rw [perform_of_live hl (by simp), work_eq hs.opened]
    simp only [FileM.perform, bind_apply]
    cases hr : records[n]? with
    | none =>
      have hn : (a.state o d).frozen ≤ n := by
        rw [state, h.frozen]
        exact List.getElem?_eq_none_iff.mp hr
      rw [FileM.read_of_le hn]
      simp only [state, h.frozen]
    | some record =>
      have hn : n < (a.state o d).frozen := by
        rw [state, h.frozen]
        exact (List.getElem?_eq_some_iff.mp hr).1
      have hb : ((columns records).get c)[n]? = some (record.get c) := by
        rw [columns, ByCategory.get_ofFn, List.getElem?_map, hr]
        rfl
      rw [FileM.read_blob (c := c) (by rw [hi c]; rfl) (by rw [hi c]; exact List.prefix_rfl) hn hb]
      rfl

/-- An empty directory is opened without records. -/
theorem Vacant.settled {directory : String} {id : DirectoryId} {d : Disk}
    (h : Vacant directory id d) (hr : d.faults.Reports) (hp : d.faults.Obliging) :
    ∃ a d', openAt directory d = .ok a d' ∧ a.Settled d' [] ∧ d'.faults = d.faults := by
  obtain ⟨a, o, d', ho, hs, he, hf⟩ := h.opens hr hp
  refine ⟨a, d', ho, ⟨⟨id, o, hs, he⟩, ?_⟩, hf⟩
  intro c
  rw [columns, ByCategory.get_ofFn]
  exact Nat.zero_le _

/-- **A record that fits is appended.** -/
theorem Settled.append {a : FileArchive} {d : Disk} {records : List Record} {limit : Nat}
    (h : a.Settled d records) (hl : d.faults = .capped limit) (hb : limit ≤ Disk.greatestLength)
    {record : Record} (hfit : record.Fits limit (columns records)) {now : Instant} {ctx : Context}
    (hlive : ctx.IsLive now) :
    ∃ a' d', a.perform d now ctx (.append records.length record) = (.ok .done, a', d') ∧
      a'.Settled d' (records ++ [record]) ∧ d'.faults = d.faults := by
  obtain ⟨id, o, hs, he⟩ := h.stands
  obtain ⟨s, hf, ha, he'⟩ := FileM.append_exact hs.wired hl he record
  have hz : (a.state o d).frozen = records.length := h.frozen
  rw [if_pos hfit, hz] at ha
  rw [if_pos hfit, push_columns] at he'
  refine ⟨a.after o s, s.disk, ?_, ⟨⟨id, _, hs.of_follows hf, he'.image, he'.length⟩, ?_⟩,
    hf.disk.faults⟩
  · rw [perform_of_live hlive (by simp), work_eq hs.opened]
    simp only [FileM.perform, bind_apply, ha, pure_apply]
  · rw [← push_columns]
    exact hfit.sized hb h.sized

/-- **A record is appended** on a device that does as it is asked. -/
theorem Settled.append_reliable {a : FileArchive} {d : Disk} {records : List Record}
    (h : a.Settled d records) (hf : d.faults = .reliable) (record : Record) {now : Instant}
    {ctx : Context} (hlive : ctx.IsLive now)
    (hsize : ∀ c, blobBytes ((columns (records ++ [record])).get c) ≤ Disk.greatestLength) :
    ∃ a' d', a.perform d now ctx (.append records.length record) = (.ok .done, a', d') ∧
      a'.Settled d' (records ++ [record]) ∧ d'.faults = d.faults := by
  obtain ⟨id, o, hs, he⟩ := h.stands
  have hz : (a.state o d).frozen = records.length := h.frozen
  obtain ⟨s, hf', ⟨ha, he', -⟩ | ⟨-, -, c, change, -, i, stored, hx⟩⟩ :=
    FileM.append_obliging hs.wired (hf ▸ FaultPlan.reports_reliable)
      (hf ▸ FaultPlan.obliging_reliable) he record
  · rw [hz] at ha
    rw [push_columns] at he'
    refine ⟨a.after o s, s.disk, ?_, ⟨⟨id, _, hs.of_follows hf', he'.image, he'.length⟩, hsize⟩,
      hf'.disk.faults⟩
    rw [perform_of_live hlive (by simp), work_eq hs.opened]
    simp only [FileM.perform, bind_apply, ha, pure_apply]
  · have hdone : d.faults i change = .done := by rw [hf]; rfl
    cases hdone.symm.trans hx

/-! ### What is opened after a power cut -/

/-- **Files that hold one of two lists per category are opened as one of the two.** -/
theorem reopens_of_between {directory : String} {id : DirectoryId} {d : Disk}
    (h : Free directory id d) (hr : d.faults.Reports) (hp : d.faults.Obliging)
    {short long : List Record} (hpre : short <+: long)
    (hk : ∀ c : Category, ∃ blobs, (blobs = (columns short).get c ∨ blobs = (columns long).get c) ∧
      blobBytes blobs ≤ Disk.greatestLength ∧
      TableImage.Holds ⟨[], d.stored ⟨id, c.dataName⟩, d.stored ⟨id, c.indexName⟩⟩ blobs) :
    Reopens directory d short ∨ Reopens directory d long := by
  obtain ⟨blobs, hb⟩ := ByCategory.exists_forall hk
  obtain ⟨a, o, d', ho, -, hs, he, -⟩ := openAt_of_keeps h hr hp
    fun c => ⟨Table.blobBytes_lt_wordLimit (hb c).2.1, (hb c).2.2⟩
  have settled : ∀ records : List Record, blobs.aligned = columns records →
      Reopens directory d records := by
    intro records hc
    rw [hc] at he
    have : a.Settled d' records := by
      refine ⟨⟨id, o, hs, he⟩, ?_⟩
      intro c
      rw [← hc, ByCategory.aligned, ByCategory.get_map]
      have hle := Table.blobBytes_take_le (blobs.map List.length).least (blobs.get c)
      have hsize := (hb c).2.1
      omega
    exact ⟨a, d', ho, this, this.shows⟩
  by_cases hall : ∀ c, blobs.get c = (columns long).get c
  · -- every table has all blobs
    right
    apply settled long
    rw [ByCategory.ext hall]
    exact ByCategory.aligned_of_length (length_columns long)
  · -- some table has the blobs of the short list only, and the others are cut to it
    left
    have hlong : ∀ c, (columns short).get c <+: blobs.get c := by
      intro c
      rcases (hb c).1 with he | he
      · exact ⟨[], by rw [List.append_nil, he]⟩
      · rw [he]
        exact columns_prefix c hpre
    have hleast : (blobs.map List.length).least = short.length := by
      apply ByCategory.least_eq
      · intro c
        rw [ByCategory.get_map, ← length_columns short c]
        exact (hlong c).length_le
      · obtain ⟨c, hc⟩ := Classical.not_forall.mp hall
        rcases (hb c).1 with he | he
        · exact ⟨c, by rw [ByCategory.get_map, he, length_columns]⟩
        · exact absurd he hc
    apply settled short
    apply ByCategory.ext
    intro c
    rw [ByCategory.aligned, hleast, ByCategory.get_map, ← length_columns short c]
    exact (List.prefix_iff_eq_take.mp (hlong c)).symm

section PowerCut

variable {a : FileArchive} {id : DirectoryId} {o : OpenTables} {d d' : Disk}
  {records : List Record} {p : FaultPlan}

/-- When the power is back, the directory of an archive that was open is free. -/
theorem Stands.restart {ids : List FileId} (h : a.Stands id o d) (ht : Disk.Touches ids d d') :
    Free a.directory id d'.restart := restart_free (h.shelf.of_touches ht)

/-- **Tables that were left with one of two lists are opened as one of the two.** -/
theorem Stands.reopens (h : a.Stands id o d) {short long : List Record} (hpre : short <+: long)
    (hl : (a.state o d).LeftAt (fun c v =>
      ∃ blobs, (blobs = (columns short).get c ∨ blobs = (columns long).get c) ∧
        blobBytes blobs ≤ Disk.greatestLength ∧ v.Holds blobs) d') :
    Reopens a.directory d'.restart short ∨ Reopens a.directory d'.restart long := by
  refine reopens_of_between (h.restart hl.disk) FaultPlan.reports_reliable
    FaultPlan.obliging_reliable hpre ?_
  intro c
  obtain ⟨v, ⟨blobs, hb, hsize, hv⟩, hd, hi⟩ := hl.files c
  refine ⟨blobs, hb, hsize, ?_⟩
  have hdata : d'.restart.stored ⟨id, c.dataName⟩ = v.data :=
    (Disk.stored_of_file ((hl.disk.find? _).trans (h.located c).data)).trans hd
  have hindex : d'.restart.stored ⟨id, c.indexName⟩ = v.index :=
    (Disk.stored_of_file ((hl.disk.find? _).trans (h.located c).index)).trans hi
  rw [hdata, hindex]
  exact ⟨hv.data, hv.index, hv.short⟩

/-- The archive on a device that does something else with the changes to come. -/
theorem Settled.withFaults (h : a.Settled d records) (p : FaultPlan) :
    a.Settled { d with faults := p } records := by
  obtain ⟨id, o, hs, he⟩ := h.stands
  exact ⟨⟨id, o, hs.withFaults p, he.image, he.length⟩, h.sized⟩

/-- An append that is broken off leaves the old records or the new ones. -/
theorem Settled.append_reopens (h : a.Settled d records) (hs : d.faults.Serial)
    (hb : d.faults.Bounded) (now : Instant) (ctx : Context) (record : Record) :
    Reopens a.directory
        (a.perform d now ctx (.append records.length record)).2.2.restart records ∨
      Reopens a.directory
        (a.perform d now ctx (.append records.length record)).2.2.restart
        (records ++ [record]) := by
  obtain ⟨id, o, hst, hi, -⟩ := h.stands
  have hlen : ∀ c, ((columns records).get c).length = records.length := length_columns records
  have hpre : records <+: records ++ [record] := List.prefix_append _ _
  cases hc : ctx.check now with
  | error e =>
    rw [perform_of_check hc (by simp)]
    refine hst.reopens hpre ((FileState.Follows.refl (a.state o d)).leftAt ?_)
    intro c
    rw [hi c]
    exact ⟨_, .inl rfl, h.sized c, TableImage.ofBlobs_holds _⟩
  | ok _ =>
    have hf : (a.state o d).frozen = records.length := h.frozen
    have hdisk : (a.perform d now ctx (.append records.length record)).2.2
        = (finalState (FileM.append (a.state o d).frozen record (a.state o d))).disk := by
      rw [perform_of_live hc (by simp), work_eq hst.opened, hf]
      simp only [FileM.perform, bind_apply]
      cases FileM.append records.length record (a.state o d) <;> rfl
    rw [hdisk]
    refine hst.reopens hpre ((FileM.append_leaves hst.wired hs ?_ record).imp ?_)
    · intro c
      rw [hi c, hf, ← hlen c]
      exact Nat.le_of_eq (Table.length_endsOf _).symm
    · intro c w hw
      rw [hi c, hf, ← hlen c] at hw
      rcases TableImage.holds_of_rollbackStage hb (h.sized c) hw with hold | ⟨hnew, hsize⟩
      · exact ⟨_, .inl rfl, h.sized c, hold⟩
      · rw [← columns_concat] at hnew hsize
        exact ⟨_, .inr rfl, hsize, hnew⟩

/-- A truncation that is broken off leaves all records or those that it keeps. -/
theorem Settled.truncate_reopens (h : a.Settled d records) (hs : d.faults.Serial)
    (now : Instant) (ctx : Context) {target : Nat} (ht : target ≤ records.length) :
    Reopens a.directory (a.perform d now ctx (.truncate target)).2.2.restart records ∨
      Reopens a.directory (a.perform d now ctx (.truncate target)).2.2.restart
        (records.take target) := by
  obtain ⟨id, o, hst, hi, -⟩ := h.stands
  have hpre : records.take target <+: records := List.take_prefix _ _
  apply Or.symm
  cases hc : ctx.check now with
  | error e =>
    rw [perform_of_check hc (by simp)]
    refine hst.reopens hpre ((FileState.Follows.refl (a.state o d)).leftAt ?_)
    intro c
    rw [hi c]
    exact ⟨_, .inr rfl, h.sized c, TableImage.ofBlobs_holds _⟩
  | ok _ =>
    have hf : target ≤ (a.state o d).frozen := by
      rw [state, h.frozen]
      exact ht
    have hdisk : (a.perform d now ctx (.truncate target)).2.2
        = (finalState (FileM.cutTables target Category.all
            { a.state o d with frozen := target })).disk := by
      rw [perform_of_live hc (by simp), work_eq hst.opened]
      simp only [FileM.perform, bind_apply, FileM.truncate_eq hf]
      cases FileM.cutTables target Category.all { a.state o d with frozen := target } <;> rfl
    have hw : FileState.Wired { a.state o d with frozen := target } :=
      ⟨hst.wired.table, hst.wired.apart⟩
    have hl := FileM.cutTables_leaves hw hs target Category.all
    rw [hdisk]
    refine hst.reopens hpre ⟨hl.disk, ?_⟩
    intro c
    obtain ⟨w, hstage, hfiles⟩ := hl.files c
    refine ⟨w, ?_, hfiles⟩
    rw [show FileState.image { a.state o d with frozen := target } c = _ from hi c] at hstage
    rcases TableImage.holds_of_cutStage hstage with hold | hcut
    · exact ⟨_, .inr rfl, h.sized c, hold⟩
    · rw [← columns_take] at hcut
      refine ⟨_, .inl rfl, ?_, hcut⟩
      rw [columns_take]
      have hle := Table.blobBytes_take_le target ((columns records).get c)
      have hsize := h.sized c
      omega

end PowerCut

/-- **Crash atomicity.** The power goes at change number `n`, of which at most `stored` bytes are
kept, while a record is appended or records are dropped on a device that may fail as it likes. The
directory is then opened with exactly the records from before the call or with exactly those the
call was to leave. -/
theorem crash_atomic {a : FileArchive} {d : Disk} {records : List Record}
    (h : a.Settled d records) {plan : FaultPlan} (hr : plan.Reports) (hb : plan.Bounded)
    (n stored : Nat) (now : Instant) (ctx : Context) :
    let cut : Disk := { d with faults := plan.cutAt n stored }
    let left (call : Call) : Disk := (a.perform cut now ctx call).2.2.restart
    (∀ record, Reopens a.directory (left (.append records.length record)) records ∨
      Reopens a.directory (left (.append records.length record)) (records ++ [record])) ∧
    ∀ target, target ≤ records.length → Reopens a.directory (left (.truncate target)) records ∨
      Reopens a.directory (left (.truncate target)) (records.take target) := by
  have hc := h.withFaults (plan.cutAt n stored)
  have hs := FaultPlan.serial_cutAt hr n stored
  have hb := FaultPlan.bounded_cutAt hb n stored
  exact ⟨fun record => hc.append_reopens hs hb now ctx record,
    fun target ht => hc.truncate_reopens hs now ctx ht⟩

/-- An archive with one record, and a power cut two bytes into the header of the next one, or when
the bodies are dropped. -/
theorem crash_atomic_after_one :
    let first : Record := ⟨[1, 2], [3, 4, 5], [6], [7], [8]⟩
    let second : Record := ⟨[11, 12], [13, 14, 15], [16], [17], [18]⟩
    ∃ (a : FileArchive) (d : Disk), a.Settled d [first] ∧
      let cut : Disk :=
        { d with faults := (FaultPlan.capped Disk.greatestLength).cutAt (d.changes + 5) 2 }
      let left (call : Call) : Disk := (a.perform cut 0 .background call).2.2.restart
      (Reopens a.directory (left (.append 1 second)) [first] ∨
        Reopens a.directory (left (.append 1 second)) [first, second]) ∧
      (Reopens a.directory (left (.truncate 0)) [first] ∨
        Reopens a.directory (left (.truncate 0)) []) := by
  intro first second
  obtain ⟨a, d, -, hs, hf⟩ := (vacant_emptyDisk.withFaults (.capped 100)).settled
    (FaultPlan.reports_capped 100) (FaultPlan.obliging_capped 100)
  have hfit : first.Fits 100 (columns []) := by decide
  obtain ⟨a', d', -, hs', -⟩ := hs.append hf (by decide) hfit (Context.isLive_background 0)
  have hb : (FaultPlan.capped Disk.greatestLength).Bounded :=
    FaultPlan.bounded_capped (Nat.le_refl _)
  have h := crash_atomic hs' (FaultPlan.reports_capped Disk.greatestLength) hb
    (d'.changes + 5) 2 0 .background
  exact ⟨a', d', hs', h.1 second, h.2 0 (Nat.zero_le _)⟩

end FileArchive

end ColdArchive
