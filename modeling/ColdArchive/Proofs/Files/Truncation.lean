import ColdArchive.Proofs.Files.Crash
import ColdArchive.Proofs.Files.Live
import ColdArchive.Proofs.Files.Restart

/-!
# Truncations that fail

A truncation lowers the count before it cuts a table, so that the count is as asked even where a cut
fails. It stays there as soon as the first table was cut: a repair takes the least of the item
counts, and that of the first table is the target. If the cut of the first table fails, no table
has less than before, and a repair commits the records again (`truncated_records_return`).
-/

namespace ColdArchive

/-- What is cut to all that it has stays. -/
theorem TableImage.eq_of_cutStage {w : TableImage} {blobs : List Blob}
    (h : (ofBlobs blobs).CutStage blobs.length w) : w = ofBlobs blobs := by
  have hb := ofBlobs_begins (List.prefix_rfl (l := blobs))
  cases h with
  | kept => rfl
  | index _ => rw [hb.fit_index, ofBlobs]
  | done _ => exact hb.cut_eq

/-- The first table is cut to the blobs that are committed, and the others begin with them. -/
structure FileState.Lowered (s : FileState) (blobs : ByCategory (List Blob)) : Prop where
  length : ∀ c, (blobs.get c).length = s.frozen
  begins : ∀ c, (s.image c).Begins (blobs.get c)
  first : s.image .hash = .ofBlobs (blobs.get .hash)

namespace FileState

variable {s s' : FileState} {blobs : ByCategory (List Blob)}

theorem Lowered.of_stages (h : s.Lowered blobs) (hz : s'.frozen = s.frozen)
    (hs : ∀ c, (s.image c).CutStage s.frozen (s'.image c)) : s'.Lowered blobs := by
  refine ⟨fun c => (h.length c).trans hz.symm, fun c => ?_, ?_⟩
  · have hc := hs c
    rw [← h.length c] at hc
    exact (h.begins c).of_cutStage hc
  · have hc := hs .hash
    rw [h.first, ← h.length .hash] at hc
    exact TableImage.eq_of_cutStage hc

/-- A cut to the committed blobs keeps the first table cut, whether it fails or not. -/
theorem Lowered.cutTables (h : s.Lowered blobs) (hw : s.Wired) (hr : s.disk.faults.Reports)
    (cs : List Category) :
    s.Follows (finalState (FileM.cutTables s.frozen cs s)) ∧
      (finalState (FileM.cutTables s.frozen cs s)).Lowered blobs := by
  obtain ⟨hf, hz, hs⟩ := FileM.cutTables_stages hw hr s.frozen cs
  exact ⟨hf, h.of_stages hz hs⟩

/-- The least item count is that of the first table. -/
theorem Lowered.leastCount_eq (h : s.Lowered blobs) : leastCount (FileM.lengths s) = s.frozen := by
  have hitems : ∀ c, (s.tables.map Table.items).get c = (s.image c).ends.length := fun c =>
    ByCategory.get_map _ _ _
  apply ByCategory.least_eq
  · intro c
    rw [hitems, ← h.length c]
    exact (h.begins c).length_le
  · refine ⟨.hash, ?_⟩
    rw [hitems, h.first, TableImage.ofBlobs, Table.length_endsOf, h.length]

theorem Lowered.repair_eq (h : s.Lowered blobs) :
    FileM.repair s =
      match FileM.cutTables s.frozen Category.all s with
      | .ok _ s' => .ok ⟨FileM.lengths s, s.frozen⟩ s'
      | .error e s' => .error e s' := by
  have hrepair := FileM.repair_eq s
  rw [h.leastCount_eq] at hrepair
  exact hrepair

theorem Lowered.repair (h : s.Lowered blobs) (hw : s.Wired) (hr : s.disk.faults.Reports) :
    s.Follows (finalState (FileM.repair s)) ∧ (finalState (FileM.repair s)).Lowered blobs := by
  have hc := h.cutTables hw hr Category.all
  rw [h.repair_eq]
  generalize FileM.cutTables s.frozen Category.all s = r at hc
  cases r <;> exact hc

/-- **A repair that succeeds leaves exactly the committed blobs.** -/
theorem Lowered.repair_exact (h : s.Lowered blobs) (hw : s.Wired) (hr : s.disk.faults.Reports)
    {report : RepairReport} (ho : FileM.repair s = .ok report s') :
    s.Follows s' ∧ s'.Exact blobs := by
  have he := FileM.cutTables_ends hw hr.serial s.frozen Category.all
  rw [h.repair_eq] at ho
  generalize FileM.cutTables s.frozen Category.all s = r at he ho
  cases he with
  | @done _ s₁ hd =>
    obtain ⟨-, rfl⟩ := EStateM.Result.ok.inj ho
    obtain ⟨hf, hz, hi⟩ := hd
    refine ⟨hf, fun c => ?_, fun c => (h.length c).trans hz.symm⟩
    rw [hi c, if_pos (Category.mem_all c), ← h.length c]
    exact (h.begins c).truncated_eq
  | failed hb => cases ho
  | lost dead hl => exact absurd dead (FaultPlan.Reports.not_dead (hl.disk.faults ▸ hr))

/-- A truncation leaves the count that was asked, whether it fails or not. -/
theorem truncate_follows (hw : s.Wired) (hr : s.disk.faults.Reports) {target : Nat}
    (ht : target ≤ s.frozen) :
    s.Follows (finalState (FileM.truncate target s)) ∧
      (finalState (FileM.truncate target s)).frozen = target := by
  have hw' : Wired { s with frozen := target } := ⟨hw.table, hw.apart⟩
  obtain ⟨hf, hz, -⟩ := FileM.cutTables_stages hw' hr target Category.all
  rw [FileM.truncate_eq ht]
  exact ⟨⟨hf.wiring, hf.disk⟩, hz⟩

/-- A truncation to no less keeps the first table cut. -/
theorem Lowered.truncate (h : s.Lowered blobs) (hw : s.Wired) (hr : s.disk.faults.Reports)
    {target : Nat} (ht : s.frozen ≤ target) :
    s.Follows (finalState (FileM.truncate target s)) ∧
      (finalState (FileM.truncate target s)).Lowered blobs := by
  rcases Nat.eq_or_lt_of_le ht with rfl | ht
  · rw [FileM.truncate_eq (Nat.le_refl _)]
    exact h.cutTables hw hr Category.all
  · rw [FileM.truncate_of_lt ht]
    exact ⟨.refl s, h⟩

/-- **A truncation that fails after the first table was cut** leaves that table cut. -/
theorem lowered_of_truncate (hw : s.Wired) (hr : s.disk.faults.Reports) {target : Nat}
    (hb : ∀ c, (s.image c).Begins (blobs.get c)) (hlen : ∀ c, (blobs.get c).length = target)
    (ht : target ≤ s.frozen)
    (hc : ∃ s₁, FileM.cutTables target [.hash] { s with frozen := target } = .ok () s₁) :
    s.Follows (finalState (FileM.truncate target s)) ∧
      (finalState (FileM.truncate target s)).Lowered blobs := by
  obtain ⟨s₁, hs₁⟩ := hc
  have hw' : Wired { s with frozen := target } := ⟨hw.table, hw.apart⟩
  have he := FileM.cutTables_ends hw' hr.serial target [.hash]
  rw [hs₁] at he
  cases he with
  | lost dead hl => exact absurd dead (FaultPlan.Reports.not_dead (hl.disk.faults ▸ hr))
  | done hd =>
    obtain ⟨hf, hz, hi⟩ := hd
    have hz : s₁.frozen = target := hz
    have low : s₁.Lowered blobs := by
      refine ⟨fun c => (hlen c).trans hz.symm, fun c => ?_, ?_⟩
      · have hst : (s.image c).CutStage target (s₁.image c) := .of_eq (hi c)
        rw [← hlen c] at hst
        exact (hb c).of_cutStage hst
      · rw [hi .hash, if_pos (List.mem_singleton_self _), ← hlen .hash]
        exact (hb .hash).truncated_eq
    obtain ⟨hf', low'⟩ := low.cutTables (hw'.of_follows hf) (hf.disk.faults ▸ hr)
      [.header, .body, .receipts, .difficulty]
    rw [hz] at hf' low'
    have hall : FileM.truncate target s =
        FileM.cutTables target [.header, .body, .receipts, .difficulty] s₁ := by
      rw [FileM.truncate_eq ht]
      exact FileM.cutTables_append hs₁ _
    rw [hall]
    have hff := hf.trans hf'
    exact ⟨⟨hff.wiring, hff.disk⟩, low'⟩

/-- **A cut that fails at its first table** leaves every table with the items that it had. -/
theorem ends_of_cutTables {n : Nat}
    (h : ¬ ∃ s₁, FileM.cutTables n [.hash] s = .ok () s₁) (c : Category) :
    ((finalState (FileM.cutTables n Category.all s)).image c).ends = (s.image c).ends := by
  have hall : FileM.cutTables n Category.all s = (FileM.onTable .hash (Table.truncate n) >>=
      fun _ => FileM.cutTables n [.header, .body, .receipts, .difficulty]) s := rfl
  have hone : FileM.cutTables n [.hash] s = (FileM.onTable .hash (Table.truncate n) >>=
      fun _ => pure ()) s := rfl
  rw [hone, bind_apply] at h
  rw [hall, bind_apply]
  cases ht : Table.truncate n (s.tables.get .hash, s.disk) with
  | ok u p =>
    have ho : FileM.onTable .hash (Table.truncate n) s = .ok u (s.put .hash p) := by
      rw [FileM.onTable, ht]
      rfl
    rw [ho] at h
    exact absurd ⟨_, rfl⟩ h
  | error e p =>
    have ho : FileM.onTable .hash (Table.truncate n) s = .error e (s.put .hash p) := by
      rw [FileM.onTable, ht]
      rfl
    -- the table in hand is put back as it was
    have hp : p.1 = s.tables.get .hash := by
      rw [Table.truncate_eq] at ht
      split at ht
      · cases ht
      · cases hc : (s.tables.get .hash).cutFiles n s.disk <;> rw [hc] at ht <;> cases ht
        rfl
    rw [ho]
    simp only [finalState, put, image, Table.image, ByCategory.get_set, hp]
    split
    · next hcat => rw [← hcat]
    · rfl

theorem ends_of_truncate {target : Nat} (ht : target ≤ s.frozen)
    (h : ¬ ∃ s₁, FileM.cutTables target [.hash] { s with frozen := target } = .ok () s₁)
    (c : Category) :
    ((finalState (FileM.truncate target s)).image c).ends = (s.image c).ends := by
  rw [FileM.truncate_eq ht]
  exact ends_of_cutTables h c

end FileState

namespace FileArchive

/-! ### Handles -/

/-- The archive is open, lowered to the blobs. -/
def Lowered (a : FileArchive) (d : Disk) (blobs : ByCategory (List Blob)) : Prop :=
  ∃ id o, a.Stands id o d ∧ d.faults.Reports ∧ (a.state o d).Lowered blobs

/-- Nothing is appended, nothing more is dropped, and the handle is not closed. -/
def Spares (target : Nat) : Work → Prop
  | .repair => True
  | .call _ _ (.append _ _) => False
  | .call _ _ (.truncate n) => target ≤ n
  | .call _ _ .close => False
  | .call _ _ _ => True

/-- The directory is opened at last, on devices that report their failures, after any number of
refusals. -/
inductive Retries (directory : String) : Disk → FileArchive → Disk → Prop where
  | opened {p : FaultPlan} {d d' : Disk} {a : FileArchive} (hp : p.Reports)
      (h : openAt directory { d with faults := p } = .ok a d') : Retries directory d a d'
  | refused {p : FaultPlan} {d d₁ d' : Disk} {a : FileArchive} {e : StoreError} (hp : p.Reports)
      (h : openAt directory { d with faults := p } = .error e d₁)
      (next : Retries directory d₁ a d') : Retries directory d a d'

section Lowered

variable {a a' : FileArchive} {id : DirectoryId} {o : OpenTables} {d d' : Disk}
  {blobs : ByCategory (List Blob)}

theorem Lowered.of_work {α : Type} (hs : a.Stands id o d) (hr : d.faults.Reports) {f : FileM α}
    (h : (a.state o d).Follows (finalState (f (a.state o d))) ∧
      (finalState (f (a.state o d))).Lowered blobs) :
    Lowered (a.work d f).2.1 (a.work d f).2.2 blobs := by
  rw [work_state hs.opened]
  exact ⟨id, _, hs.of_follows h.1, h.1.disk.faults ▸ hr, h.2.length, h.2.begins, h.2.first⟩

/-- What a call preserves that spares what is left. -/
theorem Lowered.ask (h : a.Lowered d blobs) {work : Work}
    (hw : Spares (blobs.get .hash).length work) :
    (ask (a, d) work).1.Lowered (ask (a, d) work).2 blobs := by
  obtain ⟨id, o, hs, hr, hl⟩ := h
  cases work with
  | repair => exact .of_work hs hr (hl.repair hs.wired hr)
  | call now ctx call =>
    by_cases hclose : call = .close
    · subst hclose
      exact hw.elim
    show (a.perform d now ctx call).2.1.Lowered (a.perform d now ctx call).2.2 blobs
    cases hc : ctx.check now with
    | error e =>
      rw [perform_of_check hc hclose]
      exact ⟨id, o, hs, hr, hl⟩
    | ok _ =>
      rw [perform_of_live hc hclose]
      refine .of_work hs hr ?_
      rw [FileM.finalState_perform]
      cases call with
      | append number record => exact hw.elim
      | truncate target =>
        refine hl.truncate hs.wired hr ?_
        rw [← hl.length .hash]
        exact hw
      | _ => exact ⟨.refl _, hl⟩

/-- What a run preserves that spares what is left. -/
theorem Lowered.run (h : a.Lowered d blobs) {works : List Work}
    (hw : ∀ work ∈ works, Spares (blobs.get .hash).length work) :
    (works.foldl FileArchive.ask (a, d)).1.Lowered (works.foldl FileArchive.ask (a, d)).2
      blobs := by
  induction works generalizing a d with
  | nil => exact h
  | cons work works ih =>
    rw [List.foldl_cons]
    exact ih (h.ask (hw work (List.mem_cons_self ..)))
      fun work' hm => hw work' (List.mem_cons_of_mem _ hm)

/-- **What is found in the directory of a lowered archive**, unless it is refused. -/
theorem Lowered.found_eq (hs : a.Stands id o d) (h : (a.state o d).Lowered blobs)
    (hb : ∀ c, blobBytes (blobs.get c) < wordLimit) {found : ByCategory (List Blob)}
    (hf : d.found id = .ok found) : found = blobs := by
  have himage : ∀ c, (a.state o d).image c = ⟨(o.tables.get c).ends, d.stored ⟨id, c.dataName⟩,
      d.stored ⟨id, c.indexName⟩⟩ := fun c => (hs.located c).image_eq
  cases ht : d.tables id with
  | error e =>
    rw [Disk.found, ht] at hf
    cases hf
  | ok tables =>
    obtain rfl := Except.ok.inj ((Disk.found_of_tables ht).symm.trans hf)
    have htold := fun c => Disk.told_eq_ok_iff.mp (Disk.tables_eq_ok_iff.mp ht c)
    -- every table tells the blobs first, and the first table nothing else
    have hpre : ∀ c, blobs.get c <+: tables.get c := by
      intro c
      have hbegin := h.begins c
      rw [himage c] at hbegin
      exact Table.isPrefix_told (hb c) hbegin.data hbegin.index (htold c)
    have hfirst : tables.get .hash = blobs.get .hash := by
      have hholds := TableImage.ofBlobs_holds (blobs.get .hash)
      rw [← h.first, himage .hash] at hholds
      exact Except.ok.inj ((htold .hash).symm.trans (hholds.told_eq (hb .hash)))
    have hleast : (tables.map List.length).least = (blobs.get .hash).length := by
      apply ByCategory.least_eq
      · intro c
        rw [ByCategory.get_map, h.length .hash, ← h.length c]
        exact (hpre c).length_le
      · exact ⟨.hash, by rw [ByCategory.get_map, hfirst]⟩
    apply ByCategory.ext
    intro c
    rw [ByCategory.aligned, ByCategory.get_map, hleast, h.length .hash, ← h.length c]
    exact (List.prefix_iff_eq_take.mp (hpre c)).symm

/-- An archive that has exactly the blobs of some records is settled with them. -/
theorem settled_of_exact {records : List Record} (hs : a.Stands id o d)
    (he : (a.state o d).Exact (columns records))
    (hsize : ∀ c, blobBytes ((columns records).get c) ≤ Disk.greatestLength) :
    a.Settled d records := ⟨⟨id, o, hs, he⟩, hsize⟩

/-- **What is found is opened at last.** -/
theorem Retries.settled {directory : String} {records : List Record}
    (hretry : Retries directory d a' d') (h : Free directory id d)
    (hfound : ∀ found, d.found id = .ok found → found = columns records)
    (hsize : ∀ c, blobBytes ((columns records).get c) ≤ Disk.greatestLength) :
    a'.Settled d' records := by
  induction hretry with
  | @opened p d d' a hp ho =>
    have hres := (h.withFaults p).openAt_resolves hp.serial
    rw [ho] at hres
    cases hres with
    | lost dead k =>
      have hf : d'.faults = p := k.1.faults
      exact absurd dead (FaultPlan.Reports.not_dead (hf ▸ hp))
    | done hd k =>
      obtain ⟨o, blobs, -, hf, hs, he⟩ := hd
      obtain rfl := hfound blobs hf
      exact settled_of_exact hs he hsize
  | @refused p d d₁ d' a e hp ho next ih =>
    have hres := (h.withFaults p).openAt_resolves hp.serial
    rw [ho] at hres
    cases hres with
    | lost dead k =>
      have hf : d₁.faults = p := k.1.faults
      exact absurd dead (FaultPlan.Reports.not_dead (hf ▸ hp))
    | refused he k =>
      refine ih ((h.withFaults p).of_tended k.1 he.2) ?_
      intro found hf
      exact hfound found (k.2.symm.trans hf)

/-- **A repair that succeeds keeps what is left**, and nothing else. -/
theorem Lowered.settled_of_repair {records : List Record} (h : a.Lowered d (columns records))
    (hsize : ∀ c, blobBytes ((columns records).get c) ≤ Disk.greatestLength)
    {report : RepairReport} (ho : a.repair d = (.ok report, a', d')) : a'.Settled d' records := by
  obtain ⟨id, o, hs, hr, hl⟩ := h
  rw [FileArchive.repair, work_eq hs.opened] at ho
  cases hrepair : FileM.repair (a.state o d) with
  | error e s =>
    rw [hrepair] at ho
    cases ho
  | ok report' s =>
    rw [hrepair] at ho
    obtain ⟨hf, he⟩ := hl.repair_exact hs.wired hr hrepair
    obtain ⟨-, rfl, rfl⟩ := ho
    exact settled_of_exact (hs.of_follows hf) ⟨he.image, he.length⟩ hsize

/-- **An opening that succeeds shows what is left**, and nothing else. -/
theorem Lowered.settled_of_retries {records : List Record} (h : a.Lowered d (columns records))
    (hsize : ∀ c, blobBytes ((columns records).get c) ≤ Disk.greatestLength)
    (hretry : Retries a.directory (a.release d).2 a' d') : a'.Settled d' records := by
  obtain ⟨id, o, hs, hr, hl⟩ := h
  refine hretry.settled hs.release (fun found hf => ?_) hsize
  refine Lowered.found_eq hs hl (fun c => Table.blobBytes_lt_wordLimit (hsize c)) ?_
  rw [← hf]
  simp only [release, hs.opened]
  rfl

/-- A repair commits as many records as every table has in hand. -/
theorem frozen_of_repair (hs : a.Stands id o d) (hr : d.faults.Reports) {report : RepairReport}
    (ho : a.repair d = (.ok report, a', d')) :
    a'.frozen = leastCount (FileM.lengths (a.state o d)) := by
  have hst := FileM.cutTables_stages (s := { a.state o d with
    frozen := leastCount (FileM.lengths (a.state o d)) }) ⟨hs.wired.table, hs.wired.apart⟩ hr
    (leastCount (FileM.lengths (a.state o d))) Category.all
  rw [FileArchive.repair, work_eq hs.opened, FileM.repair_eq] at ho
  generalize FileM.cutTables _ _ _ = r at hst ho
  cases r with
  | error e s => cases ho
  | ok u s =>
    obtain ⟨-, rfl, -⟩ := ho
    exact hst.2.1

theorem le_frozen_of_repair (hs : a.Stands id o d) (hr : d.faults.Reports) {n : Nat}
    (h : ∀ c, n ≤ ((a.state o d).image c).ends.length) {report : RepairReport}
    (ho : a.repair d = (.ok report, a', d')) : n ≤ a'.frozen := by
  obtain ⟨c, hc⟩ := ((a.state o d).tables.map Table.items).exists_get_eq_least
  have hitems : ((a.state o d).tables.map Table.items).get c =
      ((a.state o d).image c).ends.length := ByCategory.get_map _ _ _
  have hle := h c
  rw [← hitems, hc] at hle
  rw [frozen_of_repair hs hr ho]
  exact hle

end Lowered

theorem length_columns_take {records : List Record} {n : Nat} (h : n ≤ records.length)
    (c : Category) : ((columns (records.take n)).get c).length = n := by
  rw [length_columns, List.length_take, Nat.min_eq_left h]

/-- **A truncation that fails**, in an archive whose tables begin with the committed records. The
count is as asked. If the first table was cut, a repair that succeeds after it, on the handle or by
opening the directory again, leaves exactly the records that were to be kept, whatever else was
asked that spares them. If it was not, a repair on the handle commits all records again. -/
theorem truncate_fails {a : FileArchive} {id : DirectoryId} {o : OpenTables} {d : Disk}
    {records : List Record} (h : a.Stands id o d) (hr : d.faults.Reports)
    (hb : ∀ c, ((a.state o d).image c).Begins ((columns records).get c))
    (hsize : ∀ c, blobBytes ((columns records).get c) ≤ Disk.greatestLength)
    (hfrozen : a.frozen = records.length) {target : Nat} (ht : target ≤ a.frozen)
    {now : Instant} {ctx : Context} (hl : ctx.IsLive now) {e : StoreError} {a' : FileArchive}
    {d' : Disk} (hfail : a.perform d now ctx (.truncate target) = (.error e, a', d')) :
    (∀ now ctx, Context.IsLive ctx now →
      (a'.perform d' now ctx .count).1 = .ok (.number target)) ∧
    ((∃ s, FileM.cutTables target [.hash] { a.state o d with frozen := target } = .ok () s) →
      ∀ works : List Work, (∀ work ∈ works, Spares target work) →
        let left := works.foldl ask (a', d')
        (∀ report b e, left.1.repair left.2 = (.ok report, b, e) →
          b.Shows e (records.take target)) ∧
        ∀ b e, Retries left.1.directory (left.1.release left.2).2 b e →
          b.Shows e (records.take target)) ∧
    ((¬ ∃ s, FileM.cutTables target [.hash] { a.state o d with frozen := target } = .ok () s) →
      ∀ report b e, a'.repair d' = (.ok report, b, e) → records.length ≤ b.frozen) := by
  have hlen : ∀ c, ((columns (records.take target)).get c).length = target :=
    length_columns_take (hfrozen ▸ ht)
  have hbegin : ∀ c, ((a.state o d).image c).Begins ((columns (records.take target)).get c) := by
    intro c
    rw [columns_take]
    exact (hb c).take target
  have hsize' : ∀ c, blobBytes ((columns (records.take target)).get c) ≤ Disk.greatestLength := by
    intro c
    rw [columns_take]
    exact Nat.le_trans (Table.blobBytes_take_le target _) (hsize c)
  obtain ⟨hf, hcount⟩ := FileState.truncate_follows (s := a.state o d) h.wired hr ht
  -- the handle and the disk after the truncation
  have hafter : (a', d') = (a.after o (finalState (FileM.truncate target (a.state o d))),
      (finalState (FileM.truncate target (a.state o d))).disk) := by
    have hstate := work_state h.opened d (FileM.perform (.truncate target))
    rw [FileM.finalState_perform, ← perform_of_live hl (by simp), hfail] at hstate
    exact hstate
  obtain ⟨rfl, rfl⟩ := Prod.mk.inj hafter
  refine ⟨?_, fun hfirst works hspare => ?_, fun hnot report b e hrepair => ?_⟩
  · intro now ctx hl
    rw [perform_count rfl _ hl]
    exact congrArg (fun n => Except.ok (Reply.number n)) hcount
  · have low := FileState.lowered_of_truncate h.wired hr hbegin hlen ht hfirst
    have start : Lowered _ _ (columns (records.take target)) := .of_work h hr low
    rw [work_state h.opened] at start
    have left := start.run fun work hm => by
      rw [hlen]
      exact hspare work hm
    exact ⟨fun report b e hrepair => (left.settled_of_repair hsize' hrepair).shows,
      fun b e hretry => (left.settled_of_retries hsize' hretry).shows⟩
  · -- no table has fewer items in hand than before
    refine le_frozen_of_repair (h.of_follows hf) (hf.disk.faults ▸ hr) (fun c => ?_) hrepair
    have hends := FileState.ends_of_truncate (s := a.state o d) ht hnot c
    have hle := (hb c).length_le
    rw [length_columns, ← hends] at hle
    exact hle

/-- Two answers can be compared. -/
instance decidableEqExcept {ε α : Type} [DecidableEq ε] [DecidableEq α] :
    DecidableEq (Except ε α)
  | .ok a, .ok b => decidable_of_iff (a = b) (by simp)
  | .error e, .error e' => decidable_of_iff (e = e') (by simp)
  | .ok _, .error _ => isFalse (by simp)
  | .error _, .ok _ => isFalse (by simp)

/-- A new archive after two records were appended to it. -/
def two : FileArchive × Disk :=
  match openAt "." .empty with
  | .error _ d => (⟨".", none, 0⟩, d)
  | .ok a d => [Work.call 0 .background (.append 0 (.replicate [1])),
      .call 0 .background (.append 1 (.replicate [2]))].foldl ask (a, d)

/-- A device that fails at one change, counted from there. -/
def failsAfter (n : Nat) : FaultPlan :=
  fun i _ => if i = two.2.changes + n then .fails 0 else .done

/-- The second record is dropped from it on that device. -/
def cutOfTwo (n : Nat) : Outcome × FileArchive × Disk :=
  two.1.perform { two.2 with faults := failsAfter n } 0 .background (.truncate 1)

/-- The archive and its disk after a repair that follows. -/
def repairOfTwo (n : Nat) : Except StoreError RepairReport × FileArchive × Disk :=
  (cutOfTwo n).2.1.repair (cutOfTwo n).2.2

/-- **Truncated records return.** If the index of the first table cannot be cut, or its data cannot,
the truncation fails and the count is as asked, but a repair commits the second record again. In the
first case it is also there when the directory is opened again. In the second case the repair has
filled the index with zeros, and the directory is refused. -/
theorem truncated_records_return :
    (∀ n < 2, (cutOfTwo n).1 = .error (.io .tooLarge) ∧
      ((cutOfTwo n).2.1.perform (cutOfTwo n).2.2 0 .background .count).1 = .ok (.number 1) ∧
      (repairOfTwo n).1 = .ok ⟨[2, 2, 2, 2, 2], 2⟩ ∧
      ((repairOfTwo n).2.1.perform (repairOfTwo n).2.2 0 .background (.read .hash 1)).1 =
        .ok (.blob [2])) ∧
    (showing 0 (openAt "." ((cutOfTwo 0).2.1.release (cutOfTwo 0).2.2).2)).map Showing.frozen =
      .ok 2 ∧
    (showing 0 (openAt "." ((repairOfTwo 1).2.1.release (repairOfTwo 1).2.2).2)).map
      Showing.frozen = .error (.corrupted "hash index goes backwards at item 1") := by
  decide +kernel

-- the proofs that follow reason about these archives and do not compute them
attribute [irreducible] two cutOfTwo repairOfTwo

theorem settled_two : two.1.Settled two.2 [.replicate [1], .replicate [2]] := by
  have live := Context.isLive_background 0
  obtain ⟨a, d, ho, hs, hf⟩ := vacant_emptyDisk.settled FaultPlan.reports_reliable
    FaultPlan.obliging_reliable
  obtain ⟨a₁, d₁, h₁, s₁, f₁⟩ := hs.append_reliable hf (.replicate [1]) live
    fun c => by cases c <;> decide
  obtain ⟨a₂, d₂, h₂, s₂, -⟩ := s₁.append_reliable (f₁.trans hf) (.replicate [2]) live
    fun c => by cases c <;> decide
  have htwo : two = (a₂, d₂) := by
    simp only [two, ho, List.foldl_cons, List.foldl_nil, ask]
    rw [show a.perform d 0 .background (.append 0 (.replicate [1])) = _ from h₁]
    rw [show a₁.perform d₁ 0 .background (.append 1 (.replicate [2])) = _ from h₂]
  rw [htwo]
  exact s₂

theorem reports_failsAfter (n : Nat) : (failsAfter n).Reports := by
  intro i change stored
  rw [failsAfter]
  split <;> simp

/-- The first table was cut when the truncation fails at the third change. -/
theorem cut_first_of_two : (match two.1.opened with
    | none => false
    | some o =>
      match FileM.cutTables 1 [.hash]
        { two.1.state o { two.2 with faults := failsAfter 2 } with frozen := 1 } with
      | .ok _ _ => true
      | .error _ _ => false) = true := by
  decide +kernel

/-- A truncation that fails at the index of the second table: the dropped record stays away. -/
theorem truncate_fails_of_two :
    (cutOfTwo 2).1 = .error (.io .tooLarge) ∧
      ((cutOfTwo 2).2.1.perform (cutOfTwo 2).2.2 0 .background .count).1 = .ok (.number 1) ∧
      ∀ report b e, repairOfTwo 2 = (.ok report, b, e) → b.Shows e [.replicate [1]] := by
  obtain ⟨id, o, hs, he⟩ := settled_two.stands
  have herror : (cutOfTwo 2).1 = .error (.io .tooLarge) := by decide +kernel
  have hfail : two.1.perform { two.2 with faults := failsAfter 2 } 0 .background (.truncate 1) =
      (.error (.io .tooLarge), (cutOfTwo 2).2.1, (cutOfTwo 2).2.2) := by
    rw [← herror, cutOfTwo]
  have hfirst := cut_first_of_two
  rw [hs.opened] at hfirst
  have h := truncate_fails (hs.withFaults _) (reports_failsAfter 2)
    (fun c => he.image c ▸ TableImage.ofBlobs_begins List.prefix_rfl) settled_two.sized
    settled_two.frozen (by rw [settled_two.frozen]; decide) (Context.isLive_background 0) hfail
  refine ⟨herror, h.1 0 .background (Context.isLive_background 0), fun report b e hrepair => ?_⟩
  rw [repairOfTwo] at hrepair
  refine (h.2.1 ?_ [] fun _ hm => absurd hm List.not_mem_nil).1 report b e hrepair
  cases hcut : FileM.cutTables 1 [.hash]
      { two.1.state o { two.2 with faults := failsAfter 2 } with frozen := 1 } with
  | ok u s => exact ⟨s, hcut⟩
  | error err s =>
    simp only [hcut] at hfirst
    cases hfirst

end FileArchive

end ColdArchive
