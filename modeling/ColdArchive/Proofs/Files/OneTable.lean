import ColdArchive.Proofs.Files.Recovery

/-!
# One open table

A table by itself, without the archive that it belongs to: it stands in a directory, where its two
files have the names of its category, and it goes on standing there while it is changed. Once the
power is back, it is opened with the blobs that its files tell.
-/

namespace ColdArchive

namespace Table

/-- The table is open in a directory, where its two files have the names of its category. -/
structure Stands (directory : String) (id : DirectoryId) (c : Category) (t : Table) (d : Disk) :
    Prop where
  shelf : Shelf directory id d
  located : Located id c t d

section Stands

variable {directory : String} {id : DirectoryId} {c : Category} {t : Table} {d d' : Disk}

theorem Stands.wired (h : Stands directory id c t d) : t.Wired d := h.shelf.wired h.located

theorem Stands.of_touches {ids : List FileId} (h : Stands directory id c t d)
    (ht : Disk.Touches ids d d') : Stands directory id c t d' :=
  ⟨h.shelf.of_touches ht, h.located.of_grows ht.grows⟩

theorem Stands.withFaults (h : Stands directory id c t d) (p : FaultPlan) :
    Stands directory id c t { d with faults := p } :=
  ⟨h.shelf.of_names (fun _ => rfl) rfl rfl rfl, h.located.of_grows ⟨fun _ _ hn => hn, rfl, rfl⟩⟩

theorem Stands.of_moves (h : Stands directory id c t d) {p : Table × Disk} (hm : Moves (t, d) p) :
    Stands directory id c p.1 p.2 := by
  obtain ⟨t', d'⟩ := p
  have hwiring : t' = { t with ends := t'.ends } := hm.wiring
  have h' := h.of_touches hm.disk
  rw [hwiring]
  exact ⟨h'.shelf, h'.located.data, h'.located.index⟩

/-- A directory without names gets a table without items. -/
theorem stands_new (h : FileArchive.Vacant directory id d) (hr : d.faults.Reports)
    (hp : d.faults.Obliging) (c : Category) :
    ∃ t d', openAt (Path.ofText directory) c d = .ok t d' ∧ Stands directory id c t d' ∧
      t.image d' = .ofBlobs [] ∧ d'.faults = d.faults := by
  have hfound : d.told id c = .ok [] := by
    rw [Disk.told_eq_ok_iff, Disk.stored_of_none (h.vacant _), Disk.stored_of_none (h.vacant _)]
    rfl
  have hopens := h.free.shelf.openTable hr.serial c
  generalize openAt (Path.ofText directory) c d = r at hopens
  cases hopens with
  | @done t d' hg hk =>
    obtain ⟨blobs, hblobs, himage⟩ := hg.image
    obtain rfl := Except.ok.inj (hfound.symm.trans hblobs)
    exact ⟨t, d', rfl, ⟨hk.shelf, hg.located⟩, himage, hk.faults⟩
  | refused he _ =>
    rcases he with he | ⟨-, hnot⟩
    · rw [hfound] at he
      cases he
    · exact absurd hp hnot
  | lost dead k => exact absurd dead (FaultPlan.Reports.not_dead (k.faults ▸ hr))

/-- On a device that does as it is asked, an append behind the last item leaves exactly its files.
-/
theorem Stands.append_reliable (h : Stands directory id c t d) {blobs : List Blob}
    (himage : t.image d = .ofBlobs blobs) (hf : d.faults = .reliable) (blob : Blob) :
    ∃ t' d', append blobs.length blob (t, d) = .ok () (t', d') ∧ Stands directory id c t' d' ∧
      t'.image d' = .ofBlobs (blobs ++ [blob]) ∧ d'.faults = d.faults := by
  have hitems : blobs.length ≤ t.items := by
    have hlen := congrArg (fun v => v.ends.length) himage
    exact Nat.le_of_eq (hlen.trans (length_endsOf blobs)).symm
  have hr : d.faults.Reports := hf ▸ FaultPlan.reports_reliable
  have hends := append_ends h.wired hr.serial hitems blob
  generalize append blobs.length blob (t, d) = r at hends
  cases hends with
  | @done _ p h' =>
    obtain ⟨hm, hnew, -⟩ := h'
    rw [himage, (TableImage.ofBlobs_begins List.prefix_rfl).extended_eq] at hnew
    exact ⟨p.1, p.2, rfl, h.of_moves hm, hnew, hm.disk.faults⟩
  | failed h' =>
    obtain ⟨-, -, -, change, -, i, stored, hfails⟩ := h'
    have hdone : d.faults i change = .done := by rw [hf]; rfl
    cases hdone.symm.trans hfails
  | lost dead h' =>
    exact absurd dead (FaultPlan.Reports.not_dead (h'.1.faults ▸ hr))

/-- **When the power is back, a table is opened with the blobs that its files tell.** -/
theorem Stands.reopens (h : Stands directory id c t d) {found : List Blob}
    (htold : told (d.bytes t.data) (d.bytes t.index) = .ok found) :
    ∃ t' d', openAt (Path.ofText directory) c d.restart = .ok t' d' ∧
      t'.image d' = .ofBlobs found := by
  have hshelf : Shelf directory id d.restart := (FileArchive.restart_free h.shelf).shelf
  have hdata : d.restart.stored ⟨id, c.dataName⟩ = d.bytes t.data :=
    Disk.stored_of_file h.located.data
  have hindex : d.restart.stored ⟨id, c.indexName⟩ = d.bytes t.index :=
    Disk.stored_of_file h.located.index
  have hfound : d.restart.told id c = .ok found :=
    Disk.told_eq_ok_iff.mpr (by rw [hdata, hindex, htold])
  have hopens := hshelf.openTable FaultPlan.reports_reliable.serial c
  generalize openAt (Path.ofText directory) c d.restart = r at hopens
  cases hopens with
  | @done t' d' hg _ =>
    obtain ⟨blobs, hblobs, himage⟩ := hg.image
    obtain rfl := Except.ok.inj (hfound.symm.trans hblobs)
    exact ⟨t', d', rfl, himage⟩
  | refused he _ =>
    rcases he with he | ⟨-, hnot⟩
    · rw [hfound] at he
      cases he
    · exact absurd FaultPlan.obliging_reliable hnot
  | lost dead k =>
    exact absurd dead (FaultPlan.Reports.not_dead (k.faults ▸ FaultPlan.reports_reliable))

end Stands

/-! ### The first table of the working directory -/

/-- The table that is opened there, if one is. -/
def opened? (d : Disk) : Option (Table × Disk) :=
  match openAt (Path.ofText ".") .hash d with
  | .ok t d => some (t, d)
  | .error _ _ => none

theorem openAt_of_opened? {t : Table} {d d' : Disk} (h : opened? d = some (t, d')) :
    openAt (Path.ofText ".") .hash d = .ok t d' := by
  unfold opened? at h
  split at h
  · next ho =>
    cases h
    exact ho
  · cases h

/-- The first item that is read of a table. -/
def first? (p : Table × Disk) : Option Blob :=
  match p.1.retrieve 0 p.2 with
  | .ok blob? _ => blob?
  | .error _ _ => none

end Table

end ColdArchive
