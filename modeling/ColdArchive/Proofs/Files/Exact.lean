import ColdArchive.Proofs.Files.Recovery

/-!
# Archives under a limit on file sizes

Where nothing fails but what outgrows the limit, the files stay exactly those of the committed
blobs: an append that does not fit is taken back from all tables, and whether it fits is a matter
of the sizes alone.
-/

namespace ColdArchive

/-- The record can be added to files of these blobs under a limit. A blob without bytes asks for
no room in its data file. -/
def Record.Fits (record : Record) (limit : Nat) (blobs : ByCategory (List Blob)) : Prop :=
  ∀ c ∈ Category.all,
    (record.get c = [] ∨ blobBytes (blobs.get c) + (record.get c).length ≤ limit) ∧
      Table.entrySize * ((blobs.get c).length + 1) ≤ limit

instance (record : Record) (limit : Nat) (blobs : ByCategory (List Blob)) :
    Decidable (record.Fits limit blobs) := inferInstanceAs (Decidable (∀ _ ∈ _, _))

/-- The blobs with those of a record behind them. -/
def ByCategory.push (blobs : ByCategory (List Blob)) (record : Record) : ByCategory (List Blob) :=
  ByCategory.ofFn fun c => blobs.get c ++ [record.get c]

/-- Files of a record that fits are no longer than the limit allows. -/
theorem Record.Fits.sized {record : Record} {limit bound : Nat} {blobs : ByCategory (List Blob)}
    (h : record.Fits limit blobs) (hb : limit ≤ bound)
    (hs : ∀ c, blobBytes (blobs.get c) ≤ bound) (c : Category) :
    blobBytes ((blobs.push record).get c) ≤ bound := by
  have hlast : blobBytes [record.get c] = (record.get c).length := rfl
  rw [ByCategory.push, ByCategory.get_ofFn, Table.blobBytes_append, hlast]
  rcases (h c (Category.mem_all c)).1 with hempty | hroom
  · rw [hempty]
    exact hs c
  · omega

namespace TableImage

variable {limit : Nat} {blobs : List Blob} {blob : Blob}

/-- The changes that extend a table of blobs under a limit: none is refused if both files have
room, and none that is done goes past it. -/
theorem extendChanges_ofBlobs (blobs : List Blob) (blob : Blob) {change : Change}
    (h : change ∈ (ofBlobs blobs).extendChanges blobs.length blob) :
    (∃ n, change = .resize n n) ∨
      blob ≠ [] ∧ change = .write (blobBytes blobs) blob.length ∨
      change = .write (Table.entrySize * blobs.length) Table.entrySize := by
  have hd : (ofBlobs blobs).data.length = blobBytes blobs := Table.length_flatten blobs
  have hi : (ofBlobs blobs).index.length = Table.entrySize * blobs.length := by
    rw [ofBlobs, Table.length_indexOf, Table.length_endsOf]
  have he : Table.startOf (ofBlobs blobs).ends blobs.length = blobBytes blobs :=
    Table.startOf_endsOf_length blobs
  have hl : ∀ stop, (littleEndian stop).length = Table.entrySize := littleEndian_length
  simp only [extendChanges, Disk.rewrites, Disk.writes, hd, hi, he, List.mem_append,
    List.mem_cons] at h
  rcases h with (rfl | h) | (rfl | h)
  · exact .inl ⟨_, rfl⟩
  · split at h
    · cases h
    · next hne => exact .inr (.inl ⟨hne, List.mem_singleton.mp h⟩)
  · exact .inl ⟨_, rfl⟩
  · split at h
    · cases h
    · rw [hl] at h
      exact .inr (.inr (List.mem_singleton.mp h))

theorem write_mem_extendChanges (blobs : List Blob) (blob : Blob) :
    (blob ≠ [] → Change.write (blobBytes blobs) blob.length ∈
      (ofBlobs blobs).extendChanges blobs.length blob) ∧
    Change.write (Table.entrySize * blobs.length) Table.entrySize ∈
      (ofBlobs blobs).extendChanges blobs.length blob := by
  have he : Table.startOf (ofBlobs blobs).ends blobs.length = blobBytes blobs :=
    Table.startOf_endsOf_length blobs
  have hl : ∀ stop, (littleEndian stop).length = Table.entrySize := littleEndian_length
  have hne : ∀ stop, littleEndian stop ≠ [] := by
    intro stop hn
    have := hl stop
    rw [hn] at this
    cases this
  constructor
  · intro hb
    simp [extendChanges, Disk.rewrites, Disk.writes, he, hb]
  · simp [extendChanges, Disk.rewrites, Disk.writes, he, hne, hl]

end TableImage

/-- All blobs are committed, and the tables have them in hand. Something else may stand behind them
in the files. -/
structure FileState.Trails (s : FileState) (blobs : ByCategory (List Blob)) : Prop where
  ends : ∀ c, (s.image c).ends = Table.endsOf (blobs.get c)
  begins : ∀ c, (s.image c).Begins (blobs.get c)
  length : ∀ c, (blobs.get c).length = s.frozen

theorem FileState.Exact.trails {s : FileState} {blobs : ByCategory (List Blob)}
    (h : s.Exact blobs) : s.Trails blobs := by
  refine ⟨?_, ?_, h.length⟩
  · intro c
    rw [h.image c]
    rfl
  · intro c
    rw [h.image c]
    exact TableImage.ofBlobs_begins List.prefix_rfl

namespace FileM

open FileState

variable {s : FileState} {limit : Nat} {blobs : ByCategory (List Blob)}

theorem fits_of_accepted {record : Record}
    (h : ∀ c, ∀ change ∈ (TableImage.ofBlobs (blobs.get c)).extendChanges (blobs.get c).length
      (record.get c), (FaultPlan.capped limit).Accepts change) : record.Fits limit blobs := by
  intro c _
  obtain ⟨hdata, hindex⟩ := TableImage.write_mem_extendChanges (blobs.get c) (record.get c)
  refine ⟨?_, FaultPlan.accepts_write_capped.mp (h c _ hindex)⟩
  by_cases hb : record.get c = []
  · exact .inl hb
  · exact .inr (FaultPlan.accepts_write_capped.mp (h c _ (hdata hb)))

theorem not_fits_of_refused {record : Record} {c : Category} {change : Change}
    (hc : change ∈ (TableImage.ofBlobs (blobs.get c)).extendChanges (blobs.get c).length
      (record.get c)) (hr : (FaultPlan.capped limit).Refuses change) :
    ¬ record.Fits limit blobs := by
  intro hfit
  obtain ⟨hdata, hindex⟩ := hfit c (Category.mem_all c)
  rcases TableImage.extendChanges_ofBlobs _ _ hc with ⟨n, rfl⟩ | ⟨hb, rfl⟩ | rfl
  · exact FaultPlan.not_refuses_cut (FaultPlan.obliging_capped limit) (Nat.le_refl n) hr
  · rcases hdata with hempty | hroom
    · exact hb hempty
    · exact FaultPlan.not_refuses_write_capped hroom hr
  · exact FaultPlan.not_refuses_write_capped hindex hr

/-- **An append adds the record or changes nothing** on an obliging device: the device took all
changes for the record, or refused one of them. -/
theorem append_obliging (hw : s.Wired) (hr : s.disk.faults.Reports) (hp : s.disk.faults.Obliging)
    (he : s.Exact blobs) (record : Record) :
    ∃ s', s.Follows s' ∧
      ((append s.frozen record s = .ok () s' ∧ s'.Exact (blobs.push record) ∧
        ∀ c, ∀ change ∈ (TableImage.ofBlobs (blobs.get c)).extendChanges (blobs.get c).length
          (record.get c), s.disk.faults.Accepts change) ∨
      (append s.frozen record s = .error (.io .tooLarge) s' ∧ s'.Exact blobs ∧
        ∃ c, ∃ change ∈ (TableImage.ofBlobs (blobs.get c)).extendChanges (blobs.get c).length
          (record.get c), s.disk.faults.Refuses change)) := by
  have hbegin : ∀ c, (s.image c).Begins (blobs.get c) := by
    intro c
    rw [he.image c]
    exact TableImage.ofBlobs_begins List.prefix_rfl
  have hends := append_ends hw hr.serial
    (fun c => by rw [← he.length c]; exact (hbegin c).length_le) record
  generalize append s.frozen record s = r at hends
  cases hends with
  | done h =>
    obtain ⟨s₁, hs₁, rfl⟩ := h
    refine ⟨{ s₁ with frozen := s.frozen + 1 }, ⟨hs₁.wiring, hs₁.disk⟩, .inl ⟨rfl, ⟨?_, ?_⟩, ?_⟩⟩
    · intro c
      have := hs₁.image c
      rw [if_pos (Category.mem_all c), ← he.length c, (hbegin c).extended_eq] at this
      rw [ByCategory.push, ByCategory.get_ofFn]
      exact this
    · intro c
      rw [ByCategory.push, ByCategory.get_ofFn, List.length_append, he.length c]
      rfl
    · intro c
      have := hs₁.accepted c (Category.mem_all c)
      rwa [he.image c, ← he.length c] at this
  | failed h =>
    obtain ⟨cs, s₁, hs₁, rfl⟩ := h
    obtain ⟨c, change, hc, hx⟩ := hs₁.refused
    rw [he.image c, ← he.length c] at hc
    have hfaults : s₁.disk.faults = s.disk.faults := hs₁.disk.faults
    obtain ⟨s₂, hs₂, hf₂, hz₂, hi₂⟩ := cutTables_begins (hw.of_follows hs₁.toFollows)
      (hfaults ▸ hr) (hfaults ▸ hp) blobs
      (fun c => (hbegin c).of_extendStage (he.length c ▸ hs₁.stage c)) he.length cs
    rw [hs₂]
    refine ⟨s₂, hs₁.toFollows.trans hf₂, .inr ⟨rfl, ⟨?_, ?_⟩, c, change, hc, hx⟩⟩
    · intro c
      rw [hi₂ c]
      split
      · rfl
      · next hc => rw [hs₁.rest c hc, he.image c]
    · intro c
      rw [hz₂, hs₁.frozen]
      exact he.length c
  | lost dead h => exact absurd dead (FaultPlan.Reports.not_dead (h.disk.faults ▸ hr))

/-- **An append succeeds exactly if the record fits**, and otherwise nothing has changed. -/
theorem append_exact (hw : s.Wired) (hl : s.disk.faults = .capped limit) (he : s.Exact blobs)
    (record : Record) :
    ∃ s', s.Follows s' ∧
      append s.frozen record s =
        (if record.Fits limit blobs then .ok () s' else .error (.io .tooLarge) s') ∧
      s'.Exact (if record.Fits limit blobs then blobs.push record else blobs) := by
  obtain ⟨s', hf, ⟨ha, he', hc⟩ | ⟨ha, he', c, change, hc, hx⟩⟩ := append_obliging hw
    (hl ▸ FaultPlan.reports_capped limit) (hl ▸ FaultPlan.obliging_capped limit) he record
  · have hfit : record.Fits limit blobs := fits_of_accepted (hl ▸ hc)
    exact ⟨s', hf, by rw [if_pos hfit, ha], by rw [if_pos hfit]; exact he'⟩
  · have hfit := not_fits_of_refused hc (hl ▸ hx)
    exact ⟨s', hf, by rw [if_neg hfit, ha], by rw [if_neg hfit]; exact he'⟩

/-- **A truncation keeps the first blobs** and nothing behind them. -/
theorem truncate_trailing (hw : s.Wired) (hr : s.disk.faults.Reports)
    (hp : s.disk.faults.Obliging) (ht : s.Trails blobs) {target : Nat} (hle : target ≤ s.frozen) :
    ∃ s', truncate target s = .ok () s' ∧ s.Follows s' ∧
      s'.Exact (blobs.map (List.take target)) := by
  have hlen : ∀ c, ((blobs.map (List.take target)).get c).length = target := by
    intro c
    rw [ByCategory.get_map, List.length_take, ht.length c, Nat.min_eq_left hle]
  have hbegin : ∀ c, (s.image c).Begins ((blobs.map (List.take target)).get c) := by
    intro c
    rw [ByCategory.get_map]
    exact (ht.begins c).take target
  obtain ⟨s', hs', hf, hz, hi⟩ := cutTables_begins (s := { s with frozen := target })
    ⟨hw.table, hw.apart⟩ hr hp (blobs.map (List.take target)) hbegin hlen Category.all
  refine ⟨s', by rw [truncate_eq hle, hs'], ⟨hf.wiring, hf.disk⟩, ?_, ?_⟩
  · intro c
    rw [hi c, if_pos (Category.mem_all c)]
  · intro c
    rw [hz, hlen c]

/-- A read answers what the blobs have. -/
theorem read_trailing (ht : s.Trails blobs) (c : Category) (number : Nat) :
    read c number s =
      match (blobs.get c)[number]? with
      | some blob => .ok blob s
      | none => .error (.notFound c number s.frozen) s := by
  cases hb : (blobs.get c)[number]? with
  | some blob =>
    have hn : number < s.frozen := by
      rw [← ht.length c]
      exact (List.getElem?_eq_some_iff.mp hb).1
    exact read_blob (ht.ends c) (ht.begins c).data hn hb
  | none =>
    apply read_of_le
    rw [← ht.length c]
    exact List.getElem?_eq_none_iff.mp hb

theorem sizeAt_trailing (ht : s.Trails blobs) (c : Category) :
    (s.tables.get c).sizeAt s.frozen = blobBytes (blobs.get c) := by
  have hends : (s.tables.get c).ends = Table.endsOf (blobs.get c) := ht.ends c
  rw [Table.sizeAt, Table.items, hends, Table.length_endsOf, ← ht.length c, Nat.min_self,
    Table.startOf_endsOf_length]

end FileM

end ColdArchive
