import ColdArchive.Proofs.Files.Exact

/-!
# Opening a directory of any files

The ten files of a directory may hold any bytes. Opening it is refused if an index goes backwards,
and otherwise gives the items that all categories have. Nothing that happens to an opening changes
what the next one shows: all of them show what is found.
-/

namespace ColdArchive

/-! ### The items of any files -/

namespace Disk

/-- The whole entries in the index of a category. -/
def entries (d : Disk) (id : DirectoryId) (c : Category) : List Nat :=
  Table.entries (d.stored ⟨id, c.indexName⟩)

/-- How many of the entries the data of the category reach. -/
def items (d : Disk) (id : DirectoryId) (c : Category) : Nat :=
  (d.entries id c).countP fun e => decide (e ≤ (d.stored ⟨id, c.dataName⟩).length)

/-- The bytes of the data of a category from where an item starts up to `stop`. -/
def item (d : Disk) (id : DirectoryId) (c : Category) (n stop : Nat) : Bytes :=
  let start := Table.startOf (d.entries id c) n
  ((d.stored ⟨id, c.dataName⟩).drop start).take (stop - start)

section Items

variable {d : Disk} {id : DirectoryId} {c : Category} {e : StoreError}
  {tables : ByCategory (List Blob)}

/-- **A category is told exactly if its entries are in order.** -/
theorem told_ok_iff : (∃ blobs, d.told id c = .ok blobs) ↔ (d.entries id c).Pairwise (· ≤ ·) := by
  rw [entries, ← Table.inOrder_iff]
  constructor
  · rintro ⟨blobs, h⟩
    exact (Table.told_eq_ok_iff.mp (told_eq_ok_iff.mp h)).1
  · intro h
    exact ⟨_, told_eq_ok_iff.mpr (Table.told_eq_ok_iff.mpr ⟨h, rfl⟩)⟩

theorem tables_ok_iff :
    (∃ tables, d.tables id = .ok tables) ↔ ∀ c, (d.entries id c).Pairwise (· ≤ ·) := by
  constructor
  · rintro ⟨tables, h⟩ c
    exact told_ok_iff.mp ⟨_, tables_eq_ok_iff.mp h c⟩
  · intro h
    obtain ⟨tables, ht⟩ := ByCategory.exists_forall fun c => told_ok_iff.mpr (h c)
    exact ⟨tables, tables_of_told ht⟩

/-- A refusal for what the files tell is that of a damaged archive. -/
theorem corrupted_of_told (h : d.told id c = .error e) : ∃ what, e = .corrupted what := by
  unfold told at h
  split at h
  · exact ⟨_, (Except.error.inj h).symm⟩
  · cases h

theorem corrupted_of_found (h : d.found id = .error e) : ∃ what, e = .corrupted what := by
  unfold found at h
  cases ht : d.tables id with
  | ok tables =>
    rw [ht] at h
    cases h
  | error e' =>
    rw [ht] at h
    obtain ⟨c, hc⟩ := told_of_tables_error ht
    rw [← Except.error.inj h]
    exact corrupted_of_told hc

theorem found_ok_iff :
    (∃ blobs, d.found id = .ok blobs) ↔ ∀ c, (d.entries id c).Pairwise (· ≤ ·) := by
  rw [← tables_ok_iff, found]
  cases d.tables id with
  | ok tables => exact iff_of_true ⟨_, rfl⟩ ⟨_, rfl⟩
  | error e =>
    constructor
    · rintro ⟨_, h⟩
      cases h
    · rintro ⟨_, h⟩
      cases h

/-- The count of what is found is the least of the item counts. -/
theorem least_of_tables (h : d.tables id = .ok tables) :
    (tables.map List.length).least = (ByCategory.ofFn (d.items id)).least := by
  congr 1
  apply ByCategory.ext
  intro c
  rw [ByCategory.get_map, ByCategory.get_ofFn]
  exact Table.length_of_told (told_eq_ok_iff.mp (tables_eq_ok_iff.mp h c))

/-- **What is found, by the bytes of the files**: the items of every category up to the least count
are the stretches between the entries, and their files are the first bytes of the files. -/
theorem found_items {blobs : ByCategory (List Blob)} (h : d.found id = .ok blobs) (c : Category) :
    let n := (ByCategory.ofFn (d.items id)).least
    (blobs.get c).length = n ∧
      TableImage.ofBlobs (blobs.get c) = ⟨(d.entries id c).take n,
        (d.stored ⟨id, c.dataName⟩).take (Table.startOf (d.entries id c) n),
        (d.stored ⟨id, c.indexName⟩).take (Table.entrySize * n)⟩ ∧
      ∀ k, k < n → ∃ stop, (d.entries id c)[k]? = some stop ∧
        Table.startOf (d.entries id c) k ≤ stop ∧ stop ≤ (d.stored ⟨id, c.dataName⟩).length ∧
        (blobs.get c)[k]? = some (d.item id c k stop) := by
  intro n
  cases ht : d.tables id with
  | error e =>
    rw [found, ht] at h
    cases h
  | ok tables =>
    obtain rfl := Except.ok.inj ((found_of_tables ht).symm.trans h)
    have hn : (tables.map List.length).least = n := least_of_tables ht
    have htold := told_eq_ok_iff.mp (tables_eq_ok_iff.mp ht c)
    have hle : n ≤ (tables.get c).length := by
      have := (tables.map List.length).least_le c
      rwa [hn, ByCategory.get_map] at this
    rw [tables.length_aligned, hn, ByCategory.aligned, ByCategory.get_map, hn]
    refine ⟨rfl, Table.take_of_told htold hle, ?_⟩
    intro k hk
    obtain ⟨stop, he, hstart, hstop, hb⟩ := Table.getElem?_of_told htold (Nat.lt_of_lt_of_le hk hle)
    exact ⟨stop, he, hstart, hstop, (List.getElem?_take_of_lt hk).trans hb⟩

end Items

end Disk

namespace FileArchive

/-! ### What an opening shows -/

/-- What can be seen of an opened archive: its count, the answers to all reads, and its files. -/
structure Showing where
  frozen : Nat
  read : Category → Nat → Outcome
  files : ByCategory (Bytes × Bytes)

/-- What an opening shows: the archive, or the refusal. -/
def showing (id : DirectoryId) :
    EStateM.Result StoreError Disk FileArchive → Except StoreError Showing
  | .error e _ => .error e
  | .ok a d => .ok {
      frozen := a.frozen
      read := fun c n => (a.perform d 0 .background (.read c n)).1
      files := .ofFn fun c => (d.stored ⟨id, c.dataName⟩, d.stored ⟨id, c.indexName⟩) }

/-- What an archive of these blobs shows. -/
def Showing.ofBlobs (blobs : ByCategory (List Blob)) : Showing where
  frozen := (blobs.map List.length).least
  read := fun c n =>
    match (blobs.get c)[n]? with
    | some blob => .ok (.blob blob)
    | none => .error (.notFound c n (blobs.map List.length).least)
  files := blobs.map fun bs => (bs.flatten, Table.indexOf (Table.endsOf bs))

section Showing

variable {a : FileArchive} {o : OpenTables} {directory : String} {id : DirectoryId} {d d' : Disk}
  {blobs : ByCategory (List Blob)}

/-- The answer to a read of an archive that has exactly the blobs. -/
theorem Stands.read_eq (h : a.Stands id o d) (he : (a.state o d).Exact blobs) {now : Instant}
    {ctx : Context} (hl : ctx.IsLive now) (c : Category) (n : Nat) :
    (a.perform d now ctx (.read c n)).1 =
      match (blobs.get c)[n]? with
      | some blob => .ok (.blob blob)
      | none => .error (.notFound c n a.frozen) := by
  rw [perform_of_live hl (by simp), work_eq h.opened]
  simp only [FileM.perform, bind_apply, FileM.read_trailing he.trails]
  cases (blobs.get c)[n]? <;> rfl

/-- The files of an archive that has exactly the blobs. -/
theorem Stands.stored_eq (h : a.Stands id o d) (he : (a.state o d).Exact blobs) (c : Category) :
    d.stored ⟨id, c.dataName⟩ = (blobs.get c).flatten ∧
      d.stored ⟨id, c.indexName⟩ = Table.indexOf (Table.endsOf (blobs.get c)) := by
  have hi := he.image c
  have hl := (h.located c).image_eq
  rw [show (a.state o d).image c = (o.tables.get c).image d from rfl, hl] at hi
  exact ⟨congrArg TableImage.data hi, congrArg TableImage.index hi⟩

theorem Stands.showing_eq (h : a.Stands id o d) (he : (a.state o d).Exact blobs) :
    showing id (.ok a d) = .ok (.ofBlobs blobs) := by
  have hfrozen : a.frozen = (blobs.map List.length).least :=
    (ByCategory.least_of_length he.length).symm
  simp only [showing, Showing.ofBlobs]
  congr 2
  · funext c n
    rw [h.read_eq he (Context.isLive_background 0), hfrozen]
  · apply ByCategory.ext
    intro c
    rw [ByCategory.get_ofFn, ByCategory.get_map, (h.stored_eq he c).1, (h.stored_eq he c).2]

/-- **What an opening shows is what is found.** -/
theorem Free.showing_eq (h : Free directory id d) (hr : d.faults.Reports)
    (hp : d.faults.Obliging) :
    showing id (openAt directory d) = (d.found id).map Showing.ofBlobs := by
  rcases h.openAt_eq_found hr hp with ⟨e, d', hf, ho⟩ | ⟨_, a, o, d', hf, ho, -, hs, he, -⟩
  · rw [ho, hf]
    rfl
  · rw [ho, hf, hs.showing_eq he]
    rfl

/-- **Directories of which the same is found show the same.** -/
theorem Free.showing_congr (h : Free directory id d) (hr : d.faults.Reports)
    (hp : d.faults.Obliging) (h' : Free directory id d') (hr' : d'.faults.Reports)
    (hp' : d'.faults.Obliging) (hf : d'.found id = d.found id) :
    showing id (openAt directory d') = showing id (openAt directory d) := by
  rw [h'.showing_eq hr' hp', h.showing_eq hr hp, hf]

/-! ### This opening -/

/-- **A directory is refused as damaged exactly if some index goes backwards.** -/
theorem Free.corrupted_iff (h : Free directory id d) (hr : d.faults.Reports)
    (hp : d.faults.Obliging) :
    (∃ what d', openAt directory d = .error (.corrupted what) d') ↔
      ∃ c, ¬ (d.entries id c).Pairwise (· ≤ ·) := by
  rw [← Classical.not_forall, ← Disk.found_ok_iff]
  rcases h.openAt_eq_found hr hp with ⟨e, d', hf, ho⟩ | ⟨blobs, a, o, d', hf, ho, -⟩
  · obtain ⟨what, rfl⟩ := Disk.corrupted_of_found hf
    refine iff_of_true ⟨what, d', ho⟩ ?_
    rintro ⟨blobs, hb⟩
    rw [hb] at hf
    cases hf
  · refine iff_of_false ?_ (not_not_intro ⟨blobs, hf⟩)
    rintro ⟨what, d'', he⟩
    rw [ho] at he
    cases he

/-- **A directory of which no index goes backwards is opened**, with the items between the
entries. -/
theorem Free.opens_of_inOrder (h : Free directory id d) (hr : d.faults.Reports)
    (hp : d.faults.Obliging) (hall : ∀ c, (d.entries id c).Pairwise (· ≤ ·)) :
    ∃ a o d', openAt directory d = .ok a d' ∧ a.Stands id o d' ∧
      a.frozen = (ByCategory.ofFn (d.items id)).least ∧
      ∀ c, (∀ n, n < a.frozen → ∃ stop, (d.entries id c)[n]? = some stop ∧
          Table.startOf (d.entries id c) n ≤ stop ∧ stop ≤ (d.stored ⟨id, c.dataName⟩).length ∧
          ∀ now ctx, Context.IsLive ctx now →
            (a.perform d' now ctx (.read c n)).1 = .ok (.blob (d.item id c n stop))) ∧
        (o.tables.get c).ends = (d.entries id c).take a.frozen ∧
        d'.stored ⟨id, c.indexName⟩ =
          (d.stored ⟨id, c.indexName⟩).take (Table.entrySize * a.frozen) ∧
        d'.stored ⟨id, c.dataName⟩ =
          (d.stored ⟨id, c.dataName⟩).take (Table.startOf (d.entries id c) a.frozen) := by
  obtain ⟨blobs, hfound⟩ := Disk.found_ok_iff.mpr hall
  rcases h.openAt_eq_found hr hp with ⟨e, d', hf, -⟩ | ⟨blobs', a, o, d', hf, ho, -, hs, he, -⟩
  · rw [hfound] at hf
    cases hf
  obtain rfl := Except.ok.inj (hfound.symm.trans hf)
  have hfrozen : a.frozen = (ByCategory.ofFn (d.items id)).least :=
    (he.length .hash).symm.trans (Disk.found_items hfound .hash).1
  refine ⟨a, o, d', ho, hs, hfrozen, ?_⟩
  intro c
  obtain ⟨-, himage, hitem⟩ := Disk.found_items hfound c
  have hi := (he.image c).trans himage
  obtain ⟨hdata, hindex⟩ := hs.stored_eq he c
  rw [← hfrozen] at himage hitem hi
  refine ⟨fun n hn => ?_, congrArg TableImage.ends hi, ?_, ?_⟩
  · obtain ⟨stop, hstop, hstart, hle, hb⟩ := hitem n hn
    refine ⟨stop, hstop, hstart, hle, ?_⟩
    intro now ctx hl
    rw [hs.read_eq he hl, hb]
  · exact hindex.trans (congrArg TableImage.index himage)
  · exact hdata.trans (congrArg TableImage.data himage)

end Showing

/-- No table is opened with less than what is taken from it. -/
theorem openTable_enough {directory : String} {id : DirectoryId} {d d' : Disk}
    (h : Shelf directory id d) (hr : d.faults.Reports) {c : Category} {t : Table}
    (ho : Table.openAt (Path.ofText directory) c d = .ok t d') :
    Table.entrySize * t.items ≤ (d.stored ⟨id, c.indexName⟩).length ∧
      Table.startOf t.ends t.items ≤ (d.stored ⟨id, c.dataName⟩).length ∧
      ∀ n stop, t.ends[n]? = some stop → Table.startOf t.ends n ≤ stop := by
  have hres := h.openTable hr.serial c
  rw [ho] at hres
  cases hres with
  | lost dead k => exact absurd dead (FaultPlan.Reports.not_dead (k.faults ▸ hr))
  | done hd k =>
    obtain ⟨blobs, hb, hi⟩ := hd.image
    have hends : t.ends = Table.endsOf blobs := congrArg TableImage.ends hi
    have hbegin := Table.begins_of_told (Disk.told_eq_ok_iff.mp hb)
    have hil := hbegin.index.length_le
    have hdl := hbegin.data.length_le
    rw [Table.length_indexOf] at hil
    rw [Table.length_flatten] at hdl
    rw [Table.items, hends]
    refine ⟨hil, ?_, ?_⟩
    · rw [Table.length_endsOf, Table.startOf_endsOf_length]
      exact hdl
    · intro n stop hstop
      obtain ⟨b, -, hb⟩ := Table.stop_of_endsOf hstop
      rw [hb]
      exact Nat.le_add_right _ _

section Showing

variable {a : FileArchive} {o : OpenTables} {directory : String} {id : DirectoryId} {d d' : Disk}
  {blobs : ByCategory (List Blob)}

/-! ### The next opening -/

/-- **Opening again shows the same.** -/
theorem Free.showing_again (h : Free directory id d) (hr : d.faults.Reports)
    (hp : d.faults.Obliging) (ho : openAt directory d = .ok a d') :
    showing id (openAt directory (a.release d').2) = showing id (openAt directory d) := by
  have hres := h.openAt_resolves hr.serial
  rw [ho] at hres
  cases hres with
  | done hd k =>
    obtain ⟨o, blobs, rfl, hf, hs, he⟩ := hd
    have hrel : (a.release d').2.faults = d'.faults := by
      simp only [release, hs.opened]
    have hfound : (a.release d').2.found id = d'.found id := by
      simp only [release, hs.opened]
      rfl
    exact h.showing_congr hr hp hs.release (hrel ▸ k.1.faults ▸ hr) (hrel ▸ k.1.faults ▸ hp)
      (hfound.trans k.2)
  | lost dead k => exact absurd dead (FaultPlan.Reports.not_dead (k.1.faults ▸ hr))

/-- **A refusal is given again.** -/
theorem Free.showing_refused (h : Free directory id d) (hr : d.faults.Reports)
    (hp : d.faults.Obliging) {e : StoreError} (ho : openAt directory d = .error e d') :
    showing id (openAt directory d') = showing id (openAt directory d) := by
  have hres := h.openAt_resolves hr.serial
  rw [ho] at hres
  cases hres with
  | refused he k =>
    exact h.showing_congr hr hp (h.of_tended k.1 he.2) (k.1.faults ▸ hr) (k.1.faults ▸ hp) k.2
  | lost dead k => exact absurd dead (FaultPlan.Reports.not_dead (k.1.faults ▸ hr))

/-- **An opening that is cut off makes no difference to the next one.** -/
theorem Free.showing_cut (h : Free directory id d) (hr : d.faults.Reports)
    (hp : d.faults.Obliging) (n stored : Nat) :
    showing id (openAt directory (finalState (openAt directory
        { d with faults := d.faults.cutAt n stored })).restart) =
      showing id (openAt directory d) := by
  have hk := ((h.withFaults (d.faults.cutAt n stored)).openAt_resolves
    (FaultPlan.serial_cutAt hr n stored)).final
  exact h.showing_congr hr hp (restart_free hk.1.shelf) FaultPlan.reports_reliable
    FaultPlan.obliging_reliable hk.2

end Showing

/-- **Recovery from any files.** The ten files may hold any bytes, and those that are missing are
empty. The directory is refused exactly if the entries of an index are not in order. Otherwise it is
opened with the least count of entries that the data reach, its items are the stretches of the data
between the entries, and its files are cut to them. No table has less than is taken from it, and
the next opening shows the same, whether this one succeeds, is refused or is cut off. -/
theorem openAt_recovers {directory : String} {id : DirectoryId} {d : Disk}
    (h : Free directory id d) (hr : d.faults.Reports) (hp : d.faults.Obliging) :
    ((∃ what d', openAt directory d = .error (.corrupted what) d') ↔
      ∃ c, ¬ (d.entries id c).Pairwise (· ≤ ·)) ∧
    ((∀ c, (d.entries id c).Pairwise (· ≤ ·)) → ∃ a o d', openAt directory d = .ok a d' ∧
      a.opened = some o ∧ a.frozen = (ByCategory.ofFn (d.items id)).least ∧
      ∀ c, (∀ n, n < a.frozen → ∃ stop, (d.entries id c)[n]? = some stop ∧
          Table.startOf (d.entries id c) n ≤ stop ∧ stop ≤ (d.stored ⟨id, c.dataName⟩).length ∧
          ∀ now ctx, Context.IsLive ctx now →
            (a.perform d' now ctx (.read c n)).1 = .ok (.blob (d.item id c n stop))) ∧
        (o.tables.get c).ends = (d.entries id c).take a.frozen ∧
        d'.stored ⟨id, c.indexName⟩ =
          (d.stored ⟨id, c.indexName⟩).take (Table.entrySize * a.frozen) ∧
        d'.stored ⟨id, c.dataName⟩ =
          (d.stored ⟨id, c.dataName⟩).take (Table.startOf (d.entries id c) a.frozen)) ∧
    (∀ d₁, Shelf directory id d₁ → d₁.faults = d.faults → ∀ c t d₂,
      Table.openAt (Path.ofText directory) c d₁ = .ok t d₂ →
      Table.entrySize * t.items ≤ (d₁.stored ⟨id, c.indexName⟩).length ∧
      Table.startOf t.ends t.items ≤ (d₁.stored ⟨id, c.dataName⟩).length ∧
      ∀ n stop, t.ends[n]? = some stop → Table.startOf t.ends n ≤ stop) ∧
    (∀ a d', openAt directory d = .ok a d' →
      showing id (openAt directory (a.release d').2) = showing id (openAt directory d)) ∧
    (∀ e d', openAt directory d = .error e d' →
      showing id (openAt directory d') = showing id (openAt directory d)) ∧
    ∀ n stored, showing id (openAt directory (finalState (openAt directory
        { d with faults := d.faults.cutAt n stored })).restart) =
      showing id (openAt directory d) := by
  refine ⟨h.corrupted_iff hr hp, fun hall => ?_, fun d₁ h₁ hf c t d₂ ho => ?_,
    fun a d' => h.showing_again hr hp, fun e d' => h.showing_refused hr hp, h.showing_cut hr hp⟩
  · obtain ⟨a, o, d', ho, hs, hfrozen, hitems⟩ := h.opens_of_inOrder hr hp hall
    exact ⟨a, o, d', ho, hs.opened, hfrozen, hitems⟩
  · exact openTable_enough h₁ (hf ▸ hr) ho

/-- A directory with a torn entry, an entry past the data, data without an entry, items without
bytes, and categories of different lengths. -/
def strewn : Disk :=
  { Disk.empty with
    tree := Category.all.flatMap fun c =>
      [(⟨0, c.indexName⟩, .file (2 * c.index)), (⟨0, c.dataName⟩, .file (2 * c.index + 1))]
    contents :=
      [.bytes (Table.indexOf [2, 5] ++ [9, 0, 0]) .empty, .bytes [1, 2, 3, 4, 5, 6] .empty,
        .bytes (Table.indexOf [1, 9]) .empty, .bytes [7, 7, 7, 7] .empty,
        .bytes (Table.indexOf [0, 0]) .empty, .empty,
        .bytes (Table.indexOf [3, 4, 4]) .empty, .bytes [1, 1, 1, 1] .empty,
        .bytes (Table.indexOf [1, 2]) .empty, .bytes [1, 2] .empty] }

theorem free_strewn : Free "." 0 strewn := by
  refine ⟨⟨rfl, by decide, ?_, ?_⟩, fun _ _ => List.not_mem_nil,
    fun _ hm => absurd hm List.not_mem_nil⟩
  · have hfound : ∀ name ∈ names, strewn.find? ⟨0, name⟩ = none ∨
        ∃ f ∈ List.range 10, strewn.find? ⟨0, name⟩ = some (.file f) := by decide
    intro name hn
    exact (hfound name hn).imp_right fun ⟨f, hf, h⟩ => ⟨f, List.mem_range.mp hf, h⟩
  · have hapart : ∀ name ∈ names, ∀ name' ∈ names,
        strewn.find? ⟨0, name⟩ = strewn.find? ⟨0, name'⟩ →
        strewn.find? ⟨0, name⟩ = none ∨ name = name' := by decide
    intro name hn name' hn' f h h'
    rcases hapart name hn name' hn' (h.trans h'.symm) with hnone | he
    · rw [hnone] at h
      cases h
    · exact he

theorem openAt_recovers_strewn :
    ∃ a o d', openAt "." strewn = .ok a d' ∧ a.opened = some o ∧ a.frozen = 1 ∧
      (a.perform d' 0 .background (.read .hash 0)).1 = .ok (.blob [1, 2]) ∧
      d'.stored ⟨0, "hash.idx"⟩ = [2, 0, 0, 0, 0, 0, 0, 0] ∧ d'.stored ⟨0, "hash.dat"⟩ = [1, 2] ∧
      showing 0 (openAt "." (a.release d').2) = showing 0 (openAt "." strewn) := by
  obtain ⟨-, hopen, -, hagain, -⟩ := openAt_recovers free_strewn FaultPlan.reports_reliable
    FaultPlan.obliging_reliable
  obtain ⟨a, o, d', ho, hopened, hfrozen, hc⟩ := hopen fun c => by cases c <;> decide
  have hone : a.frozen = 1 := hfrozen.trans (by decide)
  obtain ⟨hitem, -, hindex, hdata⟩ := hc .hash
  rw [hone] at hitem hindex hdata
  obtain ⟨stop, hstop, -, -, hread⟩ := hitem 0 (by decide)
  obtain rfl : 2 = stop := Option.some.inj (Eq.trans (by decide) hstop)
  refine ⟨a, o, d', ho, hopened, hone, ?_, hindex.trans (by decide), hdata.trans (by decide),
    hagain a d' ho⟩
  rw [hread 0 .background (Context.isLive_background 0)]
  exact congrArg (fun b => Except.ok (Reply.blob b)) (by decide)

end FileArchive

end ColdArchive
