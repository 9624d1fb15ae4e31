import ColdArchive.Proofs.Files.Opening

/-!
# What an opened archive holds

Files that hold a list of blobs per category are opened as the tables of these blobs, cut to the
shortest list. `FileArchive.Stands` collects what stays true of a handle while it is used, and what
its release and the next opening start from.
-/

namespace ColdArchive

/-! ### The least of the counts -/

theorem foldl_min_le (ns : List Nat) (m : Nat) :
    ns.foldl min m ≤ m ∧ ∀ n ∈ ns, ns.foldl min m ≤ n := by
  induction ns generalizing m with
  | nil => exact ⟨Nat.le_refl _, fun n hn => by cases hn⟩
  | cons k ns ih =>
    obtain ⟨h, hrest⟩ := ih (min m k)
    rw [List.foldl_cons]
    refine ⟨by omega, ?_⟩
    intro n hn
    rcases List.mem_cons.mp hn with rfl | hn
    · omega
    · exact hrest n hn

theorem leastCount_le {n : Nat} {ns : List Nat} (h : n ∈ ns) : leastCount ns ≤ n := by
  cases ns with
  | nil => cases h
  | cons k ns =>
    obtain ⟨hk, hrest⟩ := foldl_min_le ns k
    rcases List.mem_cons.mp h with rfl | h
    · exact hk
    · exact hrest n h

theorem foldl_min_mem (ns : List Nat) (m : Nat) : ns.foldl min m ∈ m :: ns := by
  induction ns generalizing m with
  | nil => exact List.mem_singleton_self m
  | cons k ns ih =>
    rw [List.foldl_cons]
    have h := ih (min m k)
    rcases List.mem_cons.mp h with h | h
    · rcases Nat.le_total m k with hmk | hmk
      · rw [h, Nat.min_eq_left hmk]
        exact List.mem_cons_self ..
      · rw [h, Nat.min_eq_right hmk]
        exact List.mem_cons_of_mem _ (List.mem_cons_self ..)
    · exact List.mem_cons_of_mem _ (List.mem_cons_of_mem _ h)

namespace ByCategory

/-- The least count of five. -/
def least (counts : ByCategory Nat) : Nat := leastCount counts.toList

theorem get_mem_toList {α : Type} (v : ByCategory α) (c : Category) : v.get c ∈ v.toList :=
  List.mem_map.mpr ⟨c, Category.mem_all c, rfl⟩

theorem least_le (counts : ByCategory Nat) (c : Category) : counts.least ≤ counts.get c :=
  leastCount_le (get_mem_toList counts c)

theorem exists_get_eq_least (counts : ByCategory Nat) : ∃ c, counts.get c = counts.least := by
  have h : counts.least ∈ counts.toList :=
    foldl_min_mem [counts.header, counts.body, counts.receipts, counts.difficulty] counts.hash
  obtain ⟨c, -, hc⟩ := List.mem_map.mp h
  exact ⟨c, hc⟩

theorem least_eq {counts : ByCategory Nat} {n : Nat} (h : ∀ c, n ≤ counts.get c)
    (hn : ∃ c, counts.get c = n) : counts.least = n := by
  obtain ⟨c, hc⟩ := counts.exists_get_eq_least
  obtain ⟨c', hc'⟩ := hn
  exact Nat.le_antisymm (hc' ▸ counts.least_le c') (hc ▸ h c)

/-- Five choices are one choice of five. -/
theorem exists_forall {α : Type} {P : Category → α → Prop} (h : ∀ c, ∃ a, P c a) :
    ∃ v : ByCategory α, ∀ c, P c (v.get c) := by
  obtain ⟨v₁, h₁⟩ := h .hash
  obtain ⟨v₂, h₂⟩ := h .header
  obtain ⟨v₃, h₃⟩ := h .body
  obtain ⟨v₄, h₄⟩ := h .receipts
  obtain ⟨v₅, h₅⟩ := h .difficulty
  refine ⟨⟨v₁, v₂, v₃, v₄, v₅⟩, ?_⟩
  intro c
  cases c with
  | hash => exact h₁
  | header => exact h₂
  | body => exact h₃
  | receipts => exact h₄
  | difficulty => exact h₅

/-- The lists cut to the shortest of them. -/
def aligned {α : Type} (lists : ByCategory (List α)) : ByCategory (List α) :=
  lists.map (List.take (lists.map List.length).least)

theorem length_aligned {α : Type} (lists : ByCategory (List α)) (c : Category) :
    (lists.aligned.get c).length = (lists.map List.length).least := by
  have h := (lists.map List.length).least_le c
  rw [get_map] at h
  rw [aligned, get_map, List.length_take, Nat.min_eq_left h]

theorem least_of_length {α : Type} {lists : ByCategory (List α)} {n : Nat}
    (h : ∀ c, (lists.get c).length = n) : (lists.map List.length).least = n :=
  least_eq (fun c => Nat.le_of_eq (by rw [get_map, h c]))
    ⟨.hash, by rw [get_map, h .hash]⟩

theorem aligned_of_length {α : Type} {lists : ByCategory (List α)} {n : Nat}
    (h : ∀ c, (lists.get c).length = n) : lists.aligned = lists := by
  apply ext
  intro c
  rw [aligned, least_of_length h, get_map, ← h c, List.take_length]

end ByCategory

/-- Lists of which some were cut to the shortest of them are aligned to the same lists. -/
theorem ByCategory.aligned_eq_of_cut {α : Type} {lists lists' : ByCategory (List α)}
    (h : ∀ c, lists'.get c = lists.get c ∨
      lists'.get c = (lists.get c).take (lists.map List.length).least) :
    lists'.aligned = lists.aligned := by
  have least : ∀ c, (lists.map List.length).least ≤ (lists.get c).length := fun c => by
    have := (lists.map List.length).least_le c
    rwa [get_map] at this
  have hleast : (lists'.map List.length).least = (lists.map List.length).least := by
    apply least_eq
    · intro c
      have hl := least c
      rw [get_map]
      rcases h c with h | h <;> rw [h]
      · exact hl
      · rw [List.length_take]
        omega
    · obtain ⟨c, hc⟩ := (lists.map List.length).exists_get_eq_least
      refine ⟨c, ?_⟩
      rw [get_map] at hc ⊢
      rcases h c with h | h <;> rw [h]
      · exact hc
      · rw [List.length_take, hc, Nat.min_self]
  apply ext
  intro c
  rw [aligned, aligned, get_map, get_map, hleast]
  rcases h c with h | h <;> rw [h]
  rw [List.take_take, Nat.min_self]

/-! ### Cutting to blobs -/

/-- The files are exactly those of the blobs, and all blobs are committed. -/
structure FileState.Exact (s : FileState) (blobs : ByCategory (List Blob)) : Prop where
  image : ∀ c, s.image c = .ofBlobs (blobs.get c)
  length : ∀ c, (blobs.get c).length = s.frozen

namespace FileM

open FileState

variable {s : FileState}

/-- **Tables that begin with blobs are cut to them** on an obliging device. -/
theorem cutTables_begins (hw : s.Wired) (hr : s.disk.faults.Reports) (hp : s.disk.faults.Obliging)
    (blobs : ByCategory (List Blob)) {n : Nat} (hb : ∀ c, (s.image c).Begins (blobs.get c))
    (hn : ∀ c, (blobs.get c).length = n) (cs : List Category) :
    ∃ s', cutTables n cs s = .ok () s' ∧ s.Follows s' ∧ s'.frozen = s.frozen ∧
      ∀ c, s'.image c = if c ∈ cs then .ofBlobs (blobs.get c) else s.image c := by
  have he := cutTables_ends hw hr.serial n cs
  generalize cutTables n cs s = r at he
  cases he with
  | done h =>
    obtain ⟨hf, hz, hi⟩ := h
    refine ⟨_, rfl, hf, hz, ?_⟩
    intro c
    rw [hi c, ← hn c, (hb c).truncated_eq]
  | failed h =>
    obtain ⟨hf, hz, -, c, v, hv, hl, change, hc, hx⟩ := h
    rw [← hn c] at hv hc
    exact absurd hx (((hb c).of_cutStage hv).not_refuses hp hc)
  | lost dead h => exact absurd dead (FaultPlan.Reports.not_dead (h.disk.faults ▸ hr))

/-- The item counts of tables of blobs. -/
theorem lengths_eq {blobs : ByCategory (List Blob)}
    (hi : ∀ c, (s.image c).ends = Table.endsOf (blobs.get c)) :
    lengths s = (blobs.map List.length).toList := by
  have : s.tables.map Table.items = blobs.map List.length := by
    apply ByCategory.ext
    intro c
    rw [ByCategory.get_map, ByCategory.get_map, ← Table.length_endsOf, ← hi c]
    rfl
  rw [lengths, this]

/-- **How a repair ends** of tables that hold blobs: cut to the shortest of them, or on the way. -/
theorem repair_ends (hw : s.Wired) (hs : s.disk.faults.Serial) {blobs : ByCategory (List Blob)}
    (hi : ∀ c, s.image c = .ofBlobs (blobs.get c)) :
    Disk.Ends FileState.disk
      (fun report s' => report =
          ⟨(blobs.map List.length).toList, leastCount (blobs.map List.length).toList⟩ ∧
        s.Follows s' ∧ s'.Exact blobs.aligned)
      (fun s' => s.LeftAt (fun c => (s.image c).CutStage (blobs.map List.length).least) s'.disk ∧
        ¬ s.disk.faults.Obliging)
      (fun s' => s.LeftAt (fun c => (s.image c).CutStage (blobs.map List.length).least) s'.disk)
      (repair s) := by
  have hl : lengths s = (blobs.map List.length).toList := lengths_eq fun c => by rw [hi c]; rfl
  have hm : leastCount (blobs.map List.length).toList = (blobs.map List.length).least := rfl
  have hw' : FileState.Wired { s with frozen := (blobs.map List.length).least } :=
    ⟨hw.table, hw.apart⟩
  have begins : ∀ c, (s.image c).Begins (blobs.aligned.get c) := by
    intro c
    have hb := TableImage.ofBlobs_begins
      (List.take_prefix (blobs.map List.length).least (blobs.get c))
    rw [← hi c] at hb
    rw [ByCategory.aligned, ByCategory.get_map]
    exact hb
  have he := cutTables_ends hw' hs (blobs.map List.length).least Category.all
  rw [repair_eq, hl, hm]
  generalize cutTables (blobs.map List.length).least Category.all
    { s with frozen := (blobs.map List.length).least } = r at he
  cases he with
  | done h =>
    obtain ⟨hf, hz, himg⟩ := h
    refine .done ⟨rfl, ⟨hf.wiring, hf.disk⟩, ?_, ?_⟩
    · intro c
      rw [himg c, if_pos (Category.mem_all c), ← blobs.length_aligned c]
      exact (begins c).truncated_eq
    · intro c
      rw [hz, blobs.length_aligned]
  | failed h =>
    obtain ⟨hf, hz, himg, c, v, hv, -, change, hc, hx⟩ := h
    refine .failed ⟨(hf.leftAt himg).of_frozen, ?_⟩
    intro hp
    rw [← blobs.length_aligned c] at hv hc
    exact ((begins c).of_cutStage hv).not_refuses hp hc hx
  | lost dead h =>
    cases r with
    | ok _ s' => exact .lost dead h.of_frozen
    | error e s' => exact .lost dead h.of_frozen

/-- **A repair keeps what every table holds.** -/
theorem repair_ofBlobs (hw : s.Wired) (hr : s.disk.faults.Reports) (hp : s.disk.faults.Obliging)
    {blobs : ByCategory (List Blob)} (hi : ∀ c, s.image c = .ofBlobs (blobs.get c)) :
    ∃ s', repair s =
        .ok ⟨(blobs.map List.length).toList, leastCount (blobs.map List.length).toList⟩ s' ∧
      s.Follows s' ∧ s'.Exact blobs.aligned := by
  have he := repair_ends hw hr.serial hi
  generalize repair s = r at he
  cases he with
  | done h =>
    obtain ⟨rfl, hf, he⟩ := h
    exact ⟨_, rfl, hf, he⟩
  | failed h => exact absurd hp h.2
  | lost dead h => exact absurd dead (FaultPlan.Reports.not_dead (h.disk.faults ▸ hr))

theorem quiet_repair : Disk.Quiet FileState.disk repair := by
  intro s hd
  rw [repair_eq]
  have hq := quiet_cutTables (leastCount (lengths s)) Category.all
    { s with frozen := leastCount (lengths s) } hd
  generalize cutTables (leastCount (lengths s)) Category.all
    { s with frozen := leastCount (lengths s) } = r at hq
  cases r <;> exact hq

/-! ### Reading -/

theorem read_of_le {c : Category} {number : Nat} (h : s.frozen ≤ number) :
    read c number s = .error (.notFound c number s.frozen) s := by
  simp only [read, bind_apply, get_apply, if_pos h, throw_apply]

/-- **A committed blob is read back** from a table that begins with the blobs. -/
theorem read_blob {c : Category} {number : Nat} {blobs : List Blob} {b : Blob}
    (he : (s.image c).ends = Table.endsOf blobs) (hd : blobs.flatten <+: (s.image c).data)
    (hn : number < s.frozen) (hb : blobs[number]? = some b) : read c number s = .ok b s := by
  have hr := Table.retrieve_blob (t := s.tables.get c) he hd hb
  simp only [read, bind_apply, get_apply, if_neg (Nat.not_le.mpr hn), onDisk, hr, pure_apply]

end FileM

/-! ### A handle on an open archive -/

/-- Tables that have the files of their names share none. -/
theorem Shelf.wiredState {directory : String} {id : DirectoryId} {d : Disk}
    (h : Shelf directory id d) {ts : ByCategory Table}
    (hl : ∀ c, Table.Located id c (ts.get c) d) (frozen : Nat) :
    FileState.Wired ⟨ts, frozen, d⟩ := by
  refine ⟨fun c => h.wired (hl c), ?_⟩
  intro c c' hc f hf hf'
  have l := hl c
  have l' := hl c'
  have apart := h.apart
  simp only [List.mem_cons, List.not_mem_nil, or_false] at hf hf'
  rcases hf with rfl | rfl <;> rcases hf' with hf' | hf'
  · exact hc (FileArchive.dataName_injective (apart _ (FileArchive.dataName_mem c) _
      (FileArchive.dataName_mem c') _ l.data (hf' ▸ l'.data)))
  · exact FileArchive.dataName_ne_indexName c c' (apart _ (FileArchive.dataName_mem c) _
      (FileArchive.indexName_mem c') _ l.data (hf' ▸ l'.index))
  · exact FileArchive.dataName_ne_indexName c' c (apart _ (FileArchive.dataName_mem c') _
      (FileArchive.indexName_mem c) _ l'.data (hf' ▸ l.index))
  · exact hc (FileArchive.indexName_injective (apart _ (FileArchive.indexName_mem c) _
      (FileArchive.indexName_mem c') _ l.index (hf' ▸ l'.index)))

/-- Work on tables that have the files of their names leaves the lock file and all other names. -/
theorem Shelf.tended_of_touches {directory : String} {id : DirectoryId} {d d' : Disk}
    (h : Shelf directory id d) {ts : ByCategory Table}
    (hl : ∀ c, Table.Located id c (ts.get c) d) {frozen : Nat}
    (ht : Disk.Touches (FileState.files ⟨ts, frozen, d⟩) d d') :
    Shelf.Tended directory id d d' := by
  refine ⟨h.of_touches ht, ht.grows, ht.faults, Nat.le_of_eq ht.size.symm,
    fun place f hf => .inl ((ht.find? place).symm.trans hf), ?_, fun place _ => ht.find? place⟩
  rcases h.found _ FileArchive.lockName_mem with hv | ⟨f, -, hf⟩
  · rw [Disk.stored_of_none hv, Disk.stored_of_none ((ht.find? _).trans hv)]
  · rw [Disk.stored_of_file hf, Disk.stored_of_file ((ht.find? _).trans hf)]
    apply ht.rest
    intro hm
    obtain ⟨c, -, hc⟩ := List.mem_flatMap.mp hm
    simp only [List.mem_cons, List.not_mem_nil, or_false] at hc
    rcases hc with rfl | rfl
    · have := h.apart _ FileArchive.lockName_mem _ (FileArchive.dataName_mem c) _ hf (hl c).data
      revert this
      cases c <;> decide
    · have := h.apart _ FileArchive.lockName_mem _ (FileArchive.indexName_mem c) _ hf (hl c).index
      revert this
      cases c <;> decide

namespace FileArchive

/-- The state that work on an open archive starts from. -/
def state (a : FileArchive) (o : OpenTables) (d : Disk) : FileState := ⟨o.tables, a.frozen, d⟩

/-- The handle has the archive of the directory open. -/
structure Stands (a : FileArchive) (id : DirectoryId) (o : OpenTables) (d : Disk) : Prop where
  opened : a.opened = some o
  shelf : Shelf a.directory id d
  located : ∀ c, Table.Located id c (o.tables.get c) d
  lock : d.find? ⟨id, lockName⟩ = some (.file o.lock)
  held : o.lock ∉ d.locks.erase o.lock
  below : ∀ f ∈ d.locks, f < d.contents.length

/-- Nobody has the archive of the directory open. -/
structure Free (directory : String) (id : DirectoryId) (d : Disk) : Prop where
  shelf : Shelf directory id d
  free : ∀ f, d.find? ⟨id, lockName⟩ = some (.file f) → f ∉ d.locks
  below : ∀ f ∈ d.locks, f < d.contents.length

/-- When the power is back nobody has a directory open. -/
theorem restart_free {directory : String} {id : DirectoryId} {d : Disk}
    (h : Shelf directory id d) : Free directory id d.restart :=
  ⟨h.of_names (fun _ => rfl) rfl rfl rfl, fun _ _ => List.not_mem_nil,
    fun _ hm => absurd hm List.not_mem_nil⟩

/-- A directory that was refused is free again. -/
theorem Free.of_tended {directory : String} {id : DirectoryId} {d d' : Disk}
    (h : Free directory id d) (ht : Shelf.Tended directory id d d')
    (hl : d'.locks = d.locks) : Free directory id d' := by
  refine ⟨ht.shelf, ?_, fun f hf => Nat.lt_of_lt_of_le (h.below f (hl ▸ hf)) ht.size⟩
  intro f hf hm
  rw [hl] at hm
  rcases ht.fresh _ f hf with hf | hf
  · exact h.free f hf hm
  · exact absurd (h.below f hm) (Nat.not_lt.mpr hf)

/-- The handle after work that ended in the given state. -/
def after (a : FileArchive) (o : OpenTables) (s : FileState) : FileArchive :=
  { a with opened := some { o with tables := s.tables }, frozen := s.frozen }

theorem work_eq {α : Type} {a : FileArchive} {o : OpenTables} (h : a.opened = some o) (d : Disk)
    (f : FileM α) :
    a.work d f =
      match f (a.state o d) with
      | .ok r s => (.ok r, a.after o s, s.disk)
      | .error e s => (.error e, a.after o s, s.disk) := by
  simp only [work, h, state]
  rfl

theorem work_of_closed {α : Type} {a : FileArchive} (h : a.opened = none) (d : Disk)
    (f : FileM α) : a.work d f = (.error .closed, a, d) := by
  simp only [work, h]

theorem release_of_opened {a : FileArchive} {o : OpenTables} (h : a.opened = some o) (d : Disk) :
    a.release d =
      ({ a with opened := none, frozen := 0 }, { d with locks := d.locks.erase o.lock }) := by
  simp only [release, h]

theorem release_of_closed {a : FileArchive} (h : a.opened = none) (d : Disk) :
    a.release d = (a, d) := by
  simp only [release, h]

@[simp] theorem opened_release (a : FileArchive) (d : Disk) : (a.release d).1.opened = none := by
  cases ho : a.opened <;> simp [release, ho]

@[simp] theorem directory_release (a : FileArchive) (d : Disk) :
    (a.release d).1.directory = a.directory := by
  cases ho : a.opened <;> simp [release, ho]

theorem perform_of_check {a : FileArchive} {d : Disk} {now : Instant} {ctx : Context}
    {e : StoreError} (h : ctx.check now = .error e) {call : Call} (hc : call ≠ .close) :
    a.perform d now ctx call = (.error e, a, d) := by
  cases call <;> first | exact absurd rfl hc | simp only [perform, h]

theorem perform_of_live {a : FileArchive} {d : Disk} {now : Instant} {ctx : Context}
    (h : ctx.IsLive now) {call : Call} (hc : call ≠ .close) :
    a.perform d now ctx call = a.work d (FileM.perform call) := by
  have h : ctx.check now = .ok () := h
  cases call <;> first | exact absurd rfl hc | simp only [perform, h]

/-- An open archive answers its count. -/
theorem perform_count {a : FileArchive} {o : OpenTables} (h : a.opened = some o) (d : Disk)
    {now : Instant} {ctx : Context} (hl : ctx.IsLive now) :
    (a.perform d now ctx .count).1 = .ok (.number a.frozen) := by
  rw [perform_of_live hl (by simp), work_eq h]
  simp only [FileM.perform, bind_apply, get_apply, pure_apply, state]

section Stands

variable {a : FileArchive} {id : DirectoryId} {o : OpenTables} {d : Disk}

theorem Stands.wired (h : a.Stands id o d) : (a.state o d).Wired :=
  h.shelf.wiredState h.located a.frozen

/-- **A handle stands whatever is done with its tables.** -/
theorem Stands.of_follows (h : a.Stands id o d) {s : FileState} (hf : (a.state o d).Follows s) :
    Stands (a.after o s) id { o with tables := s.tables } s.disk := by
  refine ⟨rfl, h.shelf.of_touches hf.disk, fun c => ⟨?_, ?_⟩, ?_, ?_, ?_⟩
  · rw [hf.data c]
    exact (hf.disk.find? _).trans (h.located c).data
  · rw [hf.index c]
    exact (hf.disk.find? _).trans (h.located c).index
  · exact (hf.disk.find? _).trans h.lock
  · rw [hf.disk.locks]
    exact h.held
  · rw [hf.disk.locks, hf.disk.size]
    exact h.below

/-- A handle stands on a device that does something else with the changes to come. -/
theorem Stands.withFaults (h : a.Stands id o d) (p : FaultPlan) :
    a.Stands id o { d with faults := p } :=
  ⟨h.opened, h.shelf.of_names (fun _ => rfl) rfl rfl rfl,
    fun c => ⟨(h.located c).data, (h.located c).index⟩, h.lock, h.held, h.below⟩

theorem Free.withFaults {directory : String} (h : Free directory id d) (p : FaultPlan) :
    Free directory id { d with faults := p } :=
  ⟨h.shelf.of_names (fun _ => rfl) rfl rfl rfl, h.free, h.below⟩

/-- A released directory can be opened again. -/
theorem Stands.release (h : a.Stands id o d) : Free a.directory id (a.release d).2 := by
  rw [release_of_opened h.opened]
  refine ⟨h.shelf.of_names (fun _ => rfl) rfl rfl rfl, ?_,
    fun f hf => h.below f (List.mem_of_mem_erase hf)⟩
  intro f hf
  obtain rfl : o.lock = f := by
    have := h.lock.symm.trans hf
    rwa [Option.some.injEq, Node.file.injEq] at this
  exact h.held

end Stands

/-! ### What is found in a directory -/

end FileArchive

/-- What an opening finds in a directory: the blobs that the files tell, as far as every category
has them, or the refusal. -/
def Disk.found (d : Disk) (id : DirectoryId) : Except StoreError (ByCategory (List Blob)) :=
  (d.tables id).map ByCategory.aligned

section Found

variable {directory : String} {id : DirectoryId} {d d' : Disk} {blobs : ByCategory (List Blob)}

theorem Disk.found_of_tables (h : d.tables id = .ok blobs) : d.found id = .ok blobs.aligned := by
  rw [Disk.found, h]
  rfl

theorem Disk.found_congr (h : ∀ c, d'.told id c = d.told id c) : d'.found id = d.found id := by
  rw [Disk.found, Disk.found, Disk.tables_congr h]

/-- What is refused for its tables is found to be refused. -/
theorem Shelf.Refused.found {faults : FaultPlan} {e : StoreError}
    (h : Shelf.Refused (d.tables id) faults e d') : Shelf.Refused (d.found id) faults e d' := by
  refine h.imp_left fun he => ?_
  rw [Disk.found, he]
  rfl

/-- **What is found stays while the tables are aligned.** -/
theorem Disk.found_of_leftAt {s : FileState} (hl : ∀ c, Table.Located id c (s.tables.get c) s.disk)
    (hi : ∀ c, s.image c = .ofBlobs (blobs.get c)) (hb : ∀ c, blobBytes (blobs.get c) < wordLimit)
    (h : s.LeftAt (fun c => (s.image c).CutStage (blobs.map List.length).least) d') :
    d'.found id = .ok blobs.aligned := by
  have told : ∀ c, ∃ left, d'.told id c = .ok left ∧ (left = blobs.get c ∨
      left = (blobs.get c).take (blobs.map List.length).least) := by
    intro c
    obtain ⟨v, hv, hd, hx⟩ := h.files c
    have sd : d'.stored ⟨id, c.dataName⟩ = v.data :=
      (Disk.stored_of_file ((h.disk.find? _).trans (hl c).data)).trans hd
    have si : d'.stored ⟨id, c.indexName⟩ = v.index :=
      (Disk.stored_of_file ((h.disk.find? _).trans (hl c).index)).trans hx
    rw [hi c] at hv
    rcases TableImage.holds_of_cutStage hv with hold | hcut
    · refine ⟨_, ?_, .inl rfl⟩
      rw [Disk.told_eq_ok_iff, sd, si]
      exact hold.told_eq (hb c)
    · refine ⟨_, ?_, .inr rfl⟩
      rw [Disk.told_eq_ok_iff, sd, si]
      exact hcut.told_eq (Nat.lt_of_le_of_lt (Table.blobBytes_take_le _ _) (hb c))
  obtain ⟨left, ht⟩ := ByCategory.exists_forall told
  rw [Disk.found_of_tables (Disk.tables_of_told fun c => (ht c).1),
    ByCategory.aligned_eq_of_cut fun c => (ht c).2]

end Found

namespace FileArchive

/-! ### Opening an archive -/

/-- What is done once the tables are open: they are aligned. -/
def align (directory : String) (lock : FileId) (tables : ByCategory Table) : DiskM FileArchive :=
  fun d =>
    match FileM.repair { tables := tables, frozen := 0, disk := d } with
    | .error e s => .error e s.disk
    | .ok _ s => .ok ⟨directory, some ⟨s.tables, lock⟩, s.frozen⟩ s.disk

theorem openLocked_eq (directory : String) (lock : FileId) :
    openLocked directory lock =
      openTables (Path.ofText directory) >>= fun tables => align directory lock tables := by
  funext d
  rw [bind_apply]
  unfold openLocked
  cases openTables (Path.ofText directory) d <;> rfl

theorem idle_align (directory : String) (lock : FileId) (tables : ByCategory Table) :
    Disk.Idle (align directory lock tables) := by
  intro d hd
  have hq := FileM.quiet_repair { tables := tables, frozen := 0, disk := d } hd
  unfold align
  generalize FileM.repair { tables := tables, frozen := 0, disk := d } = r at hq
  cases r <;> exact ⟨hq.1.still, hq.2⟩

/-- The directory is being opened under its lock, and is found as it was found. -/
structure Aligning (directory : String) (id : DirectoryId) (d d' : Disk) : Prop
    extends Shelf.Tended directory id d d' where
  locks : d'.locks = d.locks
  found : d'.found id = d.found id

theorem Aligning.of_opening {directory : String} {id : DirectoryId} {d d' : Disk}
    (h : Shelf.Opening directory id d d') : Aligning directory id d d' :=
  ⟨h.toTended, h.locks, Disk.found_congr h.told⟩

/-- The archive was opened with what was found. -/
structure OpenedWith (directory : String) (id : DirectoryId) (lock : FileId) (d : Disk)
    (a : FileArchive) (d' : Disk) : Prop where
  intro ::
  /-- The tables that the handle has, and their blobs. -/
  tables : ∃ ts blobs, a.opened = some ⟨ts, lock⟩ ∧ d.found id = .ok blobs ∧
    (∀ c, Table.Located id c (ts.get c) d') ∧ (a.state ⟨ts, lock⟩ d').Exact blobs
  directory : a.directory = directory

section Opening

variable {directory : String} {id : DirectoryId} {lock : FileId} {d d' : Disk}

/-- Blobs that files tell fit the words of an index. -/
theorem blobBytes_of_told {c : Category} {blobs : List Blob} (h : d.told id c = .ok blobs) :
    blobBytes blobs < wordLimit :=
  Table.blobBytes_of_told (Disk.told_eq_ok_iff.mp h)

/-- **Tables that were opened are aligned.** -/
theorem align_resolves {ts : ByCategory Table} (h : Shelf.Opened directory id d Category.all ts d')
    (hs : d.faults.Serial) :
    Disk.Resolves (Aligning directory id d) (fun a d'' => OpenedWith directory id lock d a d'')
      (Shelf.Refused (d.found id) d.faults) (align directory lock ts d') := by
  obtain ⟨blobs, hb⟩ := ByCategory.exists_forall fun c => h.image c (Category.mem_all c)
  have hl := fun c => h.located c (Category.mem_all c)
  have hi : ∀ c, (⟨ts, 0, d'⟩ : FileState).image c = .ofBlobs (blobs.get c) := fun c => (hb c).2
  have hfound : d.found id = .ok blobs.aligned :=
    Disk.found_of_tables (Disk.tables_of_told fun c => (hb c).1)
  have left : ∀ d'', (⟨ts, 0, d'⟩ : FileState).LeftAt
      (fun c => ((⟨ts, 0, d'⟩ : FileState).image c).CutStage (blobs.map List.length).least) d'' →
      Aligning directory id d d'' := by
    intro d'' hleft
    have ht := h.shelf.tended_of_touches hl hleft.disk
    refine ⟨h.toTended.trans ht, hleft.disk.locks.trans h.locks, ?_⟩
    rw [hfound]
    exact Disk.found_of_leftAt hl hi (fun c => blobBytes_of_told (hb c).1) hleft
  have he := FileM.repair_ends (h.shelf.wiredState hl 0) (h.faults ▸ hs) hi
  unfold align
  generalize FileM.repair ⟨ts, 0, d'⟩ = r at he
  cases he with
  | done hd =>
    obtain ⟨-, hf, hexact⟩ := hd
    refine .done ⟨⟨_, _, rfl, hfound, fun c => ?_, hexact⟩, rfl⟩ ?_
    · have hlc := (hl c).of_grows hf.disk.grows
      exact ⟨hf.data c ▸ hlc.data, hf.index c ▸ hlc.index⟩
    · refine left _ (hf.leftAt fun c => ?_)
      have hle := (blobs.map List.length).least_le c
      rw [ByCategory.get_map] at hle
      rw [hexact.image c, hi c, ByCategory.aligned, ByCategory.get_map,
        ← TableImage.truncated_ofBlobs hle]
      exact TableImage.cutStage_truncated _ _
  | failed hf => exact .refused (.inr ⟨rfl, h.faults ▸ hf.2⟩) (left _ hf.1)
  | lost dead hl =>
    cases r with
    | ok _ s => exact .lost dead (left _ hl)
    | error e s => exact .lost dead (left _ hl)

/-- **How the tables of a directory are opened and aligned.** -/
theorem openLocked_resolves (h : Shelf directory id d) (hs : d.faults.Serial) (lock : FileId) :
    Disk.Resolves (Aligning directory id d) (fun a d' => OpenedWith directory id lock d a d')
      (Shelf.Refused (d.found id) d.faults) (openLocked directory lock d) := by
  rw [openLocked_eq]
  refine ((h.openTables hs).imp (fun _ _ hg _ => hg) (fun _ _ he _ => he.found)
    (fun _ hk => .of_opening hk)).bind ?_ (fun _ => idle_align _ _ _) ?_
  · exact fun ts d' ho _ => align_resolves ho hs
  · intro d' d'' hstill hk
    have hkept := hk.shelf.kept_of_still hstill
    exact ⟨hk.toTended.trans hkept.toTended, hkept.locks.trans hk.locks,
      (Disk.found_congr hkept.opening.told).trans hk.found⟩

/-- What is done once the lock file is open. -/
def openUnder (directory : String) (lock : FileId) : DiskM FileArchive := fun d =>
  if lock ∈ d.locks then .error (.locked directory) d
  else match openLocked directory lock { d with locks := lock :: d.locks } with
    | .ok a d => .ok a d
    | .error e d => .error e { d with locks := d.locks.erase lock }

theorem openAt_eq (hm : Disk.makeDirectories (Path.ofText directory) d = .ok () d') :
    openAt directory d =
      (Disk.openFile ((Path.ofText directory).child lockName) >>= fun lock =>
        openUnder directory lock) d' := by
  simp only [openAt, bind_apply, hm]
  cases Disk.openFile ((Path.ofText directory).child lockName) d' with
  | error e d₁ => rfl
  | ok lock d₁ =>
    by_cases hl : lock ∈ d₁.locks
    · simp only [openUnder, Disk.tryLock, if_pos hl]
      rfl
    · simp only [openUnder, Disk.tryLock, if_neg hl]
      rfl

/-- Locks make no difference to what the files are. -/
theorem tended_withLocks {locks locks' : List FileId}
    (h : Shelf.Tended directory id { d with locks := locks } d') :
    Shelf.Tended directory id d { d' with locks := locks' } :=
  ⟨h.shelf.of_names (fun _ => rfl) rfl rfl rfl, ⟨h.grows.names, h.grows.directories, h.grows.home⟩,
    h.faults, h.size, h.fresh, h.lockFile, h.outside⟩

/-- Whatever comes of the opening under the lock, the directory is found as it was. -/
theorem openUnder_keeps (h : Shelf directory id d) (hs : d.faults.Serial) (lock : FileId) :
    Shelf.Tended directory id d (finalState (openUnder directory lock d)) ∧
      (finalState (openUnder directory lock d)).found id = d.found id := by
  unfold openUnder
  split
  · exact ⟨.refl h, rfl⟩
  · have hk := (openLocked_resolves (d := { d with locks := lock :: d.locks })
      (h.of_names (fun _ => rfl) rfl rfl rfl) hs lock).final
    generalize openLocked directory lock { d with locks := lock :: d.locks } = r at hk
    cases r with
    | ok a d' => exact ⟨tended_withLocks hk.toTended, hk.found⟩
    | error e d' => exact ⟨tended_withLocks hk.toTended, hk.found⟩

theorem dead_openUnder (hd : d.Dead) (lock : FileId) :
    (finalState (openUnder directory lock d)).Dead := by
  have idle : Disk.Idle (openLocked directory lock) := by
    rw [openLocked_eq]
    exact (Shelf.idle_openTables _).bind fun _ => idle_align _ _ _
  unfold openUnder
  split
  · exact hd
  · have hl := (idle { d with locks := lock :: d.locks } hd).2
    generalize openLocked directory lock { d with locks := lock :: d.locks } = r at hl
    cases r <;> exact hl

/-- Under a lock that was free an archive is opened on what is found, or refused for it. -/
theorem openUnder_resolves (h : Free directory id d) (hs : d.faults.Serial) {lock : FileId}
    (hlock : d.find? ⟨id, lockName⟩ = some (.file lock)) :
    Disk.Resolves (fun d' => Shelf.Tended directory id d d' ∧ d'.found id = d.found id)
      (fun a d' => ∃ o blobs, a.directory = directory ∧ d.found id = .ok blobs ∧ a.Stands id o d' ∧
        (a.state o d').Exact blobs)
      (fun e d' => Shelf.Refused (d.found id) d.faults e d' ∧ d'.locks = d.locks)
      (openUnder directory lock d) := by
  have hfree := h.free lock hlock
  have hl := openLocked_resolves (d := { d with locks := lock :: d.locks })
    (h.shelf.of_names (fun _ => rfl) rfl rfl rfl) hs lock
  have keeps : ∀ {d' locks}, Aligning directory id { d with locks := lock :: d.locks } d' →
      Shelf.Tended directory id d { d' with locks := locks } ∧
        Disk.found { d' with locks := locks } id = d.found id := fun hk =>
    ⟨tended_withLocks hk.toTended, hk.found⟩
  simp only [openUnder, if_neg hfree]
  generalize openLocked directory lock { d with locks := lock :: d.locks } = r at hl
  cases hl with
  | @done a d' hopen k =>
    obtain ⟨⟨ts, blobs, ho, hfound, hloc, hexact⟩, hdir⟩ := hopen
    refine .done ⟨⟨ts, lock⟩, blobs, hdir, hfound, ?_, hexact⟩ (keeps k)
    refine ⟨ho, hdir ▸ k.shelf, hloc, k.grows.names _ _ hlock, ?_, ?_⟩
    · rw [k.locks, List.erase_cons_head]
      exact hfree
    · intro f hf
      rw [k.locks] at hf
      rcases List.mem_cons.mp hf with rfl | hf
      · exact Nat.lt_of_lt_of_le (h.shelf.lt_of_find lockName_mem hlock) k.size
      · exact Nat.lt_of_lt_of_le (h.below f hf) k.size
  | @refused e d' he k =>
    refine .refused ⟨he, ?_⟩ (keeps k)
    show d'.locks.erase lock = d.locks
    rw [k.locks, List.erase_cons_head]
  | lost dead k =>
    cases r with
    | ok a d' => exact .lost dead (keeps k)
    | error e d' => exact .lost dead (keeps k)

/-- **How an archive is opened.** Whatever the device does, what is found in the directory is found
again, and it is what the archive is opened with or refused for. -/
theorem Free.openAt_resolves (h : Free directory id d) (hs : d.faults.Serial) :
    Disk.Resolves (fun d' => Shelf.Tended directory id d d' ∧ d'.found id = d.found id)
      (fun a d' => ∃ o blobs, a.directory = directory ∧ d.found id = .ok blobs ∧ a.Stands id o d' ∧
        (a.state o d').Exact blobs)
      (fun e d' => Shelf.Refused (d.found id) d.faults e d' ∧ d'.locks = d.locks)
      (FileArchive.openAt directory d) := by
  have hmake := Disk.makeDirectories_of_reaches h.shelf.reaches (h.shelf.allowed _ lockName_mem)
  have ho := h.shelf.openFile hs lockName_mem
  rw [openAt_eq hmake, bind_apply]
  generalize Disk.openFile ((Path.ofText directory).child lockName) d = r at ho
  cases ho with
  | @done lock d₁ hnew k₁ =>
    have found₁ : d₁.found id = d.found id := Disk.found_congr k₁.opening.told
    refine (openUnder_resolves (h.of_tended k₁.toTended k₁.locks) (k₁.faults ▸ hs) hnew.1).imp
      ?_ ?_ ?_
    · rintro a d₂ ⟨o, blobs, hdir, hfound, hopen⟩ -
      exact ⟨o, blobs, hdir, found₁.symm.trans hfound, hopen⟩
    · rintro e d₂ ⟨he, hlocks⟩ -
      rw [found₁, k₁.faults] at he
      exact ⟨he, hlocks.trans k₁.locks⟩
    · rintro d₂ ⟨ht, hf⟩
      exact ⟨k₁.toTended.trans ht, hf.trans found₁⟩
  | refused he k₁ =>
    exact .refused ⟨.inr he, k₁.locks⟩ ⟨k₁.toTended, Disk.found_congr k₁.opening.told⟩
  | lost dead k₁ =>
    have found₁ := Disk.found_congr k₁.opening.told
    cases r with
    | ok lock d₁ =>
      obtain ⟨ht, hf⟩ := openUnder_keeps k₁.shelf (k₁.faults ▸ hs) lock
      exact .lost (dead_openUnder dead lock) ⟨k₁.toTended.trans ht, hf.trans found₁⟩
    | error e d₁ => exact .lost dead ⟨k₁.toTended, found₁⟩

/-- **How an archive is opened on a device that cuts without fail**: by what is found. -/
theorem Free.openAt_eq_found (h : Free directory id d) (hr : d.faults.Reports)
    (hp : d.faults.Obliging) :
    (∃ e d', d.found id = .error e ∧ FileArchive.openAt directory d = .error e d') ∨
      ∃ blobs a o d', d.found id = .ok blobs ∧ FileArchive.openAt directory d = .ok a d' ∧
        a.directory = directory ∧ a.Stands id o d' ∧ (a.state o d').Exact blobs ∧
        Shelf.Tended directory id d d' := by
  have ho := h.openAt_resolves hr.serial
  generalize FileArchive.openAt directory d = r at ho
  cases ho with
  | @done a d' hd k =>
    obtain ⟨o, blobs, hdir, hfound, hs, he⟩ := hd
    exact .inr ⟨blobs, a, o, d', hfound, rfl, hdir, hs, he, k.1⟩
  | @refused e d' he k =>
    rcases he.1 with hfound | ⟨-, hnot⟩
    · exact .inl ⟨e, d', hfound, rfl⟩
    · exact absurd hp hnot
  | lost dead k => exact absurd dead (FaultPlan.Reports.not_dead (k.1.faults ▸ hr))

end Opening

/-! ### Directories of which it is known what they hold -/

/-- The disk keeps the blobs of every category under the names of the archive. -/
def Keeps (id : DirectoryId) (blobs : ByCategory (List Blob)) (d : Disk) : Prop :=
  ∀ c : Category, blobBytes (blobs.get c) < wordLimit ∧
    TableImage.Holds ⟨[], d.stored ⟨id, c.dataName⟩, d.stored ⟨id, c.indexName⟩⟩ (blobs.get c)

theorem Keeps.found {id : DirectoryId} {blobs : ByCategory (List Blob)} {d : Disk}
    (h : Keeps id blobs d) : d.found id = .ok blobs.aligned :=
  Disk.found_of_tables (Disk.tables_of_told fun c =>
    Disk.told_eq_ok_iff.mpr ((h c).2.told_eq (h c).1))

/-- **An archive is opened with the blobs that its files hold**, as far as every category has
them. -/
theorem openAt_of_keeps {directory : String} {id : DirectoryId} {d : Disk}
    (h : Free directory id d) (hr : d.faults.Reports) (hp : d.faults.Obliging)
    {blobs : ByCategory (List Blob)} (hk : Keeps id blobs d) :
    ∃ a o d', openAt directory d = .ok a d' ∧ a.directory = directory ∧ a.Stands id o d' ∧
      (a.state o d').Exact blobs.aligned ∧ Shelf.Tended directory id d d' := by
  rcases h.openAt_eq_found hr hp with ⟨e, d', he, -⟩ | ⟨_, a, o, d', hb, ho, hdir, hs, hx, ht⟩
  · rw [hk.found] at he
    cases he
  · obtain rfl := Except.ok.inj (hk.found.symm.trans hb)
    exact ⟨a, o, d', ho, hdir, hs, hx, ht⟩

/-- A directory that is there and has no names in it. -/
structure Vacant (directory : String) (id : DirectoryId) (d : Disk) : Prop where
  reaches : d.Reaches (Path.ofText directory) id
  allowed : ∀ name ∈ names, ((Path.ofText directory).child name).refusal? = none
  vacant : ∀ name, d.find? ⟨id, name⟩ = none
  below : ∀ f ∈ d.locks, f < d.contents.length

/-- The working directory of the empty disk. -/
theorem vacant_emptyDisk : Vacant "." 0 Disk.empty :=
  ⟨rfl, by decide, fun _ => rfl, fun _ hf => absurd hf List.not_mem_nil⟩

theorem Vacant.withFaults {directory : String} {id : DirectoryId} {d : Disk}
    (h : Vacant directory id d) (p : FaultPlan) : Vacant directory id { d with faults := p } :=
  ⟨h.reaches.mono ⟨fun _ _ hn => hn, rfl, rfl⟩, h.allowed, h.vacant, h.below⟩

theorem Vacant.free {directory : String} {id : DirectoryId} {d : Disk} (h : Vacant directory id d) :
    Free directory id d := by
  have absurd : ∀ {name f}, d.find? ⟨id, name⟩ ≠ some (.file f) := fun {name f} hf => by
    rw [h.vacant name] at hf
    cases hf
  exact ⟨⟨h.reaches, h.allowed, fun name _ => .inl (h.vacant name),
    fun _ _ _ _ _ hf => (absurd hf).elim⟩, fun _ hf => (absurd hf).elim, h.below⟩

theorem Vacant.keeps {directory : String} {id : DirectoryId} {d : Disk}
    (h : Vacant directory id d) :
    Keeps id (.replicate []) d := by
  intro c
  rw [ByCategory.get_replicate, Disk.stored_of_none (h.vacant _), Disk.stored_of_none (h.vacant _)]
  exact ⟨by decide, List.prefix_rfl, List.prefix_rfl, by decide⟩

/-- **An empty directory is opened without records.** -/
theorem Vacant.opens {directory : String} {id : DirectoryId} {d : Disk}
    (h : Vacant directory id d) (hr : d.faults.Reports) (hp : d.faults.Obliging) :
    ∃ a o d', FileArchive.openAt directory d = .ok a d' ∧ a.Stands id o d' ∧
      (a.state o d').Exact (.replicate []) ∧ d'.faults = d.faults := by
  obtain ⟨a, o, d', ho, -, hs, he, ht⟩ := openAt_of_keeps h.free hr hp h.keeps
  have hlen : ∀ c, ((ByCategory.replicate [] : ByCategory (List Blob)).get c).length = 0 :=
    fun c => by rw [ByCategory.get_replicate]; rfl
  rw [ByCategory.aligned_of_length hlen] at he
  exact ⟨a, o, d', ho, hs, he, ht.faults⟩

end FileArchive

end ColdArchive
