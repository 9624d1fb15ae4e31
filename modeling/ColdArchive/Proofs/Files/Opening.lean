import ColdArchive.Proofs.Disk.Endings
import ColdArchive.Proofs.Table.Told
import ColdArchive.Proofs.Files.Changes

/-!
# Opening an archive

A directory is seen as a shelf: eleven names, each vacant or with a file of its own. Opening a table
on it finds the blobs that its two files tell and cuts the files to them. The cuts, done or not, do
not change what is told (`Shelf.Opening`), so that it makes no difference to the next opening where
this one stopped.
-/

namespace ColdArchive

namespace Disk

/-- The bytes of the file of a name, none if there is no such file. -/
def stored (d : Disk) (place : Place) : Bytes := (d.read? place).getD []

theorem stored_of_none {d : Disk} {place : Place} (h : d.find? place = none) :
    d.stored place = [] := by simp [stored, read?, h]

theorem stored_of_file {d : Disk} {place : Place} {f : FileId}
    (h : d.find? place = some (.file f)) :
    d.stored place = d.bytes f := by simp [stored, read?, h, bytes]

theorem Touches.find? {ids : List FileId} {d d' : Disk} (h : Touches ids d d') (place : Place) :
    d'.find? place = d.find? place := by rw [Disk.find?, Disk.find?, h.tree]

end Disk

/-! ### The names of an archive -/

/-- The name of the data file of a category. -/
def Category.dataName (c : Category) : String := c.name ++ ".dat"

/-- The name of the index file of a category. -/
def Category.indexName (c : Category) : String := c.name ++ ".idx"

namespace FileArchive

/-- The names that an archive uses in its directory. -/
def names : List String :=
  lockName :: Category.all.flatMap fun c => [c.dataName, c.indexName]

theorem isFileName_of_mem : ∀ name ∈ names, Disk.IsFileName name := by decide

theorem dataName_mem (c : Category) : c.dataName ∈ names := by cases c <;> decide

theorem indexName_mem (c : Category) : c.indexName ∈ names := by cases c <;> decide

theorem lockName_mem : lockName ∈ names := by decide

theorem dataName_injective {c c' : Category} (h : c.dataName = c'.dataName) : c = c' := by
  revert h
  cases c <;> cases c' <;> decide

theorem indexName_injective {c c' : Category} (h : c.indexName = c'.indexName) : c = c' := by
  revert h
  cases c <;> cases c' <;> decide

theorem dataName_ne_indexName (c c' : Category) : c.dataName ≠ c'.indexName := by
  cases c <;> cases c' <;> decide

end FileArchive

/-! ### Shelves -/

/-- A directory with room for an archive: each of the names is vacant or has a file of its own. -/
structure Shelf (directory : String) (id : DirectoryId) (d : Disk) : Prop where
  reaches : d.Reaches (Path.ofText directory) id
  allowed : ∀ name ∈ FileArchive.names, ((Path.ofText directory).child name).refusal? = none
  found : ∀ name ∈ FileArchive.names, d.find? ⟨id, name⟩ = none ∨
    ∃ f, f < d.contents.length ∧ d.find? ⟨id, name⟩ = some (.file f)
  apart : ∀ name ∈ FileArchive.names, ∀ name' ∈ FileArchive.names, ∀ f,
    d.find? ⟨id, name⟩ = some (.file f) → d.find? ⟨id, name'⟩ = some (.file f) → name = name'

namespace Shelf

open FileArchive

variable {directory : String} {id : DirectoryId} {d d' : Disk}

/-- A shelf is one by its names and the number of files, whatever else the disk has. -/
theorem of_names (h : Shelf directory id d) (hf : ∀ place, d'.find? place = d.find? place)
    (hd : d'.directories = d.directories) (hh : d'.home = d.home)
    (hs : d'.contents.length = d.contents.length) : Shelf directory id d' := by
  refine ⟨h.reaches.mono ⟨fun place node hn => (hf place).trans hn, hd, hh⟩, h.allowed,
    ?_, ?_⟩
  · intro name hn
    rw [hf, hs]
    exact h.found name hn
  · intro name hn name' hn' f
    rw [hf, hf]
    exact h.apart name hn name' hn' f

theorem of_touches {ids : List FileId} (h : Shelf directory id d) (ht : Disk.Touches ids d d') :
    Shelf directory id d' :=
  h.of_names ht.find? ht.directories ht.home ht.size

/-- A change of the file of one name leaves the files of the other names. -/
theorem stored_of_touches (h : Shelf directory id d) {f : FileId} {name : String}
    (hn : name ∈ names) (hf : d.find? ⟨id, name⟩ = some (.file f)) (ht : Disk.Touches [f] d d') :
    ∀ name' ∈ names, name' ≠ name → d'.stored ⟨id, name'⟩ = d.stored ⟨id, name'⟩ := by
  intro name' hn' hne
  rcases h.found name' hn' with hv | ⟨g, -, hg⟩
  · rw [Disk.stored_of_none hv, Disk.stored_of_none ((ht.find? _).trans hv)]
  · rw [Disk.stored_of_file hg, Disk.stored_of_file ((ht.find? _).trans hg)]
    refine ht.rest g fun hm => hne ?_
    rw [List.mem_singleton] at hm
    exact h.apart name' hn' name hn g hg (hm ▸ hf)

/-- The files under the names of the shelf were opened, made or changed, the lock file excepted,
and nothing else. -/
structure Tended (directory : String) (id : DirectoryId) (d d' : Disk) : Prop where
  shelf : Shelf directory id d'
  grows : Disk.Grows d d'
  faults : d'.faults = d.faults
  size : d.contents.length ≤ d'.contents.length
  fresh : ∀ place f, d'.find? place = some (.file f) →
    d.find? place = some (.file f) ∨ d.contents.length ≤ f
  lockFile : d'.stored ⟨id, lockName⟩ = d.stored ⟨id, lockName⟩
  outside : ∀ place, (place.directory = id → place.name ∉ names) → d'.find? place = d.find? place

theorem Tended.refl (h : Shelf directory id d) : Tended directory id d d :=
  ⟨h, ⟨fun _ _ hn => hn, rfl, rfl⟩, rfl, Nat.le_refl _, fun _ _ hf => .inl hf, rfl, fun _ _ => rfl⟩

theorem Tended.trans {d'' : Disk} (h : Tended directory id d d') (h' : Tended directory id d' d'') :
    Tended directory id d d'' := by
  refine ⟨h'.shelf, h.grows.trans h'.grows, h'.faults.trans h.faults, Nat.le_trans h.size h'.size,
    ?_, h'.lockFile.trans h.lockFile,
    fun place hp => (h'.outside place hp).trans (h.outside place hp)⟩
  intro place f hf
  rcases h'.fresh place f hf with hf | hf
  · exact h.fresh place f hf
  · exact .inr (Nat.le_trans h.size hf)

/-- Nothing is changed, and every name keeps its bytes. -/
structure Kept (directory : String) (id : DirectoryId) (d d' : Disk) : Prop
    extends Tended directory id d d' where
  locks : d'.locks = d.locks
  stored : ∀ name ∈ names, d'.stored ⟨id, name⟩ = d.stored ⟨id, name⟩

theorem Kept.refl (h : Shelf directory id d) : Kept directory id d d :=
  ⟨.refl h, rfl, fun _ _ => rfl⟩

theorem Kept.trans {d'' : Disk} (h : Kept directory id d d') (h' : Kept directory id d' d'') :
    Kept directory id d d'' :=
  ⟨h.toTended.trans h'.toTended, h'.locks.trans h.locks,
    fun name hn => (h'.stored name hn).trans (h.stored name hn)⟩

theorem kept_of_still (h : Shelf directory id d) (hs : Disk.Still d d') :
    Kept directory id d d' := by
  have hg : Disk.Grows d d' :=
    ⟨fun place node hn => (hs.find? place).trans hn, hs.directories, hs.home⟩
  have stored : ∀ name ∈ names, d'.stored ⟨id, name⟩ = d.stored ⟨id, name⟩ := by
    intro name hn
    rcases h.found name hn with hv | ⟨f, hf, hfind⟩
    · rw [Disk.stored_of_none hv, Disk.stored_of_none ((hs.find? _).trans hv)]
    · rw [Disk.stored_of_file hfind, Disk.stored_of_file ((hs.find? _).trans hfind), hs.bytes f hf]
  refine ⟨⟨⟨h.reaches.mono hg, h.allowed, ?_, ?_⟩, hg, hs.faults, hs.size,
    fun place f hf => .inl ((hs.find? place).symm.trans hf), stored _ lockName_mem,
    fun place _ => hs.find? place⟩, hs.locks, stored⟩
  · intro name hn
    rw [hs.find?]
    rcases h.found name hn with hv | ⟨f, hf, hfind⟩
    · exact .inl hv
    · exact .inr ⟨f, Nat.lt_of_lt_of_le hf hs.size, hfind⟩
  · intro name hn name' hn' f
    rw [hs.find?, hs.find?]
    exact h.apart name hn name' hn' f

/-! ### Opening a name -/

/-- A new file under a name that was vacant. -/
theorem kept_withNew (h : Shelf directory id d) {name : String} (hn : name ∈ names)
    (hv : d.find? ⟨id, name⟩ = none) : Kept directory id d (d.withNew ⟨id, name⟩) := by
  have old : ∀ name' ∈ names, ∀ f, (d.withNew ⟨id, name⟩).find? ⟨id, name'⟩ = some (.file f) →
      name' = name ∧ f = d.contents.length ∨
        f < d.contents.length ∧ d.find? ⟨id, name'⟩ = some (.file f) := by
    intro name' hn' f hf
    rw [Disk.find?_withNew] at hf
    split at hf
    · next he =>
      rw [Option.some.injEq, Node.file.injEq] at hf
      exact .inl ⟨(Place.mk.inj he).2, hf.symm⟩
    · rcases h.found name' hn' with hv' | ⟨g, hg, hg'⟩
      · rw [hv'] at hf
        cases hf
      · rw [hg', Option.some.injEq, Node.file.injEq] at hf
        exact .inr ⟨hf ▸ hg, hf ▸ hg'⟩
  have stored : ∀ name' ∈ names,
      (d.withNew ⟨id, name⟩).stored ⟨id, name'⟩ = d.stored ⟨id, name'⟩ := by
    intro name' hn'
    by_cases he : name' = name
    · subst he
      rw [Disk.stored_of_none hv, Disk.stored_of_file (by rw [Disk.find?_withNew, if_pos rfl]),
        Disk.bytes_withNew_self]
    · have hplace : (⟨id, name'⟩ : Place) ≠ ⟨id, name⟩ := fun hp => he (Place.mk.inj hp).2
      have hf : (d.withNew ⟨id, name⟩).find? ⟨id, name'⟩ = d.find? ⟨id, name'⟩ := by
        rw [Disk.find?_withNew, if_neg hplace]
      rcases h.found name' hn' with hv' | ⟨g, hg, hg'⟩
      · rw [Disk.stored_of_none hv', Disk.stored_of_none (hf.trans hv')]
      · rw [Disk.stored_of_file hg', Disk.stored_of_file (hf.trans hg'), Disk.bytes_withNew hg]
  refine ⟨⟨⟨h.reaches.mono (Disk.grows_withNew hv), h.allowed, ?_, ?_⟩, Disk.grows_withNew hv, rfl,
    by simp [Disk.withNew], ?_, stored _ lockName_mem, ?_⟩, rfl, stored⟩
  · intro name' hn'
    rw [Disk.find?_withNew, Disk.withNew, Disk.asked, List.length_append, List.length_singleton]
    split
    · exact .inr ⟨_, Nat.lt_succ_self _, rfl⟩
    · rcases h.found name' hn' with hv' | ⟨g, hg, hg'⟩
      · exact .inl hv'
      · exact .inr ⟨g, Nat.lt_succ_of_lt hg, hg'⟩
  · intro name₁ hn₁ name₂ hn₂ f h₁ h₂
    rcases old name₁ hn₁ f h₁ with ⟨e₁, l₁⟩ | ⟨l₁, f₁⟩ <;>
      rcases old name₂ hn₂ f h₂ with ⟨e₂, l₂⟩ | ⟨l₂, f₂⟩
    · exact e₁.trans e₂.symm
    · exact absurd l₂ (l₁ ▸ Nat.lt_irrefl _)
    · exact absurd l₁ (l₂ ▸ Nat.lt_irrefl _)
    · exact h.apart name₁ hn₁ name₂ hn₂ f f₁ f₂
  · intro place f hf
    rw [Disk.find?_withNew] at hf
    split at hf
    · rw [Option.some.injEq, Node.file.injEq] at hf
      exact .inr (Nat.le_of_eq hf)
    · exact .inl hf
  · intro place hp
    rw [Disk.find?_withNew, if_neg]
    rintro rfl
    exact hp rfl hn

theorem lt_of_find (h : Shelf directory id d) {name : String} (hn : name ∈ names) {f : FileId}
    (hf : d.find? ⟨id, name⟩ = some (.file f)) : f < d.contents.length := by
  rcases h.found name hn with hv | ⟨g, hg, hg'⟩
  · rw [hv] at hf
    cases hf
  · rw [hg', Option.some.injEq, Node.file.injEq] at hf
    exact hf ▸ hg

/-- **A name of the shelf has a file once it was opened**, a new one if it was vacant. -/
theorem openFile (h : Shelf directory id d) (hs : d.faults.Serial) {name : String}
    (hn : name ∈ names) :
    Disk.Resolves (Kept directory id d)
      (fun f d' => d'.find? ⟨id, name⟩ = some (.file f) ∧
        (d.find? ⟨id, name⟩ = none → f = d.contents.length))
      (fun e _ => e = .io .tooLarge ∧ ¬ d.faults.Obliging)
      (Disk.openFile ((Path.ofText directory).child name) d) := by
  have hname := isFileName_of_mem name hn
  rcases h.found name hn with hv | ⟨f, hf, hfind⟩
  · rw [Disk.openFile_of_vacant h.reaches hname (h.allowed name hn) hv, Disk.create_eq]
    cases hc : d.faults d.changes .create with
    | done =>
      exact .done ⟨by rw [Disk.find?_withNew, if_pos rfl], fun _ => rfl⟩ (h.kept_withNew hn hv)
    | fails stored =>
      refine .refused ⟨rfl, fun hp => ?_⟩ (h.kept_of_still (Disk.still_withSpare d))
      rw [hp.create] at hc
      cases hc
    | lost stored =>
      exact .lost (Disk.dead_of_lost hs hc) (h.kept_of_still (Disk.still_withSpare d))
  · rw [Disk.openFile_of_found h.reaches hname (h.allowed name hn) hfind]
    exact .done ⟨hfind, fun hv => by rw [hv] at hfind; cases hfind⟩ (.refl h)

end Shelf

/-! ### What the files of a directory tell -/

/-- What the two files of a category tell, or the refusal to open them. -/
def Disk.told (d : Disk) (id : DirectoryId) (c : Category) : Except StoreError (List Blob) :=
  match Table.told (d.stored ⟨id, c.dataName⟩) (d.stored ⟨id, c.indexName⟩) with
  | .error item => .error (.corrupted s!"{c.name} index goes backwards at item {item}")
  | .ok blobs => .ok blobs

section Told

variable {id : DirectoryId} {c : Category} {d d' : Disk} {blobs : List Blob}

theorem Disk.told_eq_ok_iff :
    d.told id c = .ok blobs ↔
      Table.told (d.stored ⟨id, c.dataName⟩) (d.stored ⟨id, c.indexName⟩) = .ok blobs := by
  unfold Disk.told
  cases Table.told (d.stored ⟨id, c.dataName⟩) (d.stored ⟨id, c.indexName⟩) <;> simp

theorem Disk.told_congr (hd : d'.stored ⟨id, c.dataName⟩ = d.stored ⟨id, c.dataName⟩)
    (hi : d'.stored ⟨id, c.indexName⟩ = d.stored ⟨id, c.indexName⟩) :
    d'.told id c = d.told id c := by rw [Disk.told, Disk.told, hd, hi]

end Told

namespace Shelf

open FileArchive

variable {directory : String} {id : DirectoryId} {d d' : Disk}

/-- The tables of the shelf are being opened, and tell what they told. -/
structure Opening (directory : String) (id : DirectoryId) (d d' : Disk) : Prop
    extends Tended directory id d d' where
  locks : d'.locks = d.locks
  told : ∀ c, d'.told id c = d.told id c

theorem Kept.opening (h : Kept directory id d d') : Opening directory id d d' :=
  ⟨h.toTended, h.locks,
    fun c => Disk.told_congr (h.stored _ (dataName_mem c)) (h.stored _ (indexName_mem c))⟩

theorem Opening.trans {d'' : Disk} (h : Opening directory id d d')
    (h' : Opening directory id d' d'') : Opening directory id d d'' :=
  ⟨h.toTended.trans h'.toTended, h'.locks.trans h.locks, fun c => (h'.told c).trans (h.told c)⟩

theorem Opening.still {d'' : Disk} (h : Opening directory id d d') (hs : Disk.Still d' d'') :
    Opening directory id d d'' := h.trans (h.shelf.kept_of_still hs).opening

/-- A change of a file of one category by which the category tells what it told. -/
theorem opening_of_touches (h : Shelf directory id d) {c : Category} {name : String}
    (hn : name = c.dataName ∨ name = c.indexName) {f : FileId}
    (hf : d.find? ⟨id, name⟩ = some (.file f)) (ht : Disk.Touches [f] d d')
    (hc : d'.told id c = d.told id c) : Opening directory id d d' := by
  have hmem : name ∈ names := by
    rcases hn with rfl | rfl
    · exact dataName_mem c
    · exact indexName_mem c
  have stored := h.stored_of_touches hmem hf ht
  refine ⟨⟨h.of_touches ht, ht.grows, ht.faults, Nat.le_of_eq ht.size.symm,
    fun place f hf => .inl ((ht.find? place).symm.trans hf), ?_, fun place _ => ht.find? place⟩,
    ht.locks, ?_⟩
  · refine stored _ lockName_mem ?_
    rcases hn with rfl | rfl <;> cases c <;> decide
  · intro c'
    by_cases hcc : c' = c
    · rw [hcc, hc]
    · refine Disk.told_congr (stored _ (dataName_mem c') ?_) (stored _ (indexName_mem c') ?_)
      · rcases hn with rfl | rfl
        · exact fun he => hcc (dataName_injective he)
        · exact dataName_ne_indexName c' c
      · rcases hn with rfl | rfl
        · exact fun he => dataName_ne_indexName c c' he.symm
        · exact fun he => hcc (indexName_injective he)

end Shelf

/-! ### Opening a table -/

namespace Table

/-- What is done with the two files of a table once they are open. -/
def settle (c : Category) (data index : FileId) : DiskM Table := fun d =>
  match told (d.bytes data) (d.bytes index) with
  | .error item => .error (.corrupted s!"{c.name} index goes backwards at item {item}") d
  | .ok blobs =>
    (Disk.trim index (d.bytes index).length (entrySize * blobs.length) >>= fun _ =>
      Disk.trim data (d.bytes data).length (blobBytes blobs) >>= fun _ =>
        pure ⟨c, data, index, endsOf blobs⟩) d

/-- **To open a table is to open its files and settle them.** -/
theorem openAt_eq (path : Path) (c : Category) :
    openAt path c =
      (Disk.openFile (path.child c.dataName) >>= fun data =>
        Disk.openFile (path.child c.indexName) >>= fun index => settle c data index) := by
  funext d
  have hd : dataPath path c = path.child c.dataName := rfl
  have hi : indexPath path c = path.child c.indexName := rfl
  simp only [openAt, hd, hi, bind_apply]
  cases Disk.openFile (path.child c.dataName) d with
  | error e d₁ => rfl
  | ok data d₁ =>
    simp only
    cases Disk.openFile (path.child c.indexName) d₁ with
    | error e d₂ => rfl
    | ok index d₂ =>
      have hl : ∀ f, Disk.length f d₂ = .ok (d₂.bytes f).length d₂ := fun f =>
        congrArg (fun n => EStateM.Result.ok n d₂) (Disk.length_content d₂ f)
      have hr : ∀ f, Disk.readAll f d₂ = .ok (d₂.bytes f) d₂ := fun _ => rfl
      simp only [settle, hl, hr]
      cases hdrop : firstDrop? 0 0 (entries (d₂.bytes index)) with
      | some item =>
        rw [told_eq_error_iff.mpr hdrop]
        rfl
      | none =>
        have ht : told (d₂.bytes data) (d₂.bytes index) = .ok _ :=
          told_eq_ok_iff.mpr ⟨hdrop, rfl⟩
        have he := endsOf_of_told ht
        rw [ht]
        simp only [bind_apply, hl, Disk.trim]
        rw [← startOf_endsOf_length, length_slices, he]
        have hb : (entries (d₂.bytes index)).takeWhile
            (fun e => decide (e ≤ (d₂.bytes data).length))
            = borneOut (d₂.bytes data) (d₂.bytes index) := rfl
        rw [hb, bind_ite, bind_ite]
        rfl

theorem idle_settle (c : Category) (data index : FileId) : Disk.Idle (settle c data index) := by
  intro d hd
  unfold settle
  cases told (d.bytes data) (d.bytes index) with
  | error item => exact ⟨.refl d, hd⟩
  | ok blobs =>
    exact ((Disk.idle_trim _ _ _).bind fun _ => (Disk.idle_trim _ _ _).bind fun _ =>
      Disk.idle_pure _) d hd

theorem idle_openAt (path : Path) (c : Category) : Disk.Idle (openAt path c) := by
  rw [openAt_eq]
  exact (Disk.idle_openFile _).bind fun _ => (Disk.idle_openFile _).bind fun _ =>
    idle_settle _ _ _

/-- The table has the files of the names of its category. -/
structure Located (id : DirectoryId) (c : Category) (t : Table) (d : Disk) : Prop where
  data : d.find? ⟨id, c.dataName⟩ = some (.file t.data)
  index : d.find? ⟨id, c.indexName⟩ = some (.file t.index)

section Located

variable {id : DirectoryId} {c : Category} {t : Table} {d d' : Disk}

theorem Located.of_grows (h : Located id c t d) (hg : Disk.Grows d d') : Located id c t d' :=
  ⟨hg.names _ _ h.data, hg.names _ _ h.index⟩

theorem Located.image_eq (h : Located id c t d) :
    t.image d = ⟨t.ends, d.stored ⟨id, c.dataName⟩, d.stored ⟨id, c.indexName⟩⟩ := by
  rw [Disk.stored_of_file h.data, Disk.stored_of_file h.index]
  rfl

end Located

end Table

namespace Shelf

open FileArchive

variable {α : Type} {directory : String} {id : DirectoryId} {d d' : Disk}

theorem wired (h : Shelf directory id d) {c : Category} {t : Table}
    (ht : Table.Located id c t d) : t.Wired d := by
  refine ⟨h.lt_of_find (dataName_mem c) ht.data, h.lt_of_find (indexName_mem c) ht.index,
    ?_⟩
  intro he
  exact dataName_ne_indexName c c (h.apart _ (dataName_mem c) _ (indexName_mem c) _ ht.data
    (he ▸ ht.index))

/-- Why an opening is refused: for what the files tell, or since the device does not do what it
could do without room. -/
def Refused {α : Type} (found : Except StoreError α) (faults : FaultPlan) (e : StoreError)
    (_ : Disk) : Prop :=
  found = .error e ∨ e = .io .tooLarge ∧ ¬ faults.Obliging

/-- A file of a category is cut, by which the category tells what it told. -/
theorem trim (h : Shelf directory id d) (hs : d.faults.Serial) {c : Category} {name : String}
    (hn : name = c.dataName ∨ name = c.indexName) {f : FileId}
    (hf : d.find? ⟨id, name⟩ = some (.file f)) {n : Nat} (hle : n ≤ (d.bytes f).length)
    (hcut : ∀ d', Disk.Touches [f] d d' → d'.bytes f = (d.bytes f).take n →
      d'.told id c = d.told id c) :
    Disk.Resolves (Opening directory id d)
      (fun _ d' => Disk.Touches [f] d d' ∧ d'.bytes f = (d.bytes f).take n)
      (Refused (d.told id c) d.faults) (Disk.trim f (d.bytes f).length n d) := by
  have hmem : name ∈ names := by
    rcases hn with rfl | rfl
    · exact dataName_mem c
    · exact indexName_mem c
  refine (Disk.trim_resolves (h.lt_of_find hmem hf) hs hle).imp (fun _ _ hg hk => ⟨hk.1, hg⟩)
    (fun _ _ he _ => .inr he) ?_
  rintro d' ⟨ht, hb⟩
  refine h.opening_of_touches hn hf ht ?_
  rcases hb with hb | hb
  · exact hcut d' ht hb
  · have stored : ∀ name' ∈ names, d'.stored ⟨id, name'⟩ = d.stored ⟨id, name'⟩ := by
      intro name' hn'
      by_cases he : name' = name
      · rw [he, Disk.stored_of_file hf, Disk.stored_of_file ((ht.find? _).trans hf), hb]
      · exact h.stored_of_touches hmem hf ht name' hn' he
    exact Disk.told_congr (stored _ (dataName_mem c)) (stored _ (indexName_mem c))

/-- The table has the blobs that its files told, and no other name was touched. -/
structure OpenedOne (id : DirectoryId) (c : Category) (d : Disk) (t : Table) (d' : Disk) :
    Prop where
  located : Table.Located id c t d'
  image : ∃ blobs, d.told id c = .ok blobs ∧ t.image d' = .ofBlobs blobs
  rest : ∀ name ∈ names, name ≠ c.dataName → name ≠ c.indexName →
    d'.stored ⟨id, name⟩ = d.stored ⟨id, name⟩

/-- **The files of a table are cut to the blobs that they tell.** -/
theorem settle (h : Shelf directory id d) (hs : d.faults.Serial) {c : Category}
    {data index : FileId} (fd : d.find? ⟨id, c.dataName⟩ = some (.file data))
    (fi : d.find? ⟨id, c.indexName⟩ = some (.file index)) :
    Disk.Resolves (Opening directory id d) (OpenedOne id c d) (Refused (d.told id c) d.faults)
      (Table.settle c data index d) := by
  have bd := Disk.stored_of_file fd
  have bi := Disk.stored_of_file fi
  have hne : data ≠ index := (h.wired (t := ⟨c, data, index, []⟩) ⟨fd, fi⟩).apart
  unfold Table.settle
  cases ht : Table.told (d.bytes data) (d.bytes index) with
  | error item =>
    refine .refused (.inl ?_) (Kept.refl h).opening
    rw [Disk.told, bd, bi, ht]
  | ok blobs =>
    have htold : d.told id c = .ok blobs := by rw [Disk.told_eq_ok_iff, bd, bi, ht]
    have hb := Table.begins_of_told ht
    have hi : Table.entrySize * blobs.length ≤ (d.bytes index).length := by
      have := hb.index.length_le
      rwa [Table.length_indexOf, Table.length_endsOf] at this
    have hd : blobBytes blobs ≤ (d.bytes data).length := by
      have := hb.data.length_le
      rwa [Table.length_flatten] at this
    have keeps : ∀ d₁, Disk.Touches [index] d d₁ → d₁.bytes data = d.bytes data := fun d₁ t₁ =>
      t₁.rest data fun hm => hne (List.mem_singleton.mp hm)
    refine (h.trim hs (.inr rfl) fi hi ?_).bind ?_
      (fun _ => (Disk.idle_trim _ _ _).bind fun _ => Disk.idle_pure _)
      (fun _ _ hs hk => hk.still hs)
    · intro d₁ t₁ b₁
      rw [htold, Disk.told_eq_ok_iff, Disk.stored_of_file ((t₁.find? _).trans fd),
        Disk.stored_of_file ((t₁.find? _).trans fi), keeps d₁ t₁, b₁]
      exact Table.told_cut_index ht
    -- the index is cut, the data are to be
    rintro - d₁ ⟨t₁, b₁⟩ k₁
    have fd₁ : d₁.find? ⟨id, c.dataName⟩ = some (.file data) := (t₁.find? _).trans fd
    have fi₁ : d₁.find? ⟨id, c.indexName⟩ = some (.file index) := (t₁.find? _).trans fi
    have hbd₁ := keeps d₁ t₁
    have other : ∀ d₂, Disk.Touches [data] d₁ d₂ → d₂.bytes index = d₁.bytes index := fun d₂ t₂ =>
      t₂.rest index fun hm => hne (List.mem_singleton.mp hm).symm
    have hcut := k₁.shelf.trim (by rw [t₁.faults]; exact hs) (.inl rfl) fd₁
      (n := blobBytes blobs) (by rw [hbd₁]; exact hd) (by
        intro d₂ t₂ b₂
        rw [k₁.told, htold, Disk.told_eq_ok_iff, Disk.stored_of_file ((t₂.find? _).trans fd₁),
          Disk.stored_of_file ((t₂.find? _).trans fi₁), other d₂ t₂, b₂, b₁, hbd₁]
        exact Table.told_cut ht)
    rw [hbd₁, t₁.faults, k₁.told] at hcut
    refine (hcut.imp (fun _ _ hg _ => hg) (fun _ _ he _ => he) fun _ hk => k₁.trans hk).bind ?_
      (fun _ => Disk.idle_pure _) (fun _ _ hs hk => hk.still hs)
    rintro - d₂ ⟨t₂, b₂⟩ k₂
    refine .done ⟨⟨(t₂.find? _).trans fd₁, (t₂.find? _).trans fi₁⟩, ⟨blobs, htold, ?_⟩, ?_⟩ k₂
    · simp only [Table.image]
      rw [b₂, other d₂ t₂, b₁]
      exact Table.cut_of_told ht
    · intro name hn hnd hni
      rw [k₁.shelf.stored_of_touches (dataName_mem c) fd₁ t₂ name hn hnd,
        h.stored_of_touches (indexName_mem c) fi t₁ name hn hni]

/-- **How a table is opened.** -/
theorem openTable (h : Shelf directory id d) (hs : d.faults.Serial) (c : Category) :
    Disk.Resolves (Opening directory id d) (OpenedOne id c d) (Refused (d.told id c) d.faults)
      (Table.openAt (Path.ofText directory) c d) := by
  rw [Table.openAt_eq]
  refine ((h.openFile hs (dataName_mem c)).imp (fun _ d₁ hg hk => And.intro hg.1 hk)
    (fun _ _ he _ => .inr he) fun _ hk => hk.opening).bind ?_
    (fun _ => (Disk.idle_openFile _).bind fun _ => Table.idle_settle _ _ _)
    (fun _ _ hs hk => hk.still hs)
  rintro data d₁ ⟨f₁, k₁⟩ o₁
  have hs₁ : d₁.faults.Serial := by rw [k₁.faults]; exact hs
  have ho : Disk.Resolves (Opening directory id d)
      (fun index d₂ => d₂.find? ⟨id, c.indexName⟩ = some (.file index) ∧
        Kept directory id d d₂ ∧ d₂.find? ⟨id, c.dataName⟩ = some (.file data))
      (Refused (d.told id c) d.faults)
      (Disk.openFile ((Path.ofText directory).child c.indexName) d₁) := by
    refine (k₁.shelf.openFile hs₁ (indexName_mem c)).imp ?_ ?_ fun _ hk => o₁.trans hk.opening
    · exact fun _ d₂ hg hk => ⟨hg.1, k₁.trans hk, hk.grows.names _ _ f₁⟩
    · rintro e _ ⟨rfl, hp⟩ _
      exact .inr ⟨rfl, k₁.faults ▸ hp⟩
  refine ho.bind ?_ (fun _ => Table.idle_settle _ _ _) (fun _ _ hs hk => hk.still hs)
  rintro index d₂ ⟨f₂, k₂, fd₂⟩ o₂
  have hsettle := k₂.shelf.settle (by rw [k₂.faults]; exact hs) fd₂ f₂
  rw [o₂.told, k₂.faults] at hsettle
  refine hsettle.imp ?_ (fun _ _ he _ => he) fun _ hk => o₂.trans hk
  intro t d₃ hg _
  obtain ⟨blobs, hb, hi⟩ := hg.image
  refine ⟨hg.located, ⟨blobs, (o₂.told c).symm.trans hb, hi⟩, ?_⟩
  intro name hn hnd hni
  rw [hg.rest name hn hnd hni, k₂.stored name hn]

/-- The tables of the given categories were opened one after the other. -/
structure Opened (directory : String) (id : DirectoryId) (d : Disk) (cs : List Category)
    (ts : ByCategory Table) (d' : Disk) : Prop extends Opening directory id d d' where
  located : ∀ c ∈ cs, Table.Located id c (ts.get c) d'
  image : ∀ c ∈ cs, ∃ blobs, d.told id c = .ok blobs ∧ (ts.get c).image d' = .ofBlobs blobs
  rest : ∀ c, c ∉ cs → d'.stored ⟨id, c.dataName⟩ = d.stored ⟨id, c.dataName⟩ ∧
    d'.stored ⟨id, c.indexName⟩ = d.stored ⟨id, c.indexName⟩

theorem Opened.add {cs : List Category} {ts : ByCategory Table}
    (h : Opened directory id d cs ts d') (hs : d.faults.Serial) {c : Category} (hc : c ∉ cs) :
    Disk.Resolves (Opening directory id d)
      (fun t d'' => Opened directory id d (cs ++ [c]) (ts.set c t) d'')
      (Refused (d.told id c) d.faults) (Table.openAt (Path.ofText directory) c d') := by
  have ho := h.shelf.openTable (by rw [h.faults]; exact hs) c
  rw [h.told, h.faults] at ho
  refine ho.imp ?_ (fun _ _ he _ => he) fun _ hk => h.toOpening.trans hk
  intro t d₂ hg k₂
  have apart : ∀ c', c' ≠ c → d₂.stored ⟨id, c'.dataName⟩ = d'.stored ⟨id, c'.dataName⟩ ∧
      d₂.stored ⟨id, c'.indexName⟩ = d'.stored ⟨id, c'.indexName⟩ := fun c' hne =>
    ⟨hg.rest _ (dataName_mem c') (fun he => hne (dataName_injective he))
        (dataName_ne_indexName _ _),
      hg.rest _ (indexName_mem c') (fun he => dataName_ne_indexName _ _ he.symm)
        fun he => hne (indexName_injective he)⟩
  have old : ∀ c' ∈ cs, c' ≠ c := fun c' hc' he => hc (he ▸ hc')
  refine ⟨h.toOpening.trans k₂, ?_, ?_, ?_⟩
  · intro c' hc'
    rcases List.mem_append.mp hc' with hc' | hc'
    · rw [ByCategory.get_set_of_ne _ _ (old c' hc').symm]
      exact (h.located c' hc').of_grows k₂.grows
    · obtain rfl := List.mem_singleton.mp hc'
      rw [ByCategory.get_set_self]
      exact hg.located
  · intro c' hc'
    rcases List.mem_append.mp hc' with hc' | hc'
    · have hl := h.located c' hc'
      obtain ⟨blobs, hb, hi⟩ := h.image c' hc'
      refine ⟨blobs, hb, ?_⟩
      rw [ByCategory.get_set_of_ne _ _ (old c' hc').symm, ← hi, (hl.of_grows k₂.grows).image_eq,
        hl.image_eq, (apart c' (old c' hc')).1, (apart c' (old c' hc')).2]
    · obtain rfl := List.mem_singleton.mp hc'
      obtain ⟨blobs, hb, hi⟩ := hg.image
      rw [ByCategory.get_set_self]
      exact ⟨blobs, (h.told c').symm.trans hb, hi⟩
  · intro c' hc'
    rw [List.mem_append, not_or] at hc'
    have hne : c' ≠ c := fun he => hc'.2 (by simp [he])
    rw [(apart c' hne).1, (apart c' hne).2]
    exact h.rest c' hc'.1

end Shelf

/-! ### Opening all tables -/

/-- The blobs that the files of a directory tell, by category, or the refusal of the first category
in storage order that is refused. -/
def Disk.tables (d : Disk) (id : DirectoryId) : Except StoreError (ByCategory (List Blob)) := do
  let hash ← d.told id .hash
  let header ← d.told id .header
  let body ← d.told id .body
  let receipts ← d.told id .receipts
  let difficulty ← d.told id .difficulty
  return ⟨hash, header, body, receipts, difficulty⟩

theorem Disk.tables_congr {d d' : Disk} {id : DirectoryId} (h : ∀ c, d'.told id c = d.told id c) :
    d'.tables id = d.tables id := by
  simp only [Disk.tables, h]

theorem Disk.tables_of_told {d : Disk} {id : DirectoryId} {blobs : ByCategory (List Blob)}
    (h : ∀ c, d.told id c = .ok (blobs.get c)) : d.tables id = .ok blobs := by
  simp only [Disk.tables, h, ok_bind, pure_eq_ok]
  rfl

/-- The refusal of the first category that is refused. -/
theorem Disk.tables_of_error {d : Disk} {id : DirectoryId} {c : Category} {e : StoreError}
    (h : ∀ c', c'.index < c.index → ∃ blobs, d.told id c' = .ok blobs)
    (he : d.told id c = .error e) : d.tables id = .error e := by
  unfold Disk.tables
  cases c with
  | hash => rw [he, error_bind]
  | header =>
    obtain ⟨b₁, h₁⟩ := h .hash (by decide)
    rw [h₁, ok_bind, he, error_bind]
  | body =>
    obtain ⟨b₁, h₁⟩ := h .hash (by decide)
    obtain ⟨b₂, h₂⟩ := h .header (by decide)
    rw [h₁, ok_bind, h₂, ok_bind, he, error_bind]
  | receipts =>
    obtain ⟨b₁, h₁⟩ := h .hash (by decide)
    obtain ⟨b₂, h₂⟩ := h .header (by decide)
    obtain ⟨b₃, h₃⟩ := h .body (by decide)
    rw [h₁, ok_bind, h₂, ok_bind, h₃, ok_bind, he, error_bind]
  | difficulty =>
    obtain ⟨b₁, h₁⟩ := h .hash (by decide)
    obtain ⟨b₂, h₂⟩ := h .header (by decide)
    obtain ⟨b₃, h₃⟩ := h .body (by decide)
    obtain ⟨b₄, h₄⟩ := h .receipts (by decide)
    rw [h₁, ok_bind, h₂, ok_bind, h₃, ok_bind, h₄, ok_bind, he, error_bind]

theorem Disk.told_of_tables_error {d : Disk} {id : DirectoryId} {e : StoreError}
    (h : d.tables id = .error e) : ∃ c, d.told id c = .error e := by
  rcases bind_eq_error h with h | ⟨_, -, h⟩
  · exact ⟨_, h⟩
  rcases bind_eq_error h with h | ⟨_, -, h⟩
  · exact ⟨_, h⟩
  rcases bind_eq_error h with h | ⟨_, -, h⟩
  · exact ⟨_, h⟩
  rcases bind_eq_error h with h | ⟨_, -, h⟩
  · exact ⟨_, h⟩
  rcases bind_eq_error h with h | ⟨_, -, h⟩
  · exact ⟨_, h⟩
  cases h

theorem Disk.tables_eq_ok_iff {d : Disk} {id : DirectoryId} {blobs : ByCategory (List Blob)} :
    d.tables id = .ok blobs ↔ ∀ c, d.told id c = .ok (blobs.get c) := by
  refine ⟨fun h => ?_, Disk.tables_of_told⟩
  obtain ⟨b₁, h₁, h⟩ := bind_eq_ok h
  obtain ⟨b₂, h₂, h⟩ := bind_eq_ok h
  obtain ⟨b₃, h₃, h⟩ := bind_eq_ok h
  obtain ⟨b₄, h₄, h⟩ := bind_eq_ok h
  obtain ⟨b₅, h₅, h⟩ := bind_eq_ok h
  obtain rfl := Except.ok.inj h
  intro c
  cases c with
  | hash => exact h₁
  | header => exact h₂
  | body => exact h₃
  | receipts => exact h₄
  | difficulty => exact h₅

namespace Shelf

open FileArchive

variable {directory : String} {id : DirectoryId} {d d' : Disk}

/-- The next table in storage order is opened. -/
theorem Opened.next {c : Category} {ts : ByCategory Table}
    (h : Opened directory id d (Category.all.take c.index) ts d') (hs : d.faults.Serial) :
    Disk.Resolves (Opening directory id d)
      (fun t d'' => Opened directory id d (Category.all.take (c.index + 1)) (ts.set c t) d'')
      (Refused (d.tables id) d.faults) (Table.openAt (Path.ofText directory) c d') := by
  have hc : c ∉ Category.all.take c.index := by cases c <;> decide
  have hcs : Category.all.take (c.index + 1) = Category.all.take c.index ++ [c] := by
    cases c <;> rfl
  have before : ∀ c', c'.index < c.index → c' ∈ Category.all.take c.index := by
    cases c <;> intro c' <;> cases c' <;> decide
  rw [hcs]
  refine (h.add hs hc).imp (fun _ _ hg _ => hg) ?_ fun _ hk => hk
  rintro e _ (he | he) _
  · refine .inl (Disk.tables_of_error (fun c' hc' => ?_) he)
    obtain ⟨blobs, hb, -⟩ := h.image c' (before c' hc')
    exact ⟨blobs, hb⟩
  · exact .inr he

theorem idle_openTables (path : Path) : Disk.Idle (FileArchive.openTables path) :=
  have idle := Table.idle_openAt path
  (idle _).bind fun _ => (idle _).bind fun _ => (idle _).bind fun _ => (idle _).bind fun _ =>
    (idle _).bind fun _ => Disk.idle_pure _

/-- **How all tables are opened.** -/
theorem openTables (h : Shelf directory id d) (hs : d.faults.Serial) :
    Disk.Resolves (Opening directory id d)
      (fun ts d' => Opened directory id d Category.all ts d')
      (Refused (d.tables id) d.faults)
      (FileArchive.openTables (Path.ofText directory) d) := by
  have still : ∀ d' d'', Disk.Still d' d'' → Opening directory id d d' →
      Opening directory id d d'' := fun _ _ hs hk => hk.still hs
  have idle := Table.idle_openAt (Path.ofText directory)
  have h₀ : Opened directory id d [] (.replicate ⟨.hash, 0, 0, []⟩) d :=
    ⟨(Kept.refl h).opening, fun c hc => by simp at hc, fun c hc => by simp at hc,
      fun _ _ => ⟨rfl, rfl⟩⟩
  refine (h₀.next (c := .hash) hs).bind ?_ (fun _ => (idle _).bind fun _ => (idle _).bind
    fun _ => (idle _).bind fun _ => (idle _).bind fun _ => Disk.idle_pure _) still
  intro t₁ d₁ h₁ _
  refine (h₁.next (c := .header) hs).bind ?_ (fun _ => (idle _).bind fun _ => (idle _).bind
    fun _ => (idle _).bind fun _ => Disk.idle_pure _) still
  intro t₂ d₂ h₂ _
  refine (h₂.next (c := .body) hs).bind ?_ (fun _ => (idle _).bind fun _ => (idle _).bind
    fun _ => Disk.idle_pure _) still
  intro t₃ d₃ h₃ _
  refine (h₃.next (c := .receipts) hs).bind ?_ (fun _ => (idle _).bind fun _ => Disk.idle_pure _)
    still
  intro t₄ d₄ h₄ _
  refine (h₄.next (c := .difficulty) hs).bind ?_ (fun _ => Disk.idle_pure _) still
  intro t₅ d₅ h₅ k₅
  exact .done h₅ k₅

end Shelf

end ColdArchive
