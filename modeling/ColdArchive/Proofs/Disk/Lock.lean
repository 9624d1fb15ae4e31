import ColdArchive.Proofs.Disk.Endings

/-!
# The lock of a name

A lock is held on a file and not on the name that leads to it. It guards a directory as long as the
name leads to one file, and `Disk.LeavesLock` says that it does, and that nobody took the lock or
gave it back. Work that opens files, makes directories or changes open files leaves every lock
alone, whatever comes of it.
-/

namespace ColdArchive

namespace Disk

/-- How often the lock of the file of a name is held. -/
def holders (d : Disk) (place : Place) : Nat :=
  match d.find? place with
  | some (.file f) => d.locks.count f
  | _ => 0

/-- Names lead to files that are there, locks are held on such files, and the device reports its
failures. -/
structure Proper (d : Disk) : Prop where
  named : ∀ place f, d.find? place = some (.file f) → f < d.contents.length
  locked : ∀ f ∈ d.locks, f < d.contents.length
  reports : d.faults.Reports

/-- A file keeps the name, and its lock is held as often as before. -/
structure LeavesLock (place : Place) (d d' : Disk) : Prop where
  file : ∀ f, d.find? place = some (.file f) → d'.find? place = some (.file f)
  holders : d'.holders place = d.holders place
  proper : d'.Proper

section LeavesLock

variable {d d' d'' : Disk} {place other : Place} {f : FileId}

theorem holders_of_file (h : d.find? place = some (.file f)) :
    d.holders place = d.locks.count f := by
  rw [holders, h]

theorem holders_of_none (h : d.find? place = none) : d.holders place = 0 := by
  rw [holders, h]

theorem holders_congr (h : d'.find? place = d.find? place) (hl : d'.locks = d.locks) :
    d'.holders place = d.holders place := by
  rw [holders, holders, h, hl]

/-- The lock of a file is taken once more. -/
theorem holders_cons (h : d.find? place = some (.file f)) :
    holders { d with locks := f :: d.locks } place = d.holders place + 1 := by
  simp only [holders, find?] at h ⊢
  simp only [h, List.count_cons_self]

/-- The lock of a file is given back once. -/
theorem holders_erase (h : d.find? place = some (.file f)) :
    holders { d with locks := d.locks.erase f } place = d.holders place - 1 := by
  simp only [holders, find?] at h ⊢
  simp only [h, List.count_erase_self]

theorem Proper.erase (h : d.Proper) (f : FileId) :
    Proper { d with locks := d.locks.erase f } :=
  ⟨h.named, fun g hg => h.locked g (List.mem_of_mem_erase hg), h.reports⟩

theorem LeavesLock.refl (h : d.Proper) : LeavesLock place d d := ⟨fun _ hf => hf, rfl, h⟩

theorem LeavesLock.trans (h : LeavesLock place d d') (h' : LeavesLock place d' d'') :
    LeavesLock place d d'' :=
  ⟨fun f hf => h'.file f (h.file f hf), h'.holders.trans h.holders, h'.proper⟩

/-- A disk with the names and the locks of a proper one. -/
theorem Proper.of_names (h : d.Proper) (ht : d'.tree = d.tree) (hl : d'.locks = d.locks)
    (hp : d'.faults = d.faults) (hs : d.contents.length ≤ d'.contents.length) : d'.Proper := by
  refine ⟨?_, ?_, hp ▸ h.reports⟩
  · intro place f hf
    rw [find?, ht] at hf
    exact Nat.lt_of_lt_of_le (h.named place f hf) hs
  · intro f hf
    rw [hl] at hf
    exact Nat.lt_of_lt_of_le (h.locked f hf) hs

theorem LeavesLock.of_names (h : d.Proper) (ht : d'.tree = d.tree) (hl : d'.locks = d.locks)
    (hp : d'.faults = d.faults) (hs : d.contents.length ≤ d'.contents.length) :
    LeavesLock place d d' := by
  have hf : d'.find? place = d.find? place := by rw [find?, find?, ht]
  exact ⟨fun f h => hf.trans h, holders_congr hf hl, h.of_names ht hl hp hs⟩

/-- **Changes of open files leave every lock alone**, also that of a file they change. -/
theorem Touches.leavesLock {ids : List FileId} (h : Touches ids d d') (hd : d.Proper) :
    LeavesLock place d d' :=
  .of_names hd h.tree h.locks h.faults (Nat.le_of_eq h.size.symm)

theorem Still.leavesLock (h : Still d d') (hd : d.Proper) : LeavesLock place d d' :=
  .of_names hd h.tree h.locks h.faults h.size

/-- Nobody holds the lock of a file that was just made. -/
theorem leavesLock_withNew (h : d.Proper) (hv : d.find? other = none) :
    LeavesLock place d (d.withNew other) := by
  have hsize : (d.withNew other).contents.length = d.contents.length + 1 := by simp [withNew]
  refine ⟨fun f hf => (grows_withNew hv).names _ _ hf, ?_, ⟨?_, ?_, h.reports⟩⟩
  · by_cases hp : place = other
    · subst hp
      have hnew : (d.withNew place).find? place = some (.file d.contents.length) := by
        rw [find?_withNew, if_pos rfl]
      rw [holders_of_file hnew, holders_of_none hv]
      exact List.count_eq_zero.mpr fun hm => Nat.lt_irrefl _ (h.locked _ hm)
    · exact holders_congr (by rw [find?_withNew, if_neg hp]) rfl
  · intro place f hf
    rw [find?_withNew] at hf
    rw [hsize]
    split at hf
    · cases hf
      exact Nat.lt_succ_self _
    · exact Nat.lt_succ_of_lt (h.named place f hf)
  · intro f hf
    rw [hsize]
    exact Nat.lt_succ_of_lt (h.locked f hf)

end LeavesLock

/-! ### Making directories -/

/-- The second disk is the first with more directories at most. -/
structure Furnishes (d d' : Disk) : Prop where
  file : ∀ place f, d'.find? place = some (.file f) ↔ d.find? place = some (.file f)
  contents : d'.contents = d.contents
  locks : d'.locks = d.locks
  faults : d'.faults = d.faults

section Furnishes

variable {d d' d'' : Disk} {place : Place}

theorem Furnishes.refl (d : Disk) : Furnishes d d := ⟨fun _ _ => Iff.rfl, rfl, rfl, rfl⟩

theorem Furnishes.trans (h : Furnishes d d') (h' : Furnishes d' d'') : Furnishes d d'' :=
  ⟨fun place f => (h'.file place f).trans (h.file place f), h'.contents.trans h.contents,
    h'.locks.trans h.locks, h'.faults.trans h.faults⟩

theorem Furnishes.read? (h : Furnishes d d') (place : Place) : d'.read? place = d.read? place := by
  have hfile := h.file place
  unfold Disk.read?
  split
  · next f hf =>
    simp only [(hfile f).mp hf, content, h.contents]
  · next hnone =>
    split
    · next f hf => exact absurd ((hfile f).mpr hf) (hnone f)
    · rfl

theorem Furnishes.leavesLock (h : Furnishes d d') (hd : d.Proper) : LeavesLock place d d' := by
  have hfile := h.file place
  refine ⟨fun f => (hfile f).mpr, ?_, ⟨?_, ?_, h.faults ▸ hd.reports⟩⟩
  · unfold Disk.holders
    split
    · next f hf => rw [(hfile f).mp hf, h.locks]
    · next hnone =>
      split
      · next f hf => exact absurd ((hfile f).mpr hf) (hnone f)
      · rfl
  · intro place f hf
    rw [h.contents]
    exact hd.named place f ((h.file place f).mp hf)
  · rw [h.contents, h.locks]
    exact hd.locked

theorem furnishes_addDirectory (h : d.find? place = none) : Furnishes d (d.addDirectory place) := by
  refine ⟨?_, rfl, rfl, rfl⟩
  intro other f
  have hfind : (d.addDirectory place).find? other =
      if other = place then some (.directory d.directories.length) else d.find? other := by
    by_cases ho : other = place
    · simp [find?, addDirectory, ho]
    · have hne : (other == place) = false := by simp [ho]
      simp [find?, addDirectory, List.lookup_cons, ho, hne]
  rw [hfind]
  split
  · next ho =>
    rw [ho, h]
    simp
  · rfl

theorem furnishes_ensureWay (steps : List Step) :
    ∀ id made d, Furnishes d (finalState (ensureWay id made steps d)) := by
  induction steps with
  | nil => exact fun _ _ d => .refl d
  | cons s rest ih =>
    intro id made d
    cases s with
    | here => exact ih id made d
    | up => exact ih (d.parent id) made d
    | name name =>
      simp only [ensureWay, bind_apply]
      cases placeIn id name with
      | error e => exact .refl d
      | ok place =>
        simp only [attempt, pure_apply, get_apply]
        cases hf : d.find? place with
        | none => exact (furnishes_addDirectory hf).trans (ih _ true _)
        | some node =>
          cases node with
          | directory next => exact ih next made d
          | file f => exact .refl d

theorem furnishes_ensureDirectory (p : Path) (d : Disk) :
    Furnishes d (finalState (ensureDirectory p d)) := by
  simp only [ensureDirectory, bind_apply, get_apply]
  cases d.locate p with
  | error e => exact .refl d
  | ok target =>
    cases target with
    | directory id => exact .refl d
    | entry place slash =>
      simp only [attempt, pure_apply, bind_apply, get_apply]
      cases hf : d.find? place with
      | none => exact furnishes_addDirectory hf
      | some node => cases node <;> exact .refl d

theorem furnishes_makeWay (p : Path) (d : Disk) : Furnishes d (finalState (makeWay p d)) := by
  unfold makeWay
  by_cases hn : Path.hasNul p.way = true
  · simp only [if_pos hn]
    exact .refl d
  · by_cases hs : pathLimit < p.waySize
    · simp only [if_neg hn, if_pos hs]
      exact .refl d
    · simp only [if_neg hn, if_neg hs]
      exact furnishes_ensureWay _ _ _ d

/-- **To make directories leaves every file as it is**, also where it fails half way. -/
theorem furnishes_makeDirectories (p : Path) (d : Disk) :
    Furnishes d (finalState (makeDirectories p d)) := by
  unfold makeDirectories
  by_cases he : p.isEmpty = true
  · simp only [if_pos he]
    exact .refl d
  cases hr : p.refusal? with
  | some failure =>
    simp only [if_neg he]
    exact .refl d
  | none =>
    have hway := furnishes_makeWay p d
    simp only [if_neg he, bind_apply]
    cases hw : makeWay p d with
    | error e d₁ =>
      rw [hw] at hway
      exact hway
    | ok _ d₁ =>
      rw [hw] at hway
      exact hway.trans (furnishes_ensureDirectory p d₁)

end Furnishes

/-! ### Work that leaves locks alone -/

section SparesLock

variable {σ α β : Type} {disk : σ → Disk} {place : Place}

/-- Whatever comes of the work, it leaves the lock of the name alone. -/
def SparesLock (disk : σ → Disk) (place : Place) (work : EStateM StoreError σ α) : Prop :=
  ∀ s, (disk s).Proper → LeavesLock place (disk s) (disk (finalState (work s)))

theorem sparesLock_pure (a : α) : SparesLock disk place (pure a : EStateM StoreError σ α) :=
  fun _ hd => .refl hd

theorem SparesLock.bind {work : EStateM StoreError σ α} {next : α → EStateM StoreError σ β}
    (h : SparesLock disk place work) (hn : ∀ a, SparesLock disk place (next a)) :
    SparesLock disk place (work >>= next) := by
  intro s hd
  have hw := h s hd
  rw [bind_apply]
  generalize work s = r at hw
  cases r with
  | ok a s' => exact hw.trans (hn a s' hw.proper)
  | error e s' => exact hw

end SparesLock

section OpenFiles

variable {place : Place}

theorem touches_resize (id : FileId) (n : Nat) (d : Disk) :
    Touches [id] d (finalState (resize id n d)) := by
  have hasked : Touches [id] d d.asked := (touches_asked d).mono (by simp)
  rw [resize_eq]
  split
  · exact hasked.trans (touches_setContent _ id _)
  · exact hasked
  · exact hasked

theorem touches_writeAt (id : FileId) (offset : Nat) (bs : Bytes) (d : Disk) :
    Touches [id] d (finalState (writeAt id offset bs d)) := by
  have hasked : Touches [id] d d.asked := (touches_asked d).mono (by simp)
  by_cases hb : bs = []
  · subst hb
    exact .refl _ d
  rw [writeAt_eq hb]
  split <;> exact hasked.trans (touches_setContent _ id _)

theorem sparesLock_resize (id : FileId) (n : Nat) :
    SparesLock (fun d => d) place (resize id n) :=
  fun d hd => (touches_resize id n d).leavesLock hd

theorem sparesLock_writeAt (id : FileId) (offset : Nat) (bs : Bytes) :
    SparesLock (fun d => d) place (writeAt id offset bs) :=
  fun d hd => (touches_writeAt id offset bs d).leavesLock hd

theorem sparesLock_trim (id : FileId) (old new : Nat) :
    SparesLock (fun d => d) place (trim id old new) := by
  unfold trim
  split
  · exact sparesLock_resize id new
  · exact sparesLock_pure ()

theorem vacant_of_vacancy {d : Disk} {p : Path} (h : d.vacancy p = .ok (.inr place)) :
    d.find? place = none := by
  unfold vacancy at h
  obtain ⟨target, -, h⟩ := bind_eq_ok h
  cases target with
  | directory id => cases h
  | entry other slash =>
    cases slash with
    | true => cases h
    | false =>
      simp only [Bool.false_eq_true, if_false] at h
      split at h
      · cases h
      · cases h
      · next hf =>
        cases h
        exact hf

theorem sparesLock_openFile (p : Path) : SparesLock (fun d => d) place (openFile p) := by
  intro d hd
  simp only [openFile, bind_apply, get_apply]
  cases hv : d.vacancy p with
  | error e => exact .refl hd
  | ok found =>
    cases found with
    | inl id => exact .refl hd
    | inr other =>
      simp only [attempt, pure_apply]
      rw [create_eq]
      cases d.faults d.changes .create with
      | done => exact leavesLock_withNew hd (vacant_of_vacancy hv)
      | fails stored => exact (still_withSpare d).leavesLock hd
      | lost stored => exact (still_withSpare d).leavesLock hd

end OpenFiles

end Disk

end ColdArchive
