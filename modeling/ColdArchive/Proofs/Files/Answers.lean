import ColdArchive.Hosted
import ColdArchive.Proofs.Files.Recovery
import ColdArchive.Proofs.Memory

/-!
# The answers of an archive in files

Work on files fails with a failure of the disk or with a refusal of the archive, and a call is
answered with what it asks for, so that an archive in files is an archive at hand as one in memory.
-/

namespace ColdArchive

section Causes

variable {σ α β : Type}

/-- The work fails only in a way in which an archive at hand can. -/
def FailsLocally (work : EStateM StoreError σ α) : Prop :=
  ∀ s e s', work s = .error e s' → e.IsLocal

theorem failsLocally_pure (a : α) : FailsLocally (pure a : EStateM StoreError σ α) :=
  fun _ _ _ h => by cases h

theorem failsLocally_throw {e : StoreError} (h : e.IsLocal) :
    FailsLocally (throw e : EStateM StoreError σ α) := by
  intro s e' s' he
  cases he
  exact h

theorem failsLocally_get : FailsLocally (get : EStateM StoreError σ σ) :=
  fun _ _ _ h => by cases h

theorem failsLocally_modify (f : σ → σ) : FailsLocally (modify f : EStateM StoreError σ PUnit) :=
  fun _ _ _ h => by cases h

theorem FailsLocally.bind {work : EStateM StoreError σ α} {next : α → EStateM StoreError σ β}
    (h : FailsLocally work) (hn : ∀ a, FailsLocally (next a)) : FailsLocally (work >>= next) := by
  intro s e s' he
  rw [bind_apply] at he
  cases hw : work s with
  | ok a s₁ =>
    rw [hw] at he
    exact hn a s₁ e s' he
  | error e₁ s₁ =>
    rw [hw] at he
    cases he
    exact h s _ _ hw

end Causes

/-! ### Files and tables -/

theorem Disk.failsLocally_resize (id : FileId) (n : Nat) : FailsLocally (Disk.resize id n) := by
  intro d e d' h
  rw [Disk.resize_eq] at h
  split at h <;> cases h
  trivial

theorem Disk.failsLocally_writeAt (id : FileId) (offset : Nat) (bs : Bytes) :
    FailsLocally (Disk.writeAt id offset bs) := by
  intro d e d' h
  by_cases hb : bs = []
  · subst hb
    cases h
  rw [Disk.writeAt_eq hb] at h
  split at h <;> cases h
  trivial

theorem Disk.failsLocally_readAt (id : FileId) (offset count : Nat) :
    FailsLocally (Disk.readAt id offset count) := by
  intro d e d' h
  rw [Disk.readAt_eq] at h
  split at h <;> cases h
  trivial

theorem TableM.failsLocally_onDisk {α : Type} {work : DiskM α} (h : FailsLocally work) :
    FailsLocally (TableM.onDisk work) := by
  rintro ⟨t, d⟩ e s' he
  rw [TableM.onDisk] at he
  cases hw : work d with
  | ok a d' => rw [hw] at he; cases he
  | error e' d' =>
    rw [hw] at he
    cases he
    exact h d _ _ hw

namespace Table

theorem failsLocally_retrieve (t : Table) (n : Nat) : FailsLocally (t.retrieve n) := by
  unfold retrieve
  cases t.ends[n]? with
  | none => exact failsLocally_pure none
  | some stop => exact (Disk.failsLocally_readAt _ _ _).bind fun _ => failsLocally_pure _

theorem failsLocally_extend (t : Table) (blob : Blob) : FailsLocally (t.extend blob) :=
  (Disk.failsLocally_resize _ _).bind fun _ => (Disk.failsLocally_writeAt _ _ _).bind fun _ =>
    (Disk.failsLocally_resize _ _).bind fun _ => (Disk.failsLocally_writeAt _ _ _).bind fun _ =>
      failsLocally_pure _

theorem failsLocally_cutFiles (t : Table) (n : Nat) : FailsLocally (t.cutFiles n) :=
  (Disk.failsLocally_resize _ _).bind fun _ => Disk.failsLocally_resize _ _

theorem failsLocally_append (n : Nat) (blob : Blob) : FailsLocally (Table.append n blob) := by
  apply failsLocally_get.bind
  intro s
  obtain ⟨t, d⟩ := s
  by_cases h : t.items < n
  · simp only [if_pos h]
    exact (failsLocally_throw (by trivial)).bind fun _ => (failsLocally_modify _).bind fun _ =>
      (TableM.failsLocally_onDisk (failsLocally_extend _ _)).bind fun _ => failsLocally_modify _
  · simp only [if_neg h]
    exact (failsLocally_modify _).bind fun _ =>
      (TableM.failsLocally_onDisk (failsLocally_extend _ _)).bind fun _ => failsLocally_modify _

theorem failsLocally_truncate (n : Nat) : FailsLocally (Table.truncate n) := by
  apply failsLocally_get.bind
  intro s
  obtain ⟨t, d⟩ := s
  by_cases h : t.items < n
  · simp only [if_pos h]
    exact failsLocally_pure _
  · simp only [if_neg h]
    exact (TableM.failsLocally_onDisk (failsLocally_cutFiles _ _)).bind fun _ =>
      failsLocally_modify _

end Table

/-! ### The archive -/

namespace FileM

theorem failsLocally_onDisk {α : Type} {work : DiskM α} (h : FailsLocally work) :
    FailsLocally (onDisk work) := by
  intro s e s' he
  rw [onDisk] at he
  cases hw : work s.disk with
  | ok a d => rw [hw] at he; cases he
  | error e' d =>
    rw [hw] at he
    cases he
    exact h _ _ _ hw

theorem failsLocally_onTable {α : Type} (c : Category) {work : TableM α} (h : FailsLocally work) :
    FailsLocally (onTable c work) := by
  intro s e s' he
  rw [onTable] at he
  cases hw : work (s.tables.get c, s.disk) with
  | ok a t => rw [hw] at he; cases he
  | error e' t =>
    rw [hw] at he
    cases he
    exact h _ _ _ hw

theorem failsLocally_cutTables (n : Nat) (cs : List Category) : FailsLocally (cutTables n cs) := by
  induction cs with
  | nil => exact failsLocally_pure _
  | cons c cs ih =>
    exact (failsLocally_onTable c (Table.failsLocally_truncate n)).bind fun _ => ih

theorem failsLocally_writeBlobs (number : Nat) (record : Record) (written cs : List Category) :
    FailsLocally (writeBlobs number record written cs) := by
  induction cs generalizing written with
  | nil => exact failsLocally_pure _
  | cons c cs ih =>
    intro s e s' h
    simp only [writeBlobs] at h
    split at h
    · exact ih _ _ _ _ h
    · rename_i e₁ s₁ hw
      split at h
      · cases h
        exact failsLocally_onTable c (Table.failsLocally_append number _) _ _ _ hw
      · rename_i e₂ s₂ hc
        cases h
        exact failsLocally_cutTables number _ _ _ _ hc

theorem failsLocally_append (number : Nat) (record : Record) :
    FailsLocally (append number record) := by
  apply failsLocally_get.bind
  intro s
  by_cases h : number ≠ s.frozen
  · simp only [if_pos h]
    exact (failsLocally_throw (by trivial)).bind fun _ =>
      (failsLocally_writeBlobs _ _ _ _).bind fun _ => failsLocally_modify _
  · simp only [if_neg h]
    exact (failsLocally_writeBlobs _ _ _ _).bind fun _ => failsLocally_modify _

theorem failsLocally_truncate (target : Nat) : FailsLocally (truncate target) := by
  apply failsLocally_get.bind
  intro s
  by_cases h : s.frozen < target
  · simp only [if_pos h]
    exact (failsLocally_throw (by trivial)).bind fun _ => (failsLocally_modify _).bind fun _ =>
      failsLocally_cutTables _ _
  · simp only [if_neg h]
    exact (failsLocally_modify _).bind fun _ => failsLocally_cutTables _ _

theorem failsLocally_read (c : Category) (number : Nat) : FailsLocally (read c number) := by
  apply failsLocally_get.bind
  intro s
  by_cases h : s.frozen ≤ number
  · simp only [if_pos h]
    intro s e s' he
    cases he
    trivial
  · simp only [if_neg h]
    refine (failsLocally_onDisk (Table.failsLocally_retrieve _ _)).bind fun blob? => ?_
    cases blob? with
    | some blob => exact failsLocally_pure blob
    | none => exact failsLocally_throw (by trivial)

theorem failsLocally_perform (call : Call) : FailsLocally (perform call) := by
  cases call with
  | has c number => exact failsLocally_get.bind fun _ => failsLocally_pure _
  | read c number => exact (failsLocally_read c number).bind fun _ => failsLocally_pure _
  | count => exact failsLocally_get.bind fun _ => failsLocally_pure _
  | size c => exact failsLocally_get.bind fun _ => failsLocally_pure _
  | append number record =>
    exact (failsLocally_append number record).bind fun _ => failsLocally_pure _
  | truncate target => exact (failsLocally_truncate target).bind fun _ => failsLocally_pure _
  | sync => exact failsLocally_pure _
  | close => exact failsLocally_pure _

/-- A call is answered with what it asks for. -/
theorem suits_perform {call : Call} {s s' : FileState} {reply : Reply}
    (h : perform call s = .ok reply s') : reply.Suits call := by
  cases call with
  | read c number =>
    simp only [perform, bind_apply] at h
    cases hr : read c number s <;> rw [hr] at h <;> cases h
    trivial
  | append number record =>
    simp only [perform, bind_apply] at h
    cases hr : append number record s <;> rw [hr] at h <;> cases h
    trivial
  | truncate target =>
    simp only [perform, bind_apply] at h
    cases hr : truncate target s <;> rw [hr] at h <;> cases h
    trivial
  | _ =>
    cases h
    trivial

end FileM

/-! ### Opening -/

namespace Disk

theorem failsLocally_attempt {α : Type} (found : Except IoFailure α) :
    FailsLocally (attempt found) := by
  cases found with
  | ok a => exact failsLocally_pure a
  | error failure => exact failsLocally_throw trivial

theorem failsLocally_ensureWay (id : DirectoryId) (made : Bool) (steps : List Step) :
    FailsLocally (ensureWay id made steps) := by
  induction steps generalizing id made with
  | nil => exact failsLocally_pure ()
  | cons s rest ih =>
    cases s with
    | here => exact ih id made
    | up => exact failsLocally_get.bind fun d => ih (d.parent id) made
    | name name =>
      refine (failsLocally_attempt _).bind fun place => failsLocally_get.bind fun d => ?_
      cases d.find? place with
      | none =>
        exact failsLocally_get.bind fun _ => (failsLocally_modify _).bind fun _ => ih _ true
      | some node =>
        cases node with
        | directory next => exact ih next made
        | file f => exact failsLocally_throw trivial

theorem failsLocally_ensureDirectory (p : Path) : FailsLocally (ensureDirectory p) := by
  refine failsLocally_get.bind fun d => (failsLocally_attempt _).bind fun target => ?_
  cases target with
  | directory id => exact failsLocally_pure ()
  | entry place slash =>
    refine failsLocally_get.bind fun d => ?_
    cases d.find? place with
    | none => exact failsLocally_modify _
    | some node =>
      cases node with
      | directory next => exact failsLocally_pure ()
      | file f => exact failsLocally_throw trivial

theorem failsLocally_makeWay (p : Path) : FailsLocally (makeWay p) := by
  have walk : FailsLocally (do ensureWay ((← get).start p) false p.way) :=
    failsLocally_get.bind fun _ => failsLocally_ensureWay _ _ _
  have short : FailsLocally (do
      if pathLimit < p.waySize then throw (.io .nameTooLong)
      ensureWay ((← get).start p) false p.way) := by
    by_cases hs : pathLimit < p.waySize
    · simp only [if_pos hs]
      exact (failsLocally_throw (by trivial)).bind fun _ => walk
    · simp only [if_neg hs]
      exact walk
  unfold makeWay
  by_cases hn : Path.hasNul p.way = true
  · simp only [if_pos hn]
    exact (failsLocally_throw (by trivial)).bind fun _ => short
  · simp only [if_neg hn]
    exact short

theorem failsLocally_makeDirectories (p : Path) : FailsLocally (makeDirectories p) := by
  have make : FailsLocally (do makeWay p; ensureDirectory p) :=
    (failsLocally_makeWay p).bind fun _ => failsLocally_ensureDirectory p
  unfold makeDirectories
  by_cases he : p.isEmpty = true
  · simp only [if_pos he]
    exact failsLocally_pure ()
  · simp only [if_neg he]
    cases p.refusal? with
    | some failure => exact (failsLocally_throw (by trivial)).bind fun _ => make
    | none => exact make

theorem failsLocally_create (place : Place) : FailsLocally (create place) := by
  intro d e d' h
  rw [create_eq] at h
  split at h <;> cases h
  trivial

theorem failsLocally_openFile (p : Path) : FailsLocally (openFile p) := by
  refine failsLocally_get.bind fun d => (failsLocally_attempt _).bind fun found => ?_
  cases found with
  | inl id => exact failsLocally_pure id
  | inr place => exact failsLocally_create place

theorem failsLocally_trim (id : FileId) (old new : Nat) : FailsLocally (trim id old new) := by
  unfold trim
  split
  · exact failsLocally_resize id new
  · exact failsLocally_pure ()

end Disk

theorem Table.failsLocally_openAt (path : Path) (c : Category) :
    FailsLocally (Table.openAt path c) := by
  rw [Table.openAt_eq]
  refine (Disk.failsLocally_openFile _).bind fun data =>
    (Disk.failsLocally_openFile _).bind fun index => ?_
  intro d e d' h
  unfold Table.settle at h
  split at h
  · cases h
    trivial
  · exact ((Disk.failsLocally_trim _ _ _).bind fun _ => (Disk.failsLocally_trim _ _ _).bind
      fun _ => failsLocally_pure _) d e d' h

theorem FileM.failsLocally_repair : FailsLocally FileM.repair :=
  failsLocally_get.bind fun _ => (failsLocally_modify _).bind fun _ =>
    (failsLocally_cutTables _ _).bind fun _ => failsLocally_pure _

/-- **An archive whose lock was taken fails to open as an archive at hand fails**, and is not said
to be locked. -/
theorem FileArchive.failsLocally_openLocked (directory : String) (lock : FileId) :
    FailsLocally (FileArchive.openLocked directory lock) := by
  have table := Table.failsLocally_openAt (Path.ofText directory)
  have tables : FailsLocally (FileArchive.openTables (Path.ofText directory)) :=
    (table _).bind fun _ => (table _).bind fun _ => (table _).bind fun _ => (table _).bind fun _ =>
      (table _).bind fun _ => failsLocally_pure _
  rw [FileArchive.openLocked_eq]
  refine tables.bind fun ts => ?_
  intro d e d' h
  unfold FileArchive.align at h
  split at h
  · next s hr =>
    cases h
    exact FileM.failsLocally_repair _ _ _ hr
  · cases h

namespace FileArchive

variable {a : FileArchive} {d : Disk} {call : Call}

theorem isLocal_work (a : FileArchive) (d : Disk) (call : Call) :
    Outcome.IsLocal call (a.work d (FileM.perform call)).1 := by
  cases ho : a.opened with
  | none => simp [work_of_closed ho, StoreError.IsLocal]
  | some o =>
    rw [work_eq ho]
    cases hp : FileM.perform call (a.state o d) with
    | ok reply s => simpa using FileM.suits_perform hp
    | error e s => simpa using FileM.failsLocally_perform call _ _ _ hp

theorem isClosed_of_opened (ho : a.opened = none) : Archive.IsClosed (a, d) := by
  intro now ctx call h
  show a.perform d now ctx call = _
  by_cases hc : call = .close
  · subst hc
    simp [perform, release, ho]
  · rw [perform_of_live h hc, if_neg hc, work_of_closed ho]

instance : LocalArchive (FileArchive × Disk) where
  live := by
    rintro ⟨a, d⟩ now now' ctx ctx' call h h'
    show a.perform d now ctx call = a.perform d now' ctx' call
    by_cases hc : call = .close
    · subst hc
      rfl
    · rw [perform_of_live h hc, perform_of_live h' hc]
  stopped := fun _ _ _ _ _ hk hc => perform_of_check hk hc
  outcome := by
    rintro ⟨a, d⟩ now ctx call
    show Outcome.IsLocal call (a.perform d now ctx call).1
    by_cases hc : call = .close
    · subst hc
      simp [perform, Reply.Suits]
    cases hk : ctx.check now with
    | error e =>
      rw [perform_of_check hk hc]
      simpa using StoreError.isLocal_of_check hk
    | ok _ =>
      rw [perform_of_live hk hc]
      exact a.isLocal_work d call
  close := by
    rintro ⟨a, d⟩ now ctx
    exact ⟨rfl, isClosed_of_opened (opened_release a d)⟩

end FileArchive

/-! ### An archive of either kind -/

namespace Hosted

theorem perform_memory (m : Memory) (d : Disk) (now : Instant) (ctx : Context) (call : Call) :
    Archive.perform (memory m, d) now ctx call =
      ((Archive.perform m now ctx call).1, memory (Archive.perform m now ctx call).2, d) := rfl

theorem perform_files (a : FileArchive) (d : Disk) (now : Instant) (ctx : Context) (call : Call) :
    Archive.perform (files a, d) now ctx call =
      ((Archive.perform (a, d) now ctx call).1, files (Archive.perform (a, d) now ctx call).2.1,
        (Archive.perform (a, d) now ctx call).2.2) := rfl

instance : LocalArchive (Hosted × Disk) where
  live := by
    rintro ⟨m | a, d⟩ now now' ctx ctx' call h h'
    · rw [perform_memory, perform_memory, LocalArchive.live m now now' ctx ctx' call h h']
    · rw [perform_files, perform_files, LocalArchive.live (a, d) now now' ctx ctx' call h h']
  stopped := by
    rintro ⟨m | a, d⟩ now ctx call e hk hc
    · rw [perform_memory, LocalArchive.stopped m now ctx call e hk hc]
    · rw [perform_files, LocalArchive.stopped (a, d) now ctx call e hk hc]
  outcome := by
    rintro ⟨m | a, d⟩ now ctx call
    · exact LocalArchive.outcome m now ctx call
    · exact LocalArchive.outcome (a, d) now ctx call
  close := by
    rintro ⟨m | a, d⟩ now ctx
    · obtain ⟨hr, hc⟩ := LocalArchive.close m now ctx
      refine ⟨hr, ?_⟩
      intro now' ctx' call h
      rw [perform_memory, perform_memory, hc now' ctx' call h]
    · obtain ⟨hr, hc⟩ := LocalArchive.close (a, d) now ctx
      refine ⟨hr, ?_⟩
      intro now' ctx' call h
      rw [perform_files, perform_files, hc now' ctx' call h]

end Hosted

end ColdArchive
