import ColdArchive.Proofs.Disk.Lock
import ColdArchive.Proofs.Files.Answers
import ColdArchive.Proofs.Files.Live

/-!
# The lock of an archive

Work of an archive leaves every lock alone, so the lock of a directory changes hands at an opening
and at a release and nowhere else. An opening takes the lock before it looks at the tables, and has
given it back if it fails.
-/

namespace ColdArchive

open Disk (SparesLock sparesLock_pure sparesLock_resize sparesLock_writeAt)

variable {place : Place}

/-! ### Work on tables -/

namespace Table

theorem sparesLock_extend (t : Table) (blob : Blob) :
    SparesLock (fun d => d) place (t.extend blob) :=
  (sparesLock_resize _ _).bind fun _ => (sparesLock_writeAt _ _ _).bind fun _ =>
    (sparesLock_resize _ _).bind fun _ => (sparesLock_writeAt _ _ _).bind fun _ =>
      sparesLock_pure _

theorem sparesLock_cutFiles (t : Table) (n : Nat) :
    SparesLock (fun d => d) place (t.cutFiles n) :=
  (sparesLock_resize _ _).bind fun _ => sparesLock_resize _ _

theorem sparesLock_append (n : Nat) (blob : Blob) :
    SparesLock Prod.snd place (Table.append n blob) := by
  rintro ⟨t, d⟩ hd
  rw [append_eq]
  split
  · exact .refl hd
  · have hextend : Disk.LeavesLock place d _ := sparesLock_extend (t.keep n) blob d hd
    cases hx : (t.keep n).extend blob d <;> rw [hx] at hextend <;> exact hextend

theorem sparesLock_truncate (n : Nat) : SparesLock Prod.snd place (Table.truncate n) := by
  rintro ⟨t, d⟩ hd
  rw [truncate_eq]
  split
  · exact .refl hd
  · have hcut : Disk.LeavesLock place d _ := sparesLock_cutFiles t n d hd
    cases hc : t.cutFiles n d <;> rw [hc] at hcut <;> exact hcut

theorem sparesLock_openAt (path : Path) (c : Category) :
    SparesLock (fun d => d) place (Table.openAt path c) := by
  rw [Table.openAt_eq]
  refine (Disk.sparesLock_openFile _).bind fun data =>
    (Disk.sparesLock_openFile _).bind fun index => ?_
  intro d hd
  unfold Table.settle
  cases Table.told (d.bytes data) (d.bytes index) with
  | error item => exact .refl hd
  | ok blobs =>
    exact ((Disk.sparesLock_trim _ _ _).bind fun _ => (Disk.sparesLock_trim _ _ _).bind fun _ =>
      sparesLock_pure _) d hd

end Table

/-! ### Work on an open archive -/

namespace FileM

theorem sparesLock_onTable {α : Type} (c : Category) {work : TableM α}
    (h : SparesLock Prod.snd place work) :
    SparesLock FileState.disk place (onTable c work) := by
  intro s hd
  have hw := h (s.tables.get c, s.disk) hd
  unfold onTable
  generalize work (s.tables.get c, s.disk) = r at hw
  cases r <;> exact hw

theorem sparesLock_cutTables (n : Nat) (cs : List Category) :
    SparesLock FileState.disk place (cutTables n cs) := by
  induction cs with
  | nil => exact sparesLock_pure _
  | cons c cs ih =>
    rw [cutTables_cons]
    exact (sparesLock_onTable c (Table.sparesLock_truncate n)).bind fun _ => ih

/-- Whether a record is written or taken back, the lock is left alone. -/
theorem sparesLock_writeBlobs (number : Nat) (record : Record) (written cs : List Category) :
    SparesLock FileState.disk place (writeBlobs number record written cs) := by
  induction cs generalizing written with
  | nil => exact sparesLock_pure _
  | cons c cs ih =>
    intro s hd
    have hw : Disk.LeavesLock place s.disk _ :=
      sparesLock_onTable c (Table.sparesLock_append number (record.get c)) s hd
    simp only [writeBlobs]
    generalize onTable c (Table.append number (record.get c)) s = r at hw
    cases r with
    | ok _ s₁ => exact hw.trans (ih _ s₁ hw.proper)
    | error e s₁ =>
      have hcut : Disk.LeavesLock place s₁.disk _ :=
        sparesLock_cutTables number (written ++ [c]) s₁ hw.proper
      simp only
      generalize cutTables number (written ++ [c]) s₁ = r at hcut
      cases r <;> exact hw.trans hcut

theorem sparesLock_append (number : Nat) (record : Record) :
    SparesLock FileState.disk place (append number record) := by
  intro s hd
  by_cases h : number = s.frozen
  · subst h
    have hw : Disk.LeavesLock place s.disk _ :=
      sparesLock_writeBlobs s.frozen record [] Category.all s hd
    rw [append_eq]
    generalize writeBlobs s.frozen record [] Category.all s = r at hw
    cases r <;> exact hw
  · rw [append_of_ne h]
    exact .refl hd

theorem sparesLock_truncate (target : Nat) :
    SparesLock FileState.disk place (truncate target) := by
  intro s hd
  by_cases h : s.frozen < target
  · rw [truncate_of_lt h]
    exact .refl hd
  · rw [truncate_eq (Nat.not_lt.mp h)]
    exact sparesLock_cutTables target Category.all { s with frozen := target } hd

/-- **No call takes the lock or gives it back**, but a close. -/
theorem sparesLock_perform (call : Call) : SparesLock FileState.disk place (perform call) := by
  intro s hd
  rw [finalState_perform]
  cases call with
  | append number record => exact sparesLock_append number record s hd
  | truncate target => exact sparesLock_truncate target s hd
  | _ => exact .refl hd

theorem sparesLock_repair : SparesLock FileState.disk place repair := by
  intro s hd
  have hcut : Disk.LeavesLock place s.disk _ := sparesLock_cutTables (leastCount (lengths s))
    Category.all { s with frozen := leastCount (lengths s) } hd
  rw [repair_eq]
  generalize cutTables (leastCount (lengths s)) Category.all
    { s with frozen := leastCount (lengths s) } = r at hcut
  cases r <;> exact hcut

end FileM

namespace FileArchive

/-- The file whose lock the handle holds. -/
def lock? (a : FileArchive) : Option FileId := a.opened.map OpenTables.lock

section Handle

variable {a : FileArchive} {o : OpenTables} {d : Disk}

theorem lock?_of_opened (h : a.opened = some o) : a.lock? = some o.lock := by
  rw [lock?, h]
  rfl

theorem lock?_of_closed (h : a.opened = none) : a.lock? = none := by
  rw [lock?, h]
  rfl

theorem opened_of_lock? {f : FileId} (h : a.lock? = some f) : ∃ o, a.opened = some o ∧ o.lock = f :=
  Option.map_eq_some_iff.mp h

/-- **Work on a handle leaves the lock with who holds it.** -/
theorem leavesLock_work {α : Type} {f : FileM α} (h : SparesLock FileState.disk place f)
    (hd : d.Proper) :
    Disk.LeavesLock place d (a.work d f).2.2 ∧ (a.work d f).2.1.lock? = a.lock? := by
  cases ho : a.opened with
  | none =>
    rw [work_of_closed ho]
    exact ⟨.refl hd, rfl⟩
  | some o =>
    rw [work_state ho, lock?_of_opened ho]
    exact ⟨h (a.state o d) hd, rfl⟩

theorem leavesLock_perform {now : Instant} {ctx : Context} {call : Call} (hc : call ≠ .close)
    (hd : d.Proper) :
    Disk.LeavesLock place d (a.perform d now ctx call).2.2 ∧
      (a.perform d now ctx call).2.1.lock? = a.lock? := by
  cases hk : ctx.check now with
  | error e =>
    rw [perform_of_check hk hc]
    exact ⟨.refl hd, rfl⟩
  | ok _ =>
    rw [perform_of_live hk hc]
    exact leavesLock_work (FileM.sparesLock_perform call) hd

end Handle

/-! ### Opening -/

theorem sparesLock_openLocked (directory : String) (lock : FileId) :
    SparesLock (fun d => d) place (openLocked directory lock) := by
  have table : ∀ c, SparesLock (fun d => d) place (Table.openAt (Path.ofText directory) c) :=
    Table.sparesLock_openAt _
  have tables : SparesLock (fun d => d) place (openTables (Path.ofText directory)) :=
    (table _).bind fun _ => (table _).bind fun _ => (table _).bind fun _ => (table _).bind fun _ =>
      (table _).bind fun _ => sparesLock_pure _
  rw [openLocked_eq]
  refine tables.bind fun ts => ?_
  intro d hd
  have hrepair : Disk.LeavesLock place d _ := FileM.sparesLock_repair ⟨ts, 0, d⟩ hd
  unfold align
  generalize FileM.repair ⟨ts, 0, d⟩ = r at hrepair
  cases r <;> exact hrepair

/-- A handle that was opened has the lock that was taken for it. -/
theorem openLocked_handle {directory : String} {lock : FileId} {d d' : Disk} {a : FileArchive}
    (h : openLocked directory lock d = .ok a d') :
    a.lock? = some lock ∧ a.directory = directory := by
  unfold openLocked at h
  split at h
  · cases h
  · split at h
    · cases h
    · cases h
      exact ⟨rfl, rfl⟩

/-- How an opening ends where one name is that of the lock: the lock is taken, or it was taken
before, or it is left alone since something else failed. -/
inductive OpeningEnds (directory : String) (place : Place) (d : Disk) :
    EStateM.Result StoreError Disk FileArchive → Prop where
  | opened {a : FileArchive} {d' : Disk} {f : FileId} (free : d.holders place = 0)
      (hand : a.lock? = some f) (file : d'.find? place = some (.file f))
      (held : d'.holders place = 1) (proper : d'.Proper) : OpeningEnds directory place d (.ok a d')
  | locked {d' : Disk} (held : d.holders place ≠ 0) (left : Disk.LeavesLock place d d') :
      OpeningEnds directory place d (.error (.locked directory) d')
  | failed {e : StoreError} {d' : Disk} (cause : e.IsLocal) (left : Disk.LeavesLock place d d') :
      OpeningEnds directory place d (.error e d')

section Opening

variable {directory : String} {id : DirectoryId} {d d' : Disk} {f : FileId}

/-- An opening that changes nothing of the lock before it asks for it. -/
theorem OpeningEnds.of_left {r : EStateM.Result StoreError Disk FileArchive}
    (h : OpeningEnds directory place d' r) (hl : Disk.LeavesLock place d d') :
    OpeningEnds directory place d r := by
  cases h with
  | opened free hand file held proper => exact .opened (hl.holders ▸ free) hand file held proper
  | locked held left => exact .locked (hl.holders ▸ held) (hl.trans left)
  | failed cause left => exact .failed cause (hl.trans left)

/-- **Who finds the lock free takes it, and has given it back if the opening fails.** -/
theorem openUnder_ends (hd : d.Proper) (hf : d.find? place = some (.file f)) :
    OpeningEnds directory place d (openUnder directory f d) := by
  unfold openUnder
  by_cases hm : f ∈ d.locks
  · rw [if_pos hm]
    refine .locked ?_ (.refl hd)
    rw [Disk.holders_of_file hf]
    exact Nat.ne_of_gt (List.count_pos_iff.mpr hm)
  rw [if_neg hm]
  have hfree : d.holders place = 0 := by
    rw [Disk.holders_of_file hf]
    exact List.count_eq_zero.mpr hm
  -- the disk on which the tables are opened, with the lock taken
  have hd₁ : Disk.Proper { d with locks := f :: d.locks } := by
    refine ⟨hd.named, ?_, hd.reports⟩
    intro g hg
    rcases List.mem_cons.mp hg with rfl | hg
    · exact hd.named place g hf
    · exact hd.locked g hg
  have held₁ : Disk.holders { d with locks := f :: d.locks } place = 1 := by
    rw [Disk.holders_cons hf, hfree]
  have hleft : Disk.LeavesLock place { d with locks := f :: d.locks } _ :=
    sparesLock_openLocked directory f _ hd₁
  cases ho : openLocked directory f { d with locks := f :: d.locks } with
  | ok a d₂ =>
    rw [ho] at hleft
    exact .opened hfree (openLocked_handle ho).1 (hleft.file f hf) (hleft.holders.trans held₁)
      hleft.proper
  | error e d₂ =>
    rw [ho] at hleft
    have hf₂ : d₂.find? place = some (.file f) := hleft.file f hf
    have held₂ : d₂.holders place = 1 := hleft.holders.trans held₁
    refine .failed (failsLocally_openLocked directory f _ _ _ ho) ⟨?_, ?_, hleft.proper.erase f⟩
    · intro g hg
      cases hf.symm.trans hg
      exact hf₂
    · rw [hfree, Disk.holders_erase hf₂, held₂]

/-- A name that was opened leads to the file. -/
theorem find?_of_openFile {p : Path} {name : String} (h : d.Reaches p id)
    (hn : Disk.IsFileName name) (hr : d.faults.Reports)
    (ho : Disk.openFile (p.child name) d = .ok f d') : d'.find? ⟨id, name⟩ = some (.file f) := by
  have refused : ∀ failure, d.vacancy (p.child name) ≠ .error failure := by
    intro failure hv
    simp only [Disk.openFile, bind_apply, get_apply, hv] at ho
    cases ho
  cases hp : (p.child name).refusal? with
  | some failure =>
    refine absurd ?_ (refused failure)
    simp only [Disk.vacancy, Disk.locate, hp, error_bind]
  | none =>
    cases hf : d.find? ⟨id, name⟩ with
    | none =>
      rw [Disk.openFile_of_vacant h hn hp hf, Disk.create_eq] at ho
      split at ho
      · cases ho
        rw [Disk.find?_withNew, if_pos rfl]
      · cases ho
      · next stored hlost => exact absurd hlost (hr _ _ stored)
    | some node =>
      cases node with
      | file g =>
        rw [Disk.openFile_of_found h hn hp hf] at ho
        cases ho
        exact hf
      | directory next =>
        refine absurd ?_ (refused .isDirectory)
        simp only [Disk.vacancy, Disk.locate_child h hn hp, ok_bind, hf]
        rfl

/-- The text is one of the directory, unless there cannot be a directory for it. -/
def MeantBy (id : DirectoryId) (d : Disk) (directory : String) : Prop :=
  ∀ d', Disk.makeDirectories (Path.ofText directory) d = .ok () d' →
    d'.Reaches (Path.ofText directory) id

/-- **How an opening of a directory ends**, whatever the directory holds. -/
theorem openAt_ends (hd : d.Proper) (h : MeantBy id d directory) :
    OpeningEnds directory ⟨id, lockName⟩ d (openAt directory d) := by
  have hmade := Disk.furnishes_makeDirectories (Path.ofText directory) d
  cases hm : Disk.makeDirectories (Path.ofText directory) d with
  | error e d₁ =>
    rw [hm] at hmade
    have hopen : openAt directory d = .error e d₁ := by simp only [openAt, bind_apply, hm]
    rw [hopen]
    exact .failed (Disk.failsLocally_makeDirectories _ _ _ _ hm) (hmade.leavesLock hd)
  | ok _ d₁ =>
    rw [hm] at hmade
    have left₁ : Disk.LeavesLock ⟨id, lockName⟩ d d₁ := hmade.leavesLock hd
    have left₂ : Disk.LeavesLock ⟨id, lockName⟩ d₁ _ :=
      Disk.sparesLock_openFile ((Path.ofText directory).child lockName) d₁ left₁.proper
    rw [openAt_eq hm, bind_apply]
    cases ho : Disk.openFile ((Path.ofText directory).child lockName) d₁ with
    | error e d₂ =>
      rw [ho] at left₂
      exact .failed (Disk.failsLocally_openFile _ _ _ _ ho) (left₁.trans left₂)
    | ok f d₂ =>
      rw [ho] at left₂
      have hfile := find?_of_openFile (h d₁ hm) (isFileName_of_mem _ lockName_mem)
        left₁.proper.reports ho
      exact (openUnder_ends left₂.proper hfile).of_left (left₁.trans left₂)

/-- The text is one of the directory, and a file can be opened in it. -/
structure LeadsTo (id : DirectoryId) (d : Disk) (directory : String) : Prop where
  made : ∃ d', Disk.makeDirectories (Path.ofText directory) d = .ok () d' ∧
    d'.Reaches (Path.ofText directory) id
  allowed : ((Path.ofText directory).child lockName).refusal? = none

theorem directory_of_openAt {a : FileArchive} (h : openAt directory d = .ok a d') :
    a.directory = directory := by
  cases hm : Disk.makeDirectories (Path.ofText directory) d with
  | error e d₁ => simp [openAt, bind_apply, hm] at h
  | ok _ d₁ =>
    rw [openAt_eq hm, bind_apply] at h
    cases ho : Disk.openFile ((Path.ofText directory).child lockName) d₁ with
    | error e d₂ => simp [ho] at h
    | ok f d₂ =>
      simp only [ho, openUnder] at h
      split at h
      · cases h
      · split at h
        · next hlocked =>
          cases h
          exact (openLocked_handle hlocked).2
        · cases h

/-- Every text that leads to a directory that is there is one of it. -/
theorem meantBy_of_reaches (h : d.Reaches (Path.ofText directory) id)
    (hr : ((Path.ofText directory).child lockName).refusal? = none) : MeantBy id d directory := by
  intro d' hm
  cases hm.symm.trans (Disk.makeDirectories_of_reaches h hr)
  exact h

theorem leadsTo_of_reaches (h : d.Reaches (Path.ofText directory) id)
    (hr : ((Path.ofText directory).child lockName).refusal? = none) : LeadsTo id d directory :=
  ⟨⟨d, Disk.makeDirectories_of_reaches h hr, h⟩, hr⟩

/-- **An opening is refused while the lock is held**, and leaves every file as it is. -/
theorem openAt_of_held (h : LeadsTo id d directory)
    (hf : d.find? ⟨id, lockName⟩ = some (.file f)) (hm : f ∈ d.locks) :
    ∃ d', openAt directory d = .error (.locked directory) d' ∧ Disk.Furnishes d d' ∧
      (d.Reaches (Path.ofText directory) id → d' = d) := by
  obtain ⟨d₁, hmake, hreach⟩ := h.made
  have hmade := Disk.furnishes_makeDirectories (Path.ofText directory) d
  rw [hmake] at hmade
  have hopen := Disk.openFile_of_found hreach (isFileName_of_mem _ lockName_mem) h.allowed
    ((hmade.file _ f).mpr hf)
  refine ⟨d₁, ?_, hmade, fun hr => ?_⟩
  · rw [openAt_eq hmake, bind_apply, hopen]
    simp only [openUnder]
    rw [if_pos]
    rw [show d₁.locks = d.locks from hmade.locks]
    exact hm
  · cases hmake.symm.trans (Disk.makeDirectories_of_reaches hr h.allowed)
    rfl

end Opening

end FileArchive

end ColdArchive
