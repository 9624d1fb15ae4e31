import ColdArchive.Proofs.Disk.Walk

/-!
# Work that is refused

Work that opens files can end in one way more than a change of an open file: it is refused for what
it found. `Disk.Resolves` lists its endings. Some of its errors are no failures of the device, and
it may leave new files behind to which no name leads, so that `Disk.Still` says less than that no
file was touched.
-/

namespace ColdArchive

namespace Disk

/-- The second disk is the first, with new files at most that no name leads to. -/
structure Still (d d' : Disk) : Prop where
  tree : d'.tree = d.tree
  directories : d'.directories = d.directories
  home : d'.home = d.home
  locks : d'.locks = d.locks
  faults : d'.faults = d.faults
  size : d.contents.length ≤ d'.contents.length
  bytes : ∀ f, f < d.contents.length → d'.bytes f = d.bytes f

section Still

variable {d d' d'' : Disk}

theorem Still.refl (d : Disk) : Still d d :=
  ⟨rfl, rfl, rfl, rfl, rfl, Nat.le_refl _, fun _ _ => rfl⟩

theorem Still.trans (h : Still d d') (h' : Still d' d'') : Still d d'' :=
  ⟨h'.tree.trans h.tree, h'.directories.trans h.directories, h'.home.trans h.home,
    h'.locks.trans h.locks, h'.faults.trans h.faults, Nat.le_trans h.size h'.size,
    fun f hf => (h'.bytes f (Nat.lt_of_lt_of_le hf h.size)).trans (h.bytes f hf)⟩

theorem Touches.still (h : Touches [] d d') : Still d d' :=
  ⟨h.tree, h.directories, h.home, h.locks, h.faults, Nat.le_of_eq h.size.symm,
    fun f _ => h.bytes_eq f⟩

theorem Still.find? (h : Still d d') (place : Place) : d'.find? place = d.find? place := by
  rw [Disk.find?, Disk.find?, h.tree]

end Still

/-- Work that goes on without effect once the power is gone, but for new files that get no name. -/
def Idle {α : Type} (work : DiskM α) : Prop :=
  ∀ d, d.Dead → Still d (finalState (work d)) ∧ (finalState (work d)).Dead

/-- How work ends that may be refused: it is done, it is refused, or the power is gone before it is
done. In every case something is kept. -/
inductive Resolves {α : Type} (kept : Disk → Prop) (good : α → Disk → Prop)
    (refused : StoreError → Disk → Prop) : EStateM.Result StoreError Disk α → Prop where
  | done {a : α} {d : Disk} (h : good a d) (k : kept d) : Resolves kept good refused (.ok a d)
  | refused {e : StoreError} {d : Disk} (h : refused e d) (k : kept d) :
      Resolves kept good refused (.error e d)
  | lost {r : EStateM.Result StoreError Disk α} (dead : (finalState r).Dead)
      (k : kept (finalState r)) : Resolves kept good refused r

section Resolves

variable {α β : Type} {kept kept' : Disk → Prop} {good good' : α → Disk → Prop}
  {refused refused' : StoreError → Disk → Prop}

theorem Resolves.imp {r : EStateM.Result StoreError Disk α} (h : Resolves kept good refused r)
    (hg : ∀ a d, good a d → kept d → good' a d)
    (hr : ∀ e d, refused e d → kept d → refused' e d)
    (hk : ∀ d, kept d → kept' d) : Resolves kept' good' refused' r := by
  cases h with
  | done h k => exact .done (hg _ _ h k) (hk _ k)
  | refused h k => exact .refused (hr _ _ h k) (hk _ k)
  | lost dead k => exact .lost dead (hk _ k)

theorem Resolves.final {r : EStateM.Result StoreError Disk α} (h : Resolves kept good refused r) :
    kept (finalState r) := by
  cases h with
  | done _ k => exact k
  | refused _ k => exact k
  | lost _ k => exact k

/-- **One work after another**, each with what it keeps. -/
theorem Resolves.bind {work : DiskM α} {next : α → DiskM β} {after : β → Disk → Prop} {d : Disk}
    (h : Resolves kept good refused (work d))
    (hn : ∀ a d', good a d' → kept d' → Resolves kept after refused (next a d'))
    (hi : ∀ a, Idle (next a)) (hk : ∀ d' d'', Still d' d'' → kept d' → kept d'') :
    Resolves kept after refused ((work >>= next) d) := by
  rw [bind_apply]
  generalize work d = r at h
  cases h with
  | done h k => exact hn _ _ h k
  | refused h k => exact .refused h k
  | lost dead k =>
    cases r with
    | ok a d' =>
      obtain ⟨hs, hd⟩ := hi a d' dead
      exact .lost hd (hk _ _ hs k)
    | error e d' => exact .lost dead k

end Resolves

/-! ### Work without power -/

section Idle

variable {α β : Type}

theorem idle_pure (a : α) : Idle (pure a : DiskM α) := fun d hd => ⟨.refl d, hd⟩

theorem Idle.bind {work : DiskM α} {next : α → DiskM β} (h : Idle work)
    (hn : ∀ a, Idle (next a)) : Idle (work >>= next) := by
  intro d hd
  obtain ⟨hs, hd'⟩ := h d hd
  rw [bind_apply]
  generalize work d = r at hs hd'
  cases r with
  | ok a d' =>
    obtain ⟨hs', hd''⟩ := hn a d' hd'
    exact ⟨hs.trans hs', hd''⟩
  | error e d' => exact ⟨hs, hd'⟩

theorem Quiet.idle {work : DiskM α} (h : Quiet (fun d => d) work) : Idle work :=
  fun d hd => ⟨(h d hd).1.still, (h d hd).2⟩

end Idle

/-- The disk with a new file that no name leads to. -/
def withSpare (d : Disk) : Disk := { d.asked with contents := d.contents ++ [.empty] }

theorem still_withSpare (d : Disk) : Still d d.withSpare := by
  refine ⟨rfl, rfl, rfl, rfl, rfl, by simp [withSpare], ?_⟩
  intro f hf
  simp [bytes, content, withSpare, List.getD_eq_getElem?_getD, List.getElem?_append_left hf]

theorem create_eq (place : Place) (d : Disk) :
    create place d =
      match d.faults d.changes .create with
      | .done => .ok d.contents.length (d.withNew place)
      | .fails _ => .error (.io .tooLarge) d.withSpare
      | .lost _ => .ok d.contents.length d.withSpare := by
  simp only [create, ask, bind_apply, get_apply, modify_apply]
  cases d.faults d.changes .create <;> rfl

theorem idle_create (place : Place) : Idle (create place) := by
  intro d hd
  rw [create_eq, hd _ _ (Nat.le_refl _)]
  exact ⟨still_withSpare d, hd.asked⟩

theorem idle_openFile (p : Path) : Idle (openFile p) := by
  intro d hd
  simp only [openFile, bind_apply, get_apply]
  cases d.vacancy p with
  | error e => exact ⟨.refl d, hd⟩
  | ok found =>
    cases found with
    | inl id => exact ⟨.refl d, hd⟩
    | inr place => exact idle_create place d hd

/-- **How a name that is vacant is opened.** -/
theorem openFile_of_vacant {d : Disk} {p : Path} {id : DirectoryId} {name : String}
    (h : d.Reaches p id) (hn : IsFileName name) (hr : (p.child name).refusal? = none)
    (hf : d.find? ⟨id, name⟩ = none) :
    openFile (p.child name) d = create ⟨id, name⟩ d := by
  simp only [openFile, bind_apply, get_apply, vacancy, locate_child h hn hr, ok_bind, hf,
    pure_eq_ok, Bool.false_eq_true, if_false, attempt, pure_apply]

/-! ### Cutting a file to a length that is known to be no longer -/

/-- Cuts a file of a known length, unless it has the new length already. -/
def trim (id : FileId) (old new : Nat) : DiskM Unit :=
  if new ≠ old then resize id new else pure ()

theorem idle_trim (id : FileId) (old new : Nat) : Idle (trim id old new) := by
  unfold trim
  split
  · exact (quiet_resize id new).idle
  · exact idle_pure ()

/-- **How a file is cut.** -/
theorem trim_resolves {d : Disk} {id : FileId} (hv : id < d.contents.length)
    (hs : d.faults.Serial) {n : Nat} (hn : n ≤ (d.bytes id).length) :
    Resolves (fun d' => Touches [id] d d' ∧ (d'.bytes id = (d.bytes id).take n ∨
        d'.bytes id = d.bytes id))
      (fun _ d' => d'.bytes id = (d.bytes id).take n)
      (fun e _ => e = .io .tooLarge ∧ ¬ d.faults.Obliging) (trim id (d.bytes id).length n d) := by
  unfold trim
  split
  · have he := resize_ends hv hs n
    generalize resize id n d = r at he
    cases he with
    | done h =>
      have hb := h.2.1.trans (Bytes.fit_of_le hn)
      exact .done hb ⟨h.1, .inl hb⟩
    | failed h =>
      exact .refused ⟨rfl, fun hp => FaultPlan.not_refuses_cut hp hn h.2⟩
        ⟨h.1.mono (by simp), .inr (h.1.bytes_eq id)⟩
    | lost dead h => exact .lost dead ⟨h.mono (by simp), .inr (h.bytes_eq id)⟩
  · next h =>
    have h := Nat.le_of_eq (Decidable.not_not.mp h).symm
    exact .done (List.take_of_length_le h).symm ⟨.refl _ d, .inr rfl⟩

end Disk

end ColdArchive
