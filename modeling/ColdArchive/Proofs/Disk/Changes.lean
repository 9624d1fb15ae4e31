import ColdArchive.Disk.Basic

/-!
# Changes of open files, whatever the device does with them

Each operation on an open file has one lemma that lists its endings: the change is done, it fails,
or the power is gone and nothing that is asked later is kept. The lemmas speak of the bytes of the
files only; `Disk.Touches` says that the rest of the disk stays as it is.
-/

namespace ColdArchive

/-! ### Work in steps -/

section Steps

variable {ε σ α β : Type}

theorem bind_apply (work : EStateM ε σ α) (next : α → EStateM ε σ β) (s : σ) :
    (work >>= next) s =
      match work s with
      | .ok a s => next a s
      | .error e s => .error e s := rfl

theorem pure_apply (a : α) (s : σ) : (pure a : EStateM ε σ α) s = .ok a s := rfl

theorem throw_apply (e : ε) (s : σ) : (throw e : EStateM ε σ α) s = .error e s := rfl

theorem get_apply (s : σ) : (get : EStateM ε σ σ) s = .ok s s := rfl

theorem modify_apply (f : σ → σ) (s : σ) : (modify f : EStateM ε σ PUnit) s = .ok ⟨⟩ (f s) := rfl

/-- Work that is left out under a condition. -/
theorem bind_ite (p : Prop) [Decidable p] (work : EStateM ε σ Unit) (next : EStateM ε σ β) :
    (if p then work >>= fun _ => next else next)
      = (if p then work else pure ()) >>= fun _ => next := by
  split <;> rfl

theorem ok_bind (a : α) (next : α → Except ε β) : (Except.ok a >>= next) = next a := rfl

theorem error_bind (e : ε) (next : α → Except ε β) : (Except.error e >>= next) = .error e := rfl

theorem bind_eq_ok {found : Except ε α} {next : α → Except ε β} {b : β}
    (h : (found >>= next) = .ok b) : ∃ a, found = .ok a ∧ next a = .ok b := by
  cases found with
  | ok a => exact ⟨a, rfl, h⟩
  | error e => cases h

theorem bind_eq_error {found : Except ε α} {next : α → Except ε β} {e : ε}
    (h : (found >>= next) = .error e) :
    found = .error e ∨ ∃ a, found = .ok a ∧ next a = .error e := by
  cases found with
  | ok a => exact .inr ⟨a, rfl, h⟩
  | error e' => exact .inl (congrArg _ (Except.error.inj h))

/-- Work that is done is done in its first part and in what follows. -/
theorem done_of_bind {work : EStateM ε σ α} {next : α → EStateM ε σ β} {s s'' : σ}
    {b : β} (h : (work >>= next) s = .ok b s'') :
    ∃ a s', work s = .ok a s' ∧ next a s' = .ok b s'' := by
  rw [bind_apply] at h
  cases hw : work s with
  | ok a s' =>
    rw [hw] at h
    exact ⟨a, s', rfl, h⟩
  | error e s' =>
    rw [hw] at h
    cases h

theorem pure_eq_ok (a : α) : (pure a : Except ε α) = .ok a := rfl

/-- The state in which work ends. -/
def finalState : EStateM.Result ε σ α → σ
  | .ok _ s => s
  | .error _ s => s

end Steps

/-! ### What a device may do -/

namespace FaultPlan

/-- Every failure is reported: no change is lost. -/
def Reports (p : FaultPlan) : Prop := ∀ i change stored, p i change ≠ .lost stored

/-- Once a change is lost, nothing is kept of those after it. -/
def Serial (p : FaultPlan) : Prop :=
  ∀ i change stored, p i change = .lost stored → ∀ j later, i < j → p j later = .lost 0

/-- New files are made and files are cut without fail. -/
structure Obliging (p : FaultPlan) : Prop where
  create : ∀ i, p i .create = .done
  cut : ∀ i old new, new ≤ old → p i (.resize old new) = .done

/-- No file grows past the greatest length by a write that is reported done. -/
def Bounded (p : FaultPlan) : Prop :=
  ∀ i offset count, p i (.write offset count) = .done → offset + count ≤ Disk.greatestLength

/-- Some change of this kind is done. -/
def Accepts (p : FaultPlan) (change : Change) : Prop := ∃ i, p i change = .done

/-- Some change of this kind fails. -/
def Refuses (p : FaultPlan) (change : Change) : Prop := ∃ i stored, p i change = .fails stored

theorem Reports.serial {p : FaultPlan} (h : p.Reports) : p.Serial :=
  fun i change stored hl => absurd hl (h i change stored)

theorem obliging_reliable : reliable.Obliging := ⟨fun _ => rfl, fun _ _ _ _ => rfl⟩

theorem obliging_capped (limit : Nat) : (capped limit).Obliging := by
  refine ⟨fun _ => rfl, ?_⟩
  intro i old new h
  have : ¬ (old < new ∧ limit < new) := by omega
  simp [capped, this]

theorem reports_reliable : reliable.Reports := fun _ _ _ h => by simp [reliable] at h

theorem reports_capped (limit : Nat) : (capped limit).Reports := by
  intro i change stored h
  unfold capped at h
  split at h
  · cases h
  · split at h <;> cases h
  · split at h <;> cases h

theorem accepts_write_capped {limit offset count : Nat} :
    (capped limit).Accepts (.write offset count) ↔ offset + count ≤ limit := by
  constructor
  · rintro ⟨i, h⟩
    simp only [capped] at h
    split at h
    · assumption
    · cases h
  · intro h
    exact ⟨0, by simp [capped, h]⟩

theorem not_refuses_write_capped {limit offset count : Nat} (h : offset + count ≤ limit) :
    ¬ (capped limit).Refuses (.write offset count) := by
  rintro ⟨i, stored, hf⟩
  simp [capped, h] at hf

theorem not_refuses_cut {p : FaultPlan} (h : p.Obliging) {old new : Nat} (hn : new ≤ old) :
    ¬ p.Refuses (.resize old new) := by
  rintro ⟨i, stored, hf⟩
  rw [h.cut i old new hn] at hf
  cases hf

theorem bounded_capped {limit : Nat} (h : limit ≤ Disk.greatestLength) :
    (capped limit).Bounded :=
  fun _ _ _ hd => Nat.le_trans (accepts_write_capped.mp ⟨_, hd⟩) h

/-- **A power cut takes all that comes after it.** -/
theorem serial_cutAt {p : FaultPlan} (h : p.Reports) (n stored : Nat) :
    (p.cutAt n stored).Serial := by
  intro i change k hl j later hij
  have hn : n ≤ i := by
    apply Nat.le_of_not_lt
    intro hi
    rw [cutAt, if_pos hi] at hl
    exact h i change k hl
  rw [cutAt, if_neg (by omega), if_neg (by omega)]

theorem bounded_cutAt {p : FaultPlan} (h : p.Bounded) (n stored : Nat) :
    (p.cutAt n stored).Bounded := by
  intro i offset count hd
  unfold cutAt at hd
  split at hd
  · exact h i offset count hd
  · split at hd <;> cases hd

end FaultPlan

/-! ### Bytes of files -/

/-- A length that the bytes have already changes nothing. -/
theorem Bytes.fit_of_le {bs : Bytes} {n : Nat} (h : n ≤ bs.length) :
    Bytes.fit bs n = bs.take n := by
  rw [Bytes.fit, Nat.sub_eq_zero_of_le h, List.replicate_zero, List.append_nil]

theorem Bytes.length_fit (bs : Bytes) (n : Nat) : (Bytes.fit bs n).length = n := by
  rw [Bytes.fit, List.length_append, List.length_take, List.length_replicate]
  omega

theorem Bytes.fit_fit (bs : Bytes) (n : Nat) :
    Bytes.fit (Bytes.fit bs n) n = Bytes.fit bs n := by
  have hl := Bytes.length_fit bs n
  rw [Bytes.fit_of_le (by omega), List.take_of_length_le (by omega)]

/-- A write at the end of a file that was just cut there. -/
theorem Bytes.splice_fit (bs new : Bytes) (n : Nat) :
    Bytes.splice (Bytes.fit bs n) n new = Bytes.fit bs n ++ new := by
  have hl := Bytes.length_fit bs n
  have hd : (Bytes.fit bs n).drop (n + new.length) = [] := List.drop_eq_nil_of_le (by omega)
  unfold Bytes.splice
  split
  · simp [*]
  · rw [Bytes.fit_fit, hd, List.append_nil]

namespace Disk

/-- The bytes of an open file. -/
def bytes (d : Disk) (id : FileId) : Bytes := (d.content id).toBytes

theorem length_content (d : Disk) (id : FileId) : (d.content id).length = (d.bytes id).length :=
  (Content.length_toBytes _).symm

/-- The second disk is the first after changes to the contents of the given files. -/
structure Touches (ids : List FileId) (d d' : Disk) : Prop where
  tree : d'.tree = d.tree
  directories : d'.directories = d.directories
  home : d'.home = d.home
  locks : d'.locks = d.locks
  faults : d'.faults = d.faults
  size : d'.contents.length = d.contents.length
  rest : ∀ id, id ∉ ids → d'.bytes id = d.bytes id

namespace Touches

variable {ids ids' : List FileId} {d d' d'' : Disk}

theorem refl (ids : List FileId) (d : Disk) : Touches ids d d :=
  ⟨rfl, rfl, rfl, rfl, rfl, rfl, fun _ _ => rfl⟩

theorem trans (h : Touches ids d d') (h' : Touches ids d' d'') : Touches ids d d'' :=
  ⟨h'.tree.trans h.tree, h'.directories.trans h.directories, h'.home.trans h.home,
    h'.locks.trans h.locks, h'.faults.trans h.faults, h'.size.trans h.size,
    fun id hid => (h'.rest id hid).trans (h.rest id hid)⟩

theorem mono (h : Touches ids d d') (hs : ids ⊆ ids') : Touches ids' d d' :=
  ⟨h.tree, h.directories, h.home, h.locks, h.faults, h.size,
    fun id hid => h.rest id fun hm => hid (hs hm)⟩

/-- Changes to no file leave every file as it is. -/
theorem bytes_eq (h : Touches [] d d') (id : FileId) : d'.bytes id = d.bytes id :=
  h.rest id List.not_mem_nil

end Touches

/-- Nothing that is asked of the disk from now on is kept. -/
def Dead (d : Disk) : Prop := ∀ i change, d.changes ≤ i → d.faults i change = .lost 0

/-- The disk after a change was asked. -/
def asked (d : Disk) : Disk := { d with changes := d.changes + 1 }

theorem touches_asked (d : Disk) : Touches [] d d.asked :=
  ⟨rfl, rfl, rfl, rfl, rfl, rfl, fun _ _ => rfl⟩

theorem Dead.asked {d : Disk} (h : d.Dead) : d.asked.Dead :=
  fun i change hi => h i change (Nat.le_of_succ_le hi)

theorem dead_of_lost {d : Disk} (h : d.faults.Serial) {change : Change} {stored : Nat}
    (hl : d.faults d.changes change = .lost stored) : d.asked.Dead :=
  fun i later hi => h d.changes change stored hl i later hi

theorem bytes_setContent {d : Disk} {id : FileId} (h : id < d.contents.length) (c : Content) :
    (d.setContent id c).bytes id = c.toBytes := by
  simp [bytes, content, setContent, List.getD_eq_getElem?_getD, h]

theorem touches_setContent (d : Disk) (id : FileId) (c : Content) :
    Touches [id] d (d.setContent id c) := by
  refine ⟨rfl, rfl, rfl, rfl, rfl, by simp [setContent], ?_⟩
  intro other hne
  have hne : id ≠ other := fun h => hne (by simp [h])
  simp [bytes, content, setContent, List.getD_eq_getElem?_getD, hne]

/-! ### Three endings -/

section Endings

variable {σ α β : Type} {disk : σ → Disk}

/-- How work ends whose state has a disk: it is done, a change fails, or the power is gone before it
is done. -/
inductive Ends (disk : σ → Disk) (good : α → σ → Prop) (bad lost : σ → Prop) :
    EStateM.Result StoreError σ α → Prop where
  | done {a : α} {s : σ} (h : good a s) : Ends disk good bad lost (.ok a s)
  | failed {s : σ} (h : bad s) : Ends disk good bad lost (.error (.io .tooLarge) s)
  | lost {r : EStateM.Result StoreError σ α} (dead : (disk (finalState r)).Dead)
      (h : lost (finalState r)) : Ends disk good bad lost r

/-- Work that goes on without effect once the power is gone. -/
def Quiet (disk : σ → Disk) (work : EStateM StoreError σ α) : Prop :=
  ∀ s, (disk s).Dead → Touches [] (disk s) (disk (finalState (work s))) ∧
    (disk (finalState (work s))).Dead

variable {good good' : α → σ → Prop} {bad bad' lost lost' : σ → Prop}

theorem Ends.imp {r : EStateM.Result StoreError σ α} (h : Ends disk good bad lost r)
    (hg : ∀ a s, good a s → good' a s) (hb : ∀ s, bad s → bad' s) (hl : ∀ s, lost s → lost' s) :
    Ends disk good' bad' lost' r := by
  cases h with
  | done h => exact .done (hg _ _ h)
  | failed h => exact .failed (hb _ h)
  | lost dead h => exact .lost dead (hl _ h)

variable (good) in
/-- **One work after another**: what is asked after the power is gone makes no difference. -/
theorem Ends.bind {work : EStateM StoreError σ α} {next : α → EStateM StoreError σ β}
    {after : β → σ → Prop} {s : σ} (h : Ends disk good bad lost (work s))
    (hn : ∀ a s', good a s' → Ends disk after bad lost (next a s'))
    (hq : ∀ a, Quiet disk (next a))
    (hl : ∀ s' s'', Touches [] (disk s') (disk s'') → lost s' → lost s'') :
    Ends disk after bad lost ((work >>= next) s) := by
  rw [bind_apply]
  generalize work s = r at h
  cases h with
  | done h => exact hn _ _ h
  | failed h => exact .failed h
  | lost dead h =>
    cases r with
    | ok a s' =>
      obtain ⟨ht, hd⟩ := hq a s' dead
      exact .lost hd (hl _ _ ht h)
    | error e s' => exact .lost dead h

theorem quiet_pure (a : α) : Quiet disk (pure a : EStateM StoreError σ α) :=
  fun _ hd => ⟨.refl _ _, hd⟩

theorem Quiet.bind {work : EStateM StoreError σ α} {next : α → EStateM StoreError σ β}
    (h : Quiet disk work) (hn : ∀ a, Quiet disk (next a)) : Quiet disk (work >>= next) := by
  intro s hd
  obtain ⟨ht, hd'⟩ := h s hd
  rw [bind_apply]
  generalize work s = r at ht hd'
  cases r with
  | ok a s' =>
    obtain ⟨ht', hd''⟩ := hn a s' hd'
    exact ⟨ht.trans ht', hd''⟩
  | error e s' => exact ⟨ht, hd'⟩

end Endings

/-! ### A new length -/

theorem resize_eq (id : FileId) (n : Nat) (d : Disk) :
    resize id n d =
      match d.faults d.changes (.resize (d.bytes id).length n) with
      | .done => .ok () (d.asked.setContent id ((d.content id).fit n))
      | .fails _ => .error (.io .tooLarge) d.asked
      | .lost _ => .ok () d.asked := by
  rw [← length_content]
  simp only [resize, Disk.length, ask, asked, bind_apply]
  cases d.faults d.changes (.resize (d.content id).length n) <;> rfl

theorem resize_ends {d : Disk} {id : FileId} (hv : id < d.contents.length)
    (hs : d.faults.Serial) (n : Nat) :
    Ends (fun d => d) (fun _ d' => Touches [id] d d' ∧ d'.bytes id = (d.bytes id).fit n ∧
        d.faults.Accepts (.resize (d.bytes id).length n))
      (fun d' => Touches [] d d' ∧ d.faults.Refuses (.resize (d.bytes id).length n))
      (fun d' => Touches [] d d') (resize id n d) := by
  rw [resize_eq]
  cases hc : d.faults d.changes (.resize (d.bytes id).length n) with
  | done =>
    refine .done ⟨((touches_asked d).mono (by simp)).trans (touches_setContent _ id _), ?_, _, hc⟩
    rw [bytes_setContent (by exact hv), Content.toBytes_fit]
    rfl
  | fails stored => exact .failed ⟨touches_asked d, d.changes, stored, hc⟩
  | lost stored => exact .lost (dead_of_lost hs hc) (touches_asked d)

theorem quiet_resize (id : FileId) (n : Nat) : Quiet (fun d => d) (resize id n) := by
  intro d hd
  rw [resize_eq, hd _ _ (Nat.le_refl _)]
  exact ⟨touches_asked d, hd.asked⟩

/-! ### A write -/

theorem writeAt_eq {bs : Bytes} (hb : bs ≠ []) (id : FileId) (offset : Nat) (d : Disk) :
    writeAt id offset bs d =
      match d.faults d.changes (.write offset bs.length) with
      | .done => .ok () (d.asked.setContent id ((d.content id).splice offset bs))
      | .fails stored => .error (.io .tooLarge)
          (d.asked.setContent id ((d.content id).splice offset (bs.take stored)))
      | .lost stored =>
          .ok () (d.asked.setContent id ((d.content id).splice offset (bs.take stored))) := by
  simp only [writeAt, if_neg hb, ask, asked, bind_apply]
  cases d.faults d.changes (.write offset bs.length) <;> rfl

theorem bytes_splice {d : Disk} {id : FileId} (hv : id < d.contents.length) (offset : Nat)
    (bs : Bytes) :
    (d.asked.setContent id ((d.content id).splice offset bs)).bytes id
      = (d.bytes id).splice offset bs := by
  rw [bytes_setContent (by exact hv), Content.toBytes_splice]
  rfl

/-- The changes that a write asks for. -/
def writes (offset : Nat) (bs : Bytes) : List Change :=
  if bs = [] then [] else [.write offset bs.length]

/-- A device that bounds its files takes no write past the bound. -/
theorem le_of_accepts {p : FaultPlan} (hb : p.Bounded) {offset : Nat} {bs : Bytes}
    (ha : ∀ change ∈ writes offset bs, p.Accepts change) (ho : offset ≤ greatestLength) :
    offset + bs.length ≤ greatestLength := by
  by_cases h : bs = []
  · rw [h]
    exact ho
  · obtain ⟨i, hi⟩ := ha (.write offset bs.length) (by rw [writes, if_neg h]; simp)
    exact hb i _ _ hi

theorem writeAt_ends {d : Disk} {id : FileId} (hv : id < d.contents.length)
    (hs : d.faults.Serial) (offset : Nat) (bs : Bytes) :
    Ends (fun d => d) (fun _ d' => Touches [id] d d' ∧ d'.bytes id = (d.bytes id).splice offset bs ∧
        ∀ change ∈ writes offset bs, d.faults.Accepts change)
      (fun d' => Touches [id] d d' ∧
        (∃ stored, d'.bytes id = (d.bytes id).splice offset (bs.take stored)) ∧
        ∃ change ∈ writes offset bs, d.faults.Refuses change)
      (fun d' => Touches [id] d d' ∧
        ∃ stored, d'.bytes id = (d.bytes id).splice offset (bs.take stored))
      (writeAt id offset bs d) := by
  by_cases hb : bs = []
  · subst hb
    exact .done ⟨.refl _ d, by simp [Bytes.splice], fun change h => by cases h⟩
  have touch : ∀ c, Touches [id] d (d.asked.setContent id c) := fun c =>
    ((touches_asked d).mono (by simp)).trans (touches_setContent _ id c)
  rw [writeAt_eq hb, writes, if_neg hb]
  cases hc : d.faults d.changes (.write offset bs.length) with
  | done =>
    refine .done ⟨touch _, bytes_splice hv offset bs, ?_⟩
    intro change h
    rw [List.mem_singleton.mp h]
    exact ⟨d.changes, hc⟩
  | fails stored =>
    exact .failed ⟨touch _, ⟨stored, bytes_splice hv offset _⟩, _, List.mem_singleton_self _,
      d.changes, stored, hc⟩
  | lost stored =>
    exact .lost (dead_of_lost hs hc) ⟨touch _, stored, bytes_splice hv offset _⟩

theorem quiet_writeAt (id : FileId) (offset : Nat) (bs : Bytes) :
    Quiet (fun d => d) (writeAt id offset bs) := by
  intro d hd
  by_cases hb : bs = []
  · rw [hb]
    exact ⟨.refl _ d, hd⟩
  rw [writeAt_eq hb, hd _ _ (Nat.le_refl _)]
  refine ⟨?_, fun i change hi => hd i change (Nat.le_of_succ_le hi)⟩
  show Touches [] d (d.asked.setContent id ((d.content id).splice offset (bs.take 0)))
  -- the part that is kept is empty, so the content is put back as it was
  have hc : (d.content id).splice offset (bs.take 0) = d.content id := by simp [Content.splice]
  rw [hc]
  refine ⟨rfl, rfl, rfl, rfl, rfl, by simp [setContent, asked], ?_⟩
  intro other _
  by_cases ho : id = other
  · subst ho
    by_cases hv : id < d.contents.length
    · exact bytes_setContent (by exact hv) _
    · simp [bytes, content, setContent, asked, List.getD_eq_getElem?_getD, hv]
  · exact (touches_setContent d.asked id _).rest other fun hm => ho (List.mem_singleton.mp hm).symm

/-! ### Writing at the end of a file that is cut before -/

/-- Cuts a file at an offset and writes there. -/
def rewriteFrom (id : FileId) (offset : Nat) (bs : Bytes) : DiskM Unit := do
  resize id offset
  writeAt id offset bs

/-- The bytes of a file that was to be cut at an offset and written there. -/
inductive Rewriting (before : Bytes) (offset : Nat) (bs : Bytes) : Bytes → Prop where
  | untouched : Rewriting before offset bs before
  | written (stored : Nat) : Rewriting before offset bs (before.fit offset ++ bs.take stored)

/-- The changes that a rewrite asks for. -/
def rewrites (before : Bytes) (offset : Nat) (bs : Bytes) : List Change :=
  .resize before.length offset :: writes offset bs

theorem quiet_rewriteFrom (id : FileId) (offset : Nat) (bs : Bytes) :
    Quiet (fun d => d) (rewriteFrom id offset bs) :=
  (quiet_resize _ _).bind fun _ => quiet_writeAt _ _ _

theorem rewriteFrom_ends {d : Disk} {id : FileId} (hv : id < d.contents.length)
    (hs : d.faults.Serial) (offset : Nat) (bs : Bytes) :
    Ends (fun d => d) (fun _ d' => Touches [id] d d' ∧ d'.bytes id = (d.bytes id).fit offset ++ bs ∧
        ∀ change ∈ rewrites (d.bytes id) offset bs, d.faults.Accepts change)
      (fun d' => Touches [id] d d' ∧ Rewriting (d.bytes id) offset bs (d'.bytes id) ∧
        ∃ change ∈ rewrites (d.bytes id) offset bs, d.faults.Refuses change)
      (fun d' => Touches [id] d d' ∧ Rewriting (d.bytes id) offset bs (d'.bytes id))
      (rewriteFrom id offset bs d) := by
  refine Ends.bind _ ((resize_ends hv hs offset).imp (fun _ _ h => h) ?_
    ?_) ?_ (fun _ => quiet_writeAt _ _ _) ?_
  · intro d₁ h
    refine ⟨h.1.mono (by simp), ?_, _, List.mem_cons_self .., h.2⟩
    rw [h.1.bytes_eq]
    exact .untouched
  · intro d₁ h
    refine ⟨h.mono (by simp), ?_⟩
    rw [h.bytes_eq]
    exact .untouched
  · rintro - d₁ ⟨h₁, b₁, a₁⟩
    have part : ∀ d₂ : Disk,
        (∃ stored, d₂.bytes id = (d₁.bytes id).splice offset (bs.take stored)) →
        Rewriting (d.bytes id) offset bs (d₂.bytes id) := by
      rintro d₂ ⟨stored, h⟩
      rw [h, b₁, Bytes.splice_fit]
      exact .written stored
    have hw := writeAt_ends (d := d₁) (by rw [h₁.size]; exact hv) (by rw [h₁.faults]; exact hs)
      offset bs
    rw [h₁.faults] at hw
    refine hw.imp ?_ ?_ ?_
    · intro _ d₂ h
      refine ⟨h₁.trans h.1, by rw [h.2.1, b₁, Bytes.splice_fit], ?_⟩
      intro change hc
      rcases List.mem_cons.mp hc with rfl | hc
      · exact a₁
      · exact h.2.2 change hc
    · intro d₂ h
      obtain ⟨change, hc, hr⟩ := h.2.2
      exact ⟨h₁.trans h.1, part d₂ h.2.1, change, List.mem_cons_of_mem _ hc, hr⟩
    · intro d₂ h
      exact ⟨h₁.trans h.1, part d₂ h.2⟩
  · rintro d₁ d₂ h ⟨ht, hr⟩
    exact ⟨ht.trans (h.mono (by simp)), by rwa [h.bytes_eq]⟩

end Disk

end ColdArchive
