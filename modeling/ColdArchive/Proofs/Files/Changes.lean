import ColdArchive.FileArchive
import ColdArchive.Proofs.Table.Changes

/-!
# Changes of an open archive

The endings of the two loops over the tables: a cut of several tables, and the writing of a record
with its rollback. Both are told by the images of the tables, so that what an archive keeps is a
question about five images and not about ten files of one disk.
-/

namespace ColdArchive

/-- On a device that reports its failures the power stays on. -/
theorem FaultPlan.Reports.not_dead {d : Disk} (h : d.faults.Reports) : ¬ d.Dead :=
  fun hd => h _ .create 0 (hd d.changes .create (Nat.le_refl _))

namespace FileState

/-- The image of the table of a category. -/
def image (s : FileState) (c : Category) : TableImage := (s.tables.get c).image s.disk

/-- The files in hand. -/
def files (s : FileState) : List FileId :=
  Category.all.flatMap fun c => [(s.tables.get c).data, (s.tables.get c).index]

/-- The tables have files of the disk, and no two of them share one. -/
structure Wired (s : FileState) : Prop where
  table : ∀ c, (s.tables.get c).Wired s.disk
  apart : ∀ c c', c ≠ c' → ∀ id ∈ [(s.tables.get c).data, (s.tables.get c).index],
    id ∉ [(s.tables.get c').data, (s.tables.get c').index]

/-- The second state has the files of the first, and the disk changed in these files only. -/
structure Follows (s s' : FileState) : Prop where
  wiring : ∀ c, s'.tables.get c = { s.tables.get c with ends := (s'.tables.get c).ends }
  disk : Disk.Touches s.files s.disk s'.disk

theorem mem_files {s : FileState} {c : Category} {id : FileId}
    (h : id ∈ [(s.tables.get c).data, (s.tables.get c).index]) : id ∈ s.files :=
  List.mem_flatMap.mpr ⟨c, Category.mem_all c, h⟩

section Frame

variable {s s' s'' : FileState} {c : Category}

theorem Follows.refl (s : FileState) : s.Follows s := ⟨fun _ => rfl, .refl _ _⟩

theorem Follows.data (h : s.Follows s') (c : Category) :
    (s'.tables.get c).data = (s.tables.get c).data := by rw [h.wiring c]

theorem Follows.index (h : s.Follows s') (c : Category) :
    (s'.tables.get c).index = (s.tables.get c).index := by rw [h.wiring c]

theorem Follows.files (h : s.Follows s') : s'.files = s.files := by
  simp only [FileState.files, h.data, h.index]

theorem Follows.trans (h : s.Follows s') (h' : s'.Follows s'') : s.Follows s'' := by
  refine ⟨?_, h.disk.trans (h.files ▸ h'.disk)⟩
  intro c
  rw [h'.wiring c, h.wiring c]

theorem Wired.of_follows (hw : s.Wired) (h : s.Follows s') : s'.Wired := by
  constructor
  · intro c
    have ht := hw.table c
    refine ⟨?_, ?_, ?_⟩
    · rw [h.data, h.disk.size]; exact ht.data
    · rw [h.index, h.disk.size]; exact ht.index
    · rw [h.data, h.index]; exact ht.apart
  · intro c c' hc
    rw [h.data, h.index, h.data, h.index]
    exact hw.apart c c' hc

end Frame

/-- The state with another table of a category and another disk. -/
def put (s : FileState) (c : Category) (p : Table × Disk) : FileState :=
  { s with tables := s.tables.set c p.1, disk := p.2 }

/-- One table of the archive is changed. -/
structure Sets (c : Category) (s s' : FileState) : Prop extends Follows s s' where
  frozen : s'.frozen = s.frozen
  rest : ∀ c', c' ≠ c → s'.image c' = s.image c'

theorem image_put_self (s : FileState) (c : Category) (p : Table × Disk) :
    (s.put c p).image c = p.1.image p.2 := by
  rw [image, put, ByCategory.get_set_self]

/-- **A change of one table leaves the others as they are.** -/
theorem Wired.sets {s : FileState} (hw : s.Wired) {c : Category} {p : Table × Disk}
    (h : Table.Moves (s.tables.get c, s.disk) p) : Sets c s (s.put c p) := by
  refine ⟨⟨?_, h.disk.mono fun id hid => mem_files hid⟩, rfl, ?_⟩
  · intro c'
    rw [put, ByCategory.get_set]
    split
    · next hc =>
      subst hc
      exact h.wiring
    · rfl
  · intro c' hc
    have hd := hw.apart c' c hc
    simp only [image, put, Table.image, ByCategory.get_set_of_ne _ _ hc.symm]
    rw [h.disk.rest _ (hd _ (by simp)), h.disk.rest _ (hd _ (by simp))]

/-- The disk has the files of the state, and each table is left at an image that satisfies `P`. -/
structure LeftAt (s : FileState) (P : Category → TableImage → Prop) (d : Disk) : Prop where
  disk : Disk.Touches s.files s.disk d
  files : ∀ c, ∃ v, P c v ∧ (s.tables.get c).HasFiles d v

section Left

variable {s s' : FileState} {P P' : Category → TableImage → Prop} {d d' : Disk}

theorem LeftAt.imp (h : s.LeftAt P d) (hp : ∀ c v, P c v → P' c v) : s.LeftAt P' d := by
  refine ⟨h.disk, ?_⟩
  intro c
  obtain ⟨v, hv, hf⟩ := h.files c
  exact ⟨v, hp c v hv, hf⟩

theorem LeftAt.quiet (h : s.LeftAt P d) (ht : Disk.Touches [] d d') : s.LeftAt P d' := by
  refine ⟨h.disk.trans (ht.mono (by simp)), ?_⟩
  intro c
  obtain ⟨v, hv, hd, hi⟩ := h.files c
  exact ⟨v, hv, by rw [ht.bytes_eq, hd], by rw [ht.bytes_eq, hi]⟩

theorem LeftAt.of_frozen {n : Nat} (h : LeftAt { s with frozen := n } P d) : s.LeftAt P d :=
  ⟨h.disk, h.files⟩

theorem LeftAt.of_follows (h : s.Follows s') (hl : s'.LeftAt P d) : s.LeftAt P d := by
  refine ⟨h.disk.trans (h.files ▸ hl.disk), ?_⟩
  intro c
  obtain ⟨v, hv, hd, hi⟩ := hl.files c
  exact ⟨v, hv, by rw [← h.data, hd], by rw [← h.index, hi]⟩

/-- A state that is reached leaves its images on the disk. -/
theorem Follows.leftAt (h : s.Follows s') (hp : ∀ c, P c (s'.image c)) : s.LeftAt P s'.disk := by
  refine ⟨h.disk, fun c => ⟨s'.image c, hp c, ?_, ?_⟩⟩
  · rw [← h.data]; rfl
  · rw [← h.index]; rfl

/-- One table is left at an image on its way and the others where they are. -/
theorem Wired.leftAt (hw : s.Wired) {c : Category} {v : TableImage}
    (ht : (s.tables.get c).Touches s.disk d) (hf : (s.tables.get c).HasFiles d v)
    (hc : P c v) (hrest : ∀ c', c' ≠ c → P c' (s.image c')) : s.LeftAt P d := by
  refine ⟨ht.mono fun id hid => mem_files hid, ?_⟩
  intro c'
  by_cases h : c' = c
  · subst h
    exact ⟨v, hc, hf⟩
  · have hd := hw.apart c' c h
    exact ⟨s.image c', hrest c' h, ht.rest _ (hd _ (by simp)), ht.rest _ (hd _ (by simp))⟩

end Left

end FileState

namespace FileM

open FileState

variable {s : FileState}

/-! ### Work on one table -/

section OneTable

variable {α : Type} {good : α → Table × Disk → Prop} {bad lost : Table × Disk → Prop}

theorem onTable_ends {work : TableM α} {c : Category}
    (h : Disk.Ends Prod.snd good bad lost (work (s.tables.get c, s.disk))) :
    Disk.Ends FileState.disk (fun a s' => ∃ p, good a p ∧ s' = s.put c p)
      (fun s' => ∃ p, bad p ∧ s' = s.put c p) (fun s' => ∃ p, lost p ∧ s' = s.put c p)
      (onTable c work s) := by
  unfold onTable
  generalize work (s.tables.get c, s.disk) = r at h
  cases h with
  | done h => exact .done ⟨_, h, rfl⟩
  | failed h => exact .failed ⟨_, h, rfl⟩
  | lost dead h => cases r <;> exact .lost dead ⟨_, h, rfl⟩

theorem quiet_onTable {work : TableM α} (h : Disk.Quiet Prod.snd work) (c : Category) :
    Disk.Quiet FileState.disk (onTable c work) := by
  intro s hd
  have hq := h (s.tables.get c, s.disk) hd
  unfold onTable
  generalize work (s.tables.get c, s.disk) = r at hq
  cases r <;> exact hq

end OneTable

/-! ### Cutting tables -/

theorem cutTables_cons (n : Nat) (c : Category) (cs : List Category) :
    cutTables n (c :: cs) = onTable c (Table.truncate n) >>= fun _ => cutTables n cs := rfl

theorem quiet_cutTables (n : Nat) (cs : List Category) :
    Disk.Quiet FileState.disk (cutTables n cs) := by
  induction cs with
  | nil => exact Disk.quiet_pure _
  | cons c cs ih =>
    rw [cutTables_cons]
    exact (quiet_onTable (Table.quiet_truncate n) c).bind fun _ => ih

/-- **How a cut of several tables ends.** -/
theorem cutTables_ends (hw : s.Wired) (hs : s.disk.faults.Serial) (n : Nat)
    (cs : List Category) :
    Disk.Ends FileState.disk
      (fun _ s' => s.Follows s' ∧ s'.frozen = s.frozen ∧
        ∀ c, s'.image c = if c ∈ cs then (s.image c).truncated n else s.image c)
      (fun s' => s.Follows s' ∧ s'.frozen = s.frozen ∧
        (∀ c, (s.image c).CutStage n (s'.image c)) ∧
        ∃ c v, (s.image c).CutStage n v ∧ n ≤ v.ends.length ∧
          ∃ change ∈ v.cutChanges n, s.disk.faults.Refuses change)
      (fun s' => s.LeftAt (fun c => (s.image c).CutStage n) s'.disk)
      (cutTables n cs s) := by
  induction cs generalizing s with
  | nil => exact .done ⟨.refl s, rfl, fun c => by simp⟩
  | cons c cs ih =>
    rw [cutTables_cons]
    refine Disk.Ends.bind
      (fun _ s₁ => Sets c s s₁ ∧ s₁.image c = (s.image c).truncated n) ?_ ?_
      (fun _ => quiet_cutTables n cs) (fun s₁ s₂ ht hl => hl.quiet ht)
    · refine (onTable_ends (Table.truncate_ends (hw.table c) hs n)).imp ?_ ?_ ?_
      · rintro - _ ⟨p, ⟨hm, hi⟩, rfl⟩
        exact ⟨hw.sets hm, (image_put_self s c p).trans hi⟩
      · rintro _ ⟨p, ⟨hm, hi, hn, hr⟩, rfl⟩
        refine ⟨(hw.sets hm).toFollows, (hw.sets hm).frozen, ?_, c, _, .kept, hn, hr⟩
        intro c'
        by_cases hc : c' = c
        · subst hc
          rw [image_put_self]
          exact hi
        · rw [(hw.sets hm).rest c' hc]
          exact .kept
      · rintro _ ⟨p, ⟨ht, v, hv, hf⟩, rfl⟩
        exact hw.leftAt ht hf hv fun _ _ => .kept
    · rintro - s₁ ⟨hset, hi⟩
      have himage : ∀ c',
          s₁.image c' = if c' = c then (s.image c').truncated n else s.image c' := by
        intro c'
        by_cases hc : c' = c
        · subst hc
          rw [if_pos rfl, hi]
        · rw [if_neg hc, hset.rest c' hc]
      have stage : ∀ {c' v}, (s₁.image c').CutStage n v → (s.image c').CutStage n v := by
        intro c' v hv
        rw [himage c'] at hv
        split at hv
        · exact hv.of_truncated
        · exact hv
      refine (ih (hw.of_follows hset.toFollows) (hset.disk.faults ▸ hs)).imp ?_ ?_ ?_
      · rintro - s₂ ⟨hf, hz, himg⟩
        refine ⟨hset.toFollows.trans hf, hz.trans hset.frozen, ?_⟩
        intro c'
        rw [himg c', himage c']
        by_cases hc : c' = c
        · simp [hc, TableImage.truncated_truncated]
        · simp [hc]
      · rintro s₂ ⟨hf, hz, himg, c', v, hv, hn, hr⟩
        refine ⟨hset.toFollows.trans hf, hz.trans hset.frozen, fun c' => stage (himg c'),
          c', v, stage hv, hn, ?_⟩
        rwa [← hset.disk.faults]
      · intro s₂ hl
        exact (hl.imp fun c' v => stage).of_follows hset.toFollows

/-- Tables that are cut after others that were cut. -/
theorem cutTables_append {n : Nat} {cs : List Category} {s₁ : FileState}
    (h : cutTables n cs s = .ok () s₁) (cs' : List Category) :
    cutTables n (cs ++ cs') s = cutTables n cs' s₁ := by
  induction cs generalizing s with
  | nil =>
    obtain ⟨-, rfl⟩ := EStateM.Result.ok.inj h
    rfl
  | cons c cs ih =>
    rw [List.cons_append, cutTables_cons, bind_apply]
    rw [cutTables_cons, bind_apply] at h
    cases ho : onTable c (Table.truncate n) s with
    | ok _ s₂ =>
      rw [ho] at h
      exact ih h
    | error e s₂ =>
      rw [ho] at h
      cases h

/-- **What a cut leaves** on a device that reports its failures. -/
theorem cutTables_stages (hw : s.Wired) (hr : s.disk.faults.Reports) (n : Nat)
    (cs : List Category) :
    s.Follows (finalState (cutTables n cs s)) ∧
      (finalState (cutTables n cs s)).frozen = s.frozen ∧
      ∀ c, (s.image c).CutStage n ((finalState (cutTables n cs s)).image c) := by
  have he := cutTables_ends hw hr.serial n cs
  generalize cutTables n cs s = r at he
  cases he with
  | done h => exact ⟨h.1, h.2.1, fun c => .of_eq (h.2.2 c)⟩
  | failed h => exact ⟨h.1, h.2.1, h.2.2.1⟩
  | lost dead h => exact absurd dead (FaultPlan.Reports.not_dead (h.disk.faults ▸ hr))

/-! ### Writing a record -/

/-- The state at which the writing of a record stopped, with the given tables to be cut back. -/
structure Stopped (s : FileState) (n : Nat) (record : Record) (cs : List Category)
    (s' : FileState) : Prop extends Follows s s' where
  frozen : s'.frozen = s.frozen
  stage : ∀ c, (s.image c).ExtendStage s.disk.faults n (record.get c) (s'.image c)
  rest : ∀ c, c ∉ cs → s'.image c = s.image c
  /-- The table that failed dropped what it had at and above `n`. -/
  short : ∃ c, (s'.image c).ends.length = n
  refused : ∃ c, ∃ change ∈ (s.image c).extendChanges n (record.get c),
    s.disk.faults.Refuses change

/-- The given tables have got their blobs of the record, the others are as they were. -/
structure Written (s : FileState) (n : Nat) (record : Record) (cs : List Category)
    (s' : FileState) : Prop extends Follows s s' where
  frozen : s'.frozen = s.frozen
  image : ∀ c, s'.image c =
    if c ∈ cs then (s.image c).extended n (record.get c) else s.image c
  accepted : ∀ c ∈ cs, ∀ change ∈ (s.image c).extendChanges n (record.get c),
    s.disk.faults.Accepts change

theorem Written.stage {n : Nat} {record : Record} {cs : List Category} {s' : FileState}
    (h : Written s n record cs s') (c : Category) :
    (s.image c).ExtendStage s.disk.faults n (record.get c) (s'.image c) := by
  rw [h.image c]
  split
  · next hc =>
    exact .done fun change hm => h.accepted c hc change
      (List.mem_append_left _ (List.mem_cons_of_mem _ hm))
  · exact .kept

theorem quiet_writeBlobs (n : Nat) (record : Record) (rest : List Category) :
    ∀ written, Disk.Quiet FileState.disk (writeBlobs n record written rest) := by
  induction rest with
  | nil => exact fun _ => Disk.quiet_pure _
  | cons c rest ih =>
    intro written s hd
    have hq := quiet_onTable (Table.quiet_append n (record.get c)) c s hd
    simp only [writeBlobs]
    generalize onTable c (Table.append n (record.get c)) s = r at hq
    cases r with
    | ok _ s₁ =>
      have := ih (written ++ [c]) s₁ hq.2
      exact ⟨hq.1.trans this.1, this.2⟩
    | error e s₁ =>
      have hc := quiet_cutTables n (written ++ [c]) s₁ hq.2
      simp only
      generalize cutTables n (written ++ [c]) s₁ = r' at hc
      cases r' <;> exact ⟨hq.1.trans hc.1, hc.2⟩

/-- What follows a table whose blob was not written. -/
theorem writeBlobs_of_error {n : Nat} {record : Record} {written rest : List Category}
    {c : Category} {s s₁ : FileState} {e : StoreError}
    (h : onTable c (Table.append n (record.get c)) s = .error e s₁) :
    writeBlobs n record written (c :: rest) s =
      match cutTables n (written ++ [c]) s₁ with
      | .ok _ s₂ => .error e s₂
      | .error e' s₂ => .error e' s₂ := by
  simp only [writeBlobs, h]
  cases cutTables n (written ++ [c]) s₁ <;> rfl

/-- How the writing of one blob ends. -/
theorem writeBlob_ends {n : Nat} {record : Record} (hw : s.Wired) (hs : s.disk.faults.Serial)
    (hn : ∀ c, n ≤ (s.image c).ends.length) {written : List Category} {c : Category}
    (hfresh : c ∉ written) {s₁ : FileState} (h : Written s n record written s₁) :
    Disk.Ends FileState.disk (fun _ s' => Written s n record (written ++ [c]) s')
      (fun s' => Stopped s n record (written ++ [c]) s')
      (fun s' => s.LeftAt (fun c => (s.image c).ExtendStage s.disk.faults n (record.get c)) s'.disk)
      (onTable c (Table.append n (record.get c)) s₁) := by
  have hw₁ := hw.of_follows h.toFollows
  have himg : (s₁.tables.get c).image s₁.disk = s.image c :=
    (h.image c).trans (if_neg hfresh)
  have hitems : n ≤ (s₁.tables.get c).items := by
    show n ≤ ((s₁.tables.get c).image s₁.disk).ends.length
    rw [himg]
    exact hn c
  have he := Table.append_ends (hw₁.table c) (h.disk.faults ▸ hs) hitems (record.get c)
  rw [himg, h.disk.faults] at he
  refine (onTable_ends he).imp ?_ ?_ ?_
  · rintro - _ ⟨p, ⟨hm, hi, ha⟩, rfl⟩
    have hset := hw₁.sets hm
    refine ⟨h.toFollows.trans hset.toFollows, hset.frozen.trans h.frozen, ?_,
      ?_⟩
    · intro c'
      by_cases hc : c' = c
      · subst hc
        rw [image_put_self, hi, if_pos (by simp)]
      · rw [hset.rest c' hc, h.image c']
        simp [hc]
    · intro c' hc'
      rcases List.mem_append.mp hc' with hc' | hc'
      · exact h.accepted c' hc'
      · rw [List.mem_singleton.mp hc']
        exact ha
  · rintro _ ⟨p, ⟨hm, hi, hl, hr⟩, rfl⟩
    have hset := hw₁.sets hm
    refine ⟨h.toFollows.trans hset.toFollows, hset.frozen.trans h.frozen, ?_,
      ?_, ⟨c, ?_⟩, ⟨c, hr⟩⟩
    · intro c'
      by_cases hc : c' = c
      · subst hc
        rw [image_put_self]
        exact hi
      · rw [hset.rest c' hc]
        exact h.stage c'
    · intro c' hc'
      rw [List.mem_append, not_or] at hc'
      rw [hset.rest c' fun hc => hc'.2 (by simp [hc]), h.image c', if_neg hc'.1]
    · rw [image_put_self]
      exact hl
  · rintro _ ⟨p, ⟨ht, v, hv, hf⟩, rfl⟩
    have left := hw₁.leftAt (P := fun c => (s.image c).ExtendStage s.disk.faults n (record.get c))
      ht hf hv fun c' _ => h.stage c'
    exact left.of_follows h.toFollows

/-- How the writing of a record ends where it stopped: the tables are cut back. -/
theorem rollback_ends {n : Nat} {record : Record} (hw : s.Wired) (hs : s.disk.faults.Serial)
    {cs : List Category} {s₁ : FileState} (h : Stopped s n record cs s₁)
    (done : Unit → FileState → Prop) :
    Disk.Ends FileState.disk done
      (fun s' => ∃ cs s₂, Stopped s n record cs s₂ ∧ s' = finalState (cutTables n cs s₂))
      (fun s' => s.LeftAt (fun c =>
        (s.image c).RollbackStage s.disk.faults n (record.get c)) s'.disk)
      (match cutTables n cs s₁ with
        | .ok _ s₂ => .error (.io .tooLarge) s₂
        | .error e s₂ => .error e s₂) := by
  have hc := cutTables_ends (hw.of_follows h.toFollows) (h.disk.faults ▸ hs) n cs
  have stopped : ∃ cs' s₂, Stopped s n record cs' s₂ ∧
      finalState (cutTables n cs s₁) = finalState (cutTables n cs' s₂) := ⟨cs, s₁, h, rfl⟩
  have left : ∀ d, s₁.LeftAt (fun c => (s₁.image c).CutStage n) d →
      s.LeftAt (fun c => (s.image c).RollbackStage s.disk.faults n (record.get c)) d := by
    intro d hl
    exact (hl.imp fun c v hv => ⟨_, h.stage c, hv⟩).of_follows h.toFollows
  generalize cutTables n cs s₁ = r at hc stopped
  cases hc with
  | done _ =>
    apply Disk.Ends.failed
    exact stopped
  | failed _ =>
    apply Disk.Ends.failed
    exact stopped
  | lost dead hl =>
    cases r with
    | ok _ s₂ => exact .lost dead (left _ hl)
    | error e s₂ => exact .lost dead (left _ hl)

/-- **How the writing of a record ends**, from where some tables have it already. -/
theorem writeBlobs_ends {n : Nat} (record : Record) (hw : s.Wired) (hs : s.disk.faults.Serial)
    (hn : ∀ c, n ≤ (s.image c).ends.length) (rest : List Category) :
    ∀ (written : List Category) {s₁ : FileState}, (written ++ rest).Nodup →
      Written s n record written s₁ →
      Disk.Ends FileState.disk
        (fun _ s' => Written s n record (written ++ rest) s')
        (fun s' => ∃ cs s₂, Stopped s n record cs s₂ ∧ s' = finalState (cutTables n cs s₂))
        (fun s' => s.LeftAt (fun c =>
          (s.image c).RollbackStage s.disk.faults n (record.get c)) s'.disk)
        (writeBlobs n record written rest s₁) := by
  induction rest with
  | nil =>
    intro written s₁ _ h
    refine .done ?_
    rwa [List.append_nil]
  | cons c rest ih =>
    intro written s₁ hnd h
    have hfresh : c ∉ written := fun hc =>
      (List.nodup_append.mp hnd).2.2 c hc c (List.mem_cons_self ..) rfl
    have forth : ∀ {c v}, (s.image c).ExtendStage s.disk.faults n (record.get c) v →
        (s.image c).RollbackStage s.disk.faults n (record.get c) v := fun hv => ⟨_, hv, .kept⟩
    have he := writeBlob_ends hw hs hn hfresh h
    cases hr : onTable c (Table.append n (record.get c)) s₁ with
    | ok u s₂ =>
      rw [hr] at he
      simp only [writeBlobs, hr]
      cases he with
      | done h₂ =>
        rw [List.append_cons]
        exact ih (written ++ [c]) (by rwa [← List.append_cons]) h₂
      | lost dead hl =>
        obtain ⟨ht, hd⟩ := quiet_writeBlobs n record rest (written ++ [c]) s₂ dead
        exact .lost hd ((hl.imp fun _ _ => forth).quiet ht)
    | error e s₂ =>
      rw [hr] at he
      rw [writeBlobs_of_error hr]
      cases he with
      | failed h₂ => exact rollback_ends hw hs h₂ _
      | lost dead hl =>
        obtain ⟨ht, hd⟩ := quiet_cutTables n (written ++ [c]) s₂ dead
        have left := (hl.imp fun _ _ => forth).quiet ht
        cases hcut : cutTables n (written ++ [c]) s₂ with
        | ok u s₃ => rw [hcut] at hd left; exact .lost hd left
        | error e' s₃ => rw [hcut] at hd left; exact .lost hd left

/-! ### The calls that change an archive -/

theorem append_of_ne {number : Nat} (h : number ≠ s.frozen) (record : Record) :
    append number record s = .error (.outOfOrderAppend s.frozen number) s := by
  simp only [append, bind_apply, get_apply, if_pos h, throw_apply]

theorem append_eq (record : Record) :
    append s.frozen record s =
      match writeBlobs s.frozen record [] Category.all s with
      | .ok _ s' => .ok () { s' with frozen := s.frozen + 1 }
      | .error e s' => .error e s' := by
  simp only [append, bind_apply, get_apply, ne_eq, not_true, if_false, setFrozen, modify_apply]
  cases writeBlobs s.frozen record [] Category.all s <;> rfl

theorem truncate_of_lt {target : Nat} (h : s.frozen < target) :
    truncate target s = .error (.invalidTruncateTarget target s.frozen) s := by
  simp only [truncate, bind_apply, get_apply, if_pos h, throw_apply]

theorem truncate_eq {target : Nat} (h : target ≤ s.frozen) :
    truncate target s = cutTables target Category.all { s with frozen := target } := by
  simp only [truncate, bind_apply, get_apply, if_neg (Nat.not_lt.mpr h), setFrozen, modify_apply]

/-- The item counts of the tables, in storage order. -/
def lengths (s : FileState) : List Nat := (s.tables.map Table.items).toList

theorem repair_eq (s : FileState) :
    repair s =
      match cutTables (leastCount (lengths s)) Category.all
          { s with frozen := leastCount (lengths s) } with
      | .ok _ s' => .ok ⟨lengths s, leastCount (lengths s)⟩ s'
      | .error e s' => .error e s' := by
  have hl : (s.tables.map Table.items).toList = lengths s := rfl
  simp only [repair, bind_apply, get_apply, setFrozen, modify_apply, pure_apply, hl]
  cases cutTables (leastCount (lengths s)) Category.all
    { s with frozen := leastCount (lengths s) } <;> rfl

/-- **How an append ends** whose number is the frozen count. -/
theorem append_ends (hw : s.Wired) (hs : s.disk.faults.Serial)
    (hn : ∀ c, s.frozen ≤ (s.image c).ends.length) (record : Record) :
    Disk.Ends FileState.disk
      (fun _ s' => ∃ s₁, Written s s.frozen record Category.all s₁ ∧
        s' = { s₁ with frozen := s.frozen + 1 })
      (fun s' => ∃ cs s₁, Stopped s s.frozen record cs s₁ ∧
        s' = finalState (cutTables s.frozen cs s₁))
      (fun s' => s.LeftAt (fun c =>
        (s.image c).RollbackStage s.disk.faults s.frozen (record.get c)) s'.disk)
      (append s.frozen record s) := by
  have he := writeBlobs_ends record hw hs hn Category.all [] (by decide)
    ⟨.refl s, rfl, fun c => by simp, fun c hc => by cases hc⟩
  rw [append_eq]
  cases hr : writeBlobs s.frozen record [] Category.all s with
  | ok _ s₁ =>
    rw [hr] at he
    cases he with
    | done h => exact .done ⟨s₁, h, rfl⟩
    | lost dead h => exact .lost dead h
  | error e s₁ =>
    rw [hr] at he
    cases he with
    | failed h => exact .failed h
    | lost dead h => exact .lost dead h

/-! ### What is left, however it ends -/

theorem cutTables_leaves (hw : s.Wired) (hs : s.disk.faults.Serial) (n : Nat)
    (cs : List Category) :
    s.LeftAt (fun c => (s.image c).CutStage n) (finalState (cutTables n cs s)).disk := by
  have he := cutTables_ends hw hs n cs
  generalize cutTables n cs s = r at he
  cases he with
  | done h => exact h.1.leftAt fun c => .of_eq (h.2.2 c)
  | failed h => exact h.1.leftAt h.2.2.1
  | lost dead h => exact h

theorem append_leaves (hw : s.Wired) (hs : s.disk.faults.Serial)
    (hn : ∀ c, s.frozen ≤ (s.image c).ends.length) (record : Record) :
    s.LeftAt (fun c => (s.image c).RollbackStage s.disk.faults s.frozen (record.get c))
      (finalState (append s.frozen record s)).disk := by
  have he := append_ends hw hs hn record
  generalize append s.frozen record s = r at he
  cases he with
  | done h =>
    obtain ⟨s₁, hs₁, rfl⟩ := h
    exact hs₁.toFollows.leftAt fun c => ⟨_, hs₁.stage c, .kept⟩
  | failed h =>
    obtain ⟨cs, s₁, hs₁, rfl⟩ := h
    have hc := cutTables_leaves (hw.of_follows hs₁.toFollows) (hs₁.disk.faults ▸ hs) s.frozen cs
    exact (hc.imp fun c v hv => ⟨_, hs₁.stage c, hv⟩).of_follows hs₁.toFollows
  | lost dead h => exact h

end FileM

end ColdArchive
