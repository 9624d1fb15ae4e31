import ColdArchive.Proofs.Table.Layout

/-!
# Changes of a table

What an append and a truncation of a table leave in its two files, wherever the device stops them.
The index is cut before the data and written after it, and the endings list the states in between.
-/

namespace ColdArchive

theorem Table.startOf_take (ends : List Nat) (n : Nat) :
    startOf (ends.take n) n = startOf ends n := by
  cases n with
  | zero => rfl
  | succ n => simp [startOf, List.getD_eq_getElem?_getD]

namespace TableImage

variable (v : TableImage)

/-- The table cut to its first `n` items. -/
def cut (n : Nat) : TableImage :=
  ⟨v.ends.take n, v.data.fit (Table.startOf v.ends n), v.index.fit (Table.entrySize * n)⟩

/-- The table with a blob as item `n`, the last one. -/
def extended (n : Nat) (blob : Blob) : TableImage :=
  let stop := Table.startOf v.ends n + blob.length
  ⟨v.ends.take n ++ [stop], v.data.fit (Table.startOf v.ends n) ++ blob,
    v.index.fit (Table.entrySize * n) ++ littleEndian stop⟩

/-- The changes that cut a table. -/
def cutChanges (n : Nat) : List Change :=
  [.resize v.index.length (Table.entrySize * n), .resize v.data.length (Table.startOf v.ends n)]

/-- The changes that put a blob in place of item `n` and those above it. -/
def extendChanges (n : Nat) (blob : Blob) : List Change :=
  Disk.rewrites v.data (Table.startOf v.ends n) blob ++
    Disk.rewrites v.index (Table.entrySize * n)
      (littleEndian (Table.startOf v.ends n + blob.length))

/-- The files of a table whose cut was broken off. -/
inductive Cutting (n : Nat) : Bytes → Bytes → Prop where
  | untouched : Cutting n v.data v.index
  | index : Cutting n v.data (v.index.fit (Table.entrySize * n))

/-- The files of a table whose extension was broken off on a device with plan `p`: the index is
written only after the blob was. -/
inductive Extending (p : FaultPlan) (n : Nat) (blob : Blob) : Bytes → Bytes → Prop where
  | untouched : Extending p n blob v.data v.index
  | data (stored : Nat) :
      Extending p n blob (v.data.fit (Table.startOf v.ends n) ++ blob.take stored) v.index
  | index (stored : Nat)
      (accepted : ∀ change ∈ Disk.writes (Table.startOf v.ends n) blob, p.Accepts change) :
      Extending p n blob (v.data.fit (Table.startOf v.ends n) ++ blob)
        (v.index.fit (Table.entrySize * n) ++
          (littleEndian (Table.startOf v.ends n + blob.length)).take stored)

/-- The images of a table on its way to a cut, as far as it has that many items. -/
inductive CutStage (n : Nat) : TableImage → Prop where
  | kept : CutStage n v
  | index (h : n ≤ v.ends.length) :
      CutStage n { v with index := v.index.fit (Table.entrySize * n) }
  | done (h : n ≤ v.ends.length) : CutStage n (v.cut n)

/-- The images of a table on its way to an extension. -/
inductive ExtendStage (p : FaultPlan) (n : Nat) (blob : Blob) : TableImage → Prop where
  | kept : ExtendStage p n blob v
  | part {data index : Bytes} (h : v.Extending p n blob data index) :
      ExtendStage p n blob ⟨v.ends.take n, data, index⟩
  | done (accepted : ∀ change ∈ Disk.writes (Table.startOf v.ends n) blob, p.Accepts change) :
      ExtendStage p n blob (v.extended n blob)

/-- The images of a table on its way to an extension, and back from it. -/
def RollbackStage (p : FaultPlan) (n : Nat) (blob : Blob) (w : TableImage) : Prop :=
  ∃ u, v.ExtendStage p n blob u ∧ u.CutStage n w

/-- The table after a truncation, which passes by a table with fewer items. -/
def truncated (n : Nat) : TableImage := if v.ends.length < n then v else v.cut n

theorem truncated_of_le {v : TableImage} {n : Nat} (h : n ≤ v.ends.length) :
    v.truncated n = v.cut n := if_neg (Nat.not_lt.mpr h)

theorem truncated_of_lt {v : TableImage} {n : Nat} (h : v.ends.length < n) : v.truncated n = v :=
  if_pos h

theorem cutStage_truncated (n : Nat) : v.CutStage n (v.truncated n) := by
  by_cases h : v.ends.length < n
  · rw [truncated_of_lt h]
    exact .kept
  · rw [truncated_of_le (by omega)]
    exact .done (by omega)

theorem cut_cut (n : Nat) : (v.cut n).cut n = v.cut n := by
  simp only [cut, Table.startOf_take, List.take_take, Nat.min_self, Bytes.fit_fit]

theorem truncated_truncated (n : Nat) : (v.truncated n).truncated n = v.truncated n := by
  by_cases h : v.ends.length < n
  · rw [truncated_of_lt h, truncated_of_lt h]
  · have hn := Nat.le_of_not_lt h
    have hc : n ≤ (v.cut n).ends.length := by
      rw [cut, List.length_take]
      omega
    rw [truncated_of_le hn, truncated_of_le hc, cut_cut]

theorem CutStage.of_eq {v w : TableImage} {n : Nat} {p : Prop} [Decidable p]
    (h : w = if p then v.truncated n else v) : v.CutStage n w := by
  rw [h]
  split
  · exact v.cutStage_truncated n
  · exact .kept

/-- What is cut again stays on the way to the first cut. -/
theorem CutStage.of_truncated {v w : TableImage} {n : Nat} (h : (v.truncated n).CutStage n w) :
    v.CutStage n w := by
  by_cases hn : v.ends.length < n
  · rwa [truncated_of_lt hn] at h
  have hn := Nat.le_of_not_lt hn
  rw [truncated_of_le hn] at h
  cases h with
  | kept => exact .done hn
  | index =>
    have hi : (v.cut n).index.fit (Table.entrySize * n) = (v.cut n).index := Bytes.fit_fit _ _
    rw [hi]
    exact .done hn
  | done => rw [cut_cut]; exact .done hn

theorem CutStage.of_cutting {v : TableImage} {n : Nat} {data index : Bytes}
    (hn : n ≤ v.ends.length) (h : v.Cutting n data index) : v.CutStage n ⟨v.ends, data, index⟩ := by
  cases h with
  | untouched => exact .kept
  | index => exact .index hn

end TableImage

namespace Table

/-- The two files of a table are files of the disk, and not the same. -/
structure Wired (t : Table) (d : Disk) : Prop where
  data : t.data < d.contents.length
  index : t.index < d.contents.length
  apart : t.data ≠ t.index

theorem Wired.of_touches {t : Table} {d d' : Disk} {ids : List FileId} (h : t.Wired d)
    (ht : Disk.Touches ids d d') : t.Wired d' :=
  ⟨by rw [ht.size]; exact h.data, by rw [ht.size]; exact h.index, h.apart⟩

/-- The changes of a table leave the rest of the disk as it is. -/
def Touches (t : Table) (d d' : Disk) : Prop := Disk.Touches [t.data, t.index] d d'

section Frame

variable {t : Table} {d d' d'' : Disk}

theorem Touches.of_data (h : Disk.Touches [t.data] d d') : t.Touches d d' := h.mono (by simp)

theorem Touches.of_index (h : Disk.Touches [t.index] d d') : t.Touches d d' := h.mono (by simp)

theorem Touches.of_nothing (h : Disk.Touches [] d d') : t.Touches d d' := h.mono (by simp)

theorem Touches.trans (h : t.Touches d d') (h' : t.Touches d' d'') : t.Touches d d'' :=
  Disk.Touches.trans h h'

theorem Wired.index_of_data (hw : t.Wired d) (h : Disk.Touches [t.data] d d') :
    d'.bytes t.index = d.bytes t.index :=
  h.rest _ fun hm => hw.apart (List.mem_singleton.mp hm).symm

theorem Wired.data_of_index (hw : t.Wired d) (h : Disk.Touches [t.index] d d') :
    d'.bytes t.data = d.bytes t.data :=
  h.rest _ fun hm => hw.apart (List.mem_singleton.mp hm)

end Frame

/-! ### Cutting -/

/-- **How a cut of the files ends.** -/
theorem cutFiles_ends {t : Table} {d : Disk} (hw : t.Wired d) (hs : d.faults.Serial) (n : Nat) :
    Disk.Ends (fun d => d)
      (fun _ d' => t.Touches d d' ∧ (t.keep n).image d' = (t.image d).cut n)
      (fun d' => t.Touches d d' ∧ (t.image d).Cutting n (d'.bytes t.data) (d'.bytes t.index) ∧
        ∃ change ∈ (t.image d).cutChanges n, d.faults.Refuses change)
      (fun d' => t.Touches d d' ∧ (t.image d).Cutting n (d'.bytes t.data) (d'.bytes t.index))
      (t.cutFiles n d) := by
  refine Disk.Ends.bind (fun _ d₁ => Disk.Touches [t.index] d d₁ ∧
      d₁.bytes t.index = (d.bytes t.index).fit (entrySize * n)) ?_ ?_ ?_ ?_
  · refine (Disk.resize_ends hw.index hs _).imp (fun _ d₁ h => ⟨h.1, h.2.1⟩) ?_
      ?_
    · intro d₁ h
      refine ⟨Touches.of_nothing h.1, ?_, _, List.mem_cons_self .., h.2⟩
      rw [h.1.bytes_eq, h.1.bytes_eq]
      exact .untouched
    · intro d₁ h
      refine ⟨Touches.of_nothing h, ?_⟩
      rw [h.bytes_eq, h.bytes_eq]
      exact .untouched
  · rintro - d₁ ⟨h₁, hi⟩
    have hw₁ := hw.of_touches h₁
    have hd := hw.data_of_index h₁
    have cut : ∀ d₂, Disk.Touches [] d₁ d₂ →
        (t.image d).Cutting n (d₂.bytes t.data) (d₂.bytes t.index) := by
      intro d₂ h₂
      rw [h₂.bytes_eq, h₂.bytes_eq, hd, hi]
      exact .index
    refine (Disk.resize_ends hw₁.data (by rw [h₁.faults]; exact hs) _).imp ?_
      ?_ ?_
    · intro _ d₂ h
      refine ⟨(Touches.of_index h₁).trans (Touches.of_data h.1), ?_⟩
      rw [image, keep, hw₁.index_of_data h.1, hi, h.2.1, hd]
      rfl
    · intro d₂ h
      refine ⟨(Touches.of_index h₁).trans (Touches.of_nothing h.1), cut _ h.1, _,
        List.mem_cons_of_mem _ (List.mem_cons_self ..), ?_⟩
      have := h.2
      rwa [hd, h₁.faults] at this
    · intro d₂ h
      exact ⟨(Touches.of_index h₁).trans (Touches.of_nothing h), cut _ h⟩
  · exact fun _ => Disk.quiet_resize _ _
  · rintro d₁ d₂ h ⟨ht, hc⟩
    exact ⟨ht.trans (Touches.of_nothing h), by rwa [h.bytes_eq, h.bytes_eq]⟩

/-! ### Extending -/

theorem items_keep {t : Table} {n : Nat} (hn : n ≤ t.items) : (t.keep n).items = n :=
  List.length_take_of_le hn

/-- An extension rewrites the end of the data file and then the end of the index file. -/
theorem extend_eq {t : Table} {n : Nat} (hn : n ≤ t.items) (blob : Blob) (d : Disk) :
    (t.keep n).extend blob d =
      (Disk.rewriteFrom t.data (startOf t.ends n) blob >>= fun _ =>
        Disk.rewriteFrom t.index (entrySize * n)
          (littleEndian (startOf t.ends n + blob.length)) >>= fun _ =>
        pure { t with ends := t.ends.take n ++ [startOf t.ends n + blob.length] }) d := by
  have hitems : (t.keep n).items = n := items_keep hn
  have hstart : startOf (t.keep n).ends n = startOf t.ends n := startOf_take _ _
  have hdata : (t.keep n).data = t.data := rfl
  have hindex : (t.keep n).index = t.index := rfl
  unfold extend
  rw [hitems, hstart]
  simp only [Disk.rewriteFrom, bind_apply, hdata, hindex]
  cases Disk.resize t.data (startOf t.ends n) d with
  | error e d₁ => rfl
  | ok _ d₁ =>
    simp only
    cases Disk.writeAt t.data (startOf t.ends n) blob d₁ with
    | error e d₂ => rfl
    | ok _ d₂ =>
      simp only
      cases Disk.resize t.index (entrySize * n) d₂ <;> rfl

/-- **How an extension of the files ends.** -/
theorem extend_ends {t : Table} {d : Disk} (hw : t.Wired d) (hs : d.faults.Serial) {n : Nat}
    (hn : n ≤ t.items) (blob : Blob) :
    Disk.Ends (fun d => d)
      (fun t' d' => t.Touches d d' ∧ t'.image d' = (t.image d).extended n blob ∧
        t' = { t with ends := t'.ends } ∧
        ∀ change ∈ (t.image d).extendChanges n blob, d.faults.Accepts change)
      (fun d' => t.Touches d d' ∧
        (t.image d).Extending d.faults n blob (d'.bytes t.data) (d'.bytes t.index) ∧
        ∃ change ∈ (t.image d).extendChanges n blob, d.faults.Refuses change)
      (fun d' => t.Touches d d' ∧
        (t.image d).Extending d.faults n blob (d'.bytes t.data) (d'.bytes t.index))
      ((t.keep n).extend blob d) := by
  rw [extend_eq hn]
  have lost_mono : ∀ d₁ d₂, Disk.Touches [] d₁ d₂ → t.Touches d d₁ ∧
      (t.image d).Extending d.faults n blob (d₁.bytes t.data) (d₁.bytes t.index) → t.Touches d d₂ ∧
      (t.image d).Extending d.faults n blob (d₂.bytes t.data) (d₂.bytes t.index) := by
    rintro d₁ d₂ h ⟨ht, hc⟩
    exact ⟨ht.trans (Touches.of_nothing h), by rwa [h.bytes_eq, h.bytes_eq]⟩
  -- while the data file is rewritten the index stays
  have data : ∀ d₁, Disk.Touches [t.data] d d₁ →
      Disk.Rewriting (d.bytes t.data) (startOf t.ends n) blob (d₁.bytes t.data) →
      (t.image d).Extending d.faults n blob (d₁.bytes t.data) (d₁.bytes t.index) := by
    intro d₁ h₁ hr
    rw [hw.index_of_data h₁]
    generalize d₁.bytes t.data = D at hr
    cases hr with
    | untouched => exact .untouched
    | written stored => exact .data stored
  refine Disk.Ends.bind _ ((Disk.rewriteFrom_ends hw.data hs (startOf t.ends n) blob).imp
    (fun _ _ h => h) (fun d₁ h => ?_) (fun d₁ h => ⟨Touches.of_data h.1, data d₁ h.1 h.2⟩))
    ?_ (fun _ => (Disk.quiet_rewriteFrom _ _ _).bind fun _ => Disk.quiet_pure _) lost_mono
  · obtain ⟨change, hc, hr⟩ := h.2.2
    exact ⟨Touches.of_data h.1, data d₁ h.1 h.2.1, change, List.mem_append_left _ hc, hr⟩
  rintro - d₁ ⟨h₁, b₁, a₁⟩
  have hw₁ := hw.of_touches h₁
  have i₁ := hw.index_of_data h₁
  -- while the index file is rewritten the blob is there
  have index : ∀ d₂, Disk.Touches [t.index] d₁ d₂ →
      Disk.Rewriting (d.bytes t.index) (entrySize * n)
        (littleEndian (startOf t.ends n + blob.length)) (d₂.bytes t.index) →
      (t.image d).Extending d.faults n blob (d₂.bytes t.data) (d₂.bytes t.index) := by
    intro d₂ h₂ hr
    rw [hw₁.data_of_index h₂, b₁]
    generalize d₂.bytes t.index = X at hr
    cases hr with
    | untouched =>
      have h : (t.image d).Extending d.faults n blob
          ((t.image d).data.fit (startOf t.ends n) ++ blob.take blob.length) (t.image d).index :=
        .data _
      rwa [List.take_length] at h
    | written stored => exact .index stored fun change hc => a₁ change (List.mem_cons_of_mem _ hc)
  have hrw := Disk.rewriteFrom_ends hw₁.index (by rw [h₁.faults]; exact hs) (entrySize * n)
    (littleEndian (startOf t.ends n + blob.length))
  rw [i₁, h₁.faults] at hrw
  refine Disk.Ends.bind _ (hrw.imp (fun _ _ h => h) (fun d₂ h => ?_) (fun d₂ h =>
    ⟨(Touches.of_data h₁).trans (Touches.of_index h.1), index d₂ h.1 h.2⟩))
    ?_ (fun _ => Disk.quiet_pure _) lost_mono
  · obtain ⟨change, hc, hr⟩ := h.2.2
    exact ⟨(Touches.of_data h₁).trans (Touches.of_index h.1), index d₂ h.1 h.2.1, change,
      List.mem_append_right _ hc, hr⟩
  rintro - d₂ ⟨h₂, b₂, a₂⟩
  refine .done ⟨(Touches.of_data h₁).trans (Touches.of_index h₂), ?_, rfl, ?_⟩
  · rw [image, hw₁.data_of_index h₂, b₁, b₂]
    rfl
  · intro change hc
    rcases List.mem_append.mp hc with hc | hc
    · exact a₁ change hc
    · exact a₂ change hc

/-! ### Truncations and appends of an open table -/

/-- The second table has the files of the first, and the disk changed in these files only. -/
structure Moves (p p' : Table × Disk) : Prop where
  wiring : p'.1 = { p.1 with ends := p'.1.ends }
  disk : p.1.Touches p.2 p'.2

/-- The files of the table are those of the image. -/
def HasFiles (t : Table) (d : Disk) (v : TableImage) : Prop :=
  d.bytes t.data = v.data ∧ d.bytes t.index = v.index

theorem truncate_eq (n : Nat) (t : Table) (d : Disk) :
    truncate n (t, d) =
      if t.items < n then .ok () (t, d)
      else match t.cutFiles n d with
        | .ok _ d => .ok () (t.keep n, d)
        | .error e d => .error e (t, d) := by
  simp only [truncate, bind_apply, get_apply]
  split
  · rfl
  · simp only [TableM.onDisk, bind_apply]
    cases t.cutFiles n d <;> rfl

theorem append_eq (n : Nat) (blob : Blob) (t : Table) (d : Disk) :
    append n blob (t, d) =
      if t.items < n then
        .error (.corrupted
          s!"{t.category.name} table holds {t.items} items, cannot write item {n}") (t, d)
      else match (t.keep n).extend blob d with
        | .ok t d => .ok () (t, d)
        | .error e d => .error e (t.keep n, d) := by
  simp only [append, bind_apply, get_apply]
  split
  · rfl
  · simp only [TableM.onDisk, bind_apply, modify_apply]
    cases (t.keep n).extend blob d <;> rfl

theorem quiet_cutFiles (t : Table) (n : Nat) : Disk.Quiet (fun d => d) (t.cutFiles n) :=
  (Disk.quiet_resize _ _).bind fun _ => Disk.quiet_resize _ _

theorem quiet_extend (t : Table) (blob : Blob) : Disk.Quiet (fun d => d) (t.extend blob) :=
  (Disk.quiet_resize _ _).bind fun _ => (Disk.quiet_writeAt _ _ _).bind fun _ =>
    (Disk.quiet_resize _ _).bind fun _ => (Disk.quiet_writeAt _ _ _).bind fun _ =>
      Disk.quiet_pure _

theorem quiet_truncate (n : Nat) : Disk.Quiet Prod.snd (truncate n) := by
  rintro ⟨t, d⟩ hd
  rw [truncate_eq]
  split
  · exact ⟨.refl _ _, hd⟩
  · have h := quiet_cutFiles t n d hd
    cases hc : t.cutFiles n d <;> rw [hc] at h <;> exact h

theorem quiet_append (n : Nat) (blob : Blob) : Disk.Quiet Prod.snd (append n blob) := by
  rintro ⟨t, d⟩ hd
  rw [append_eq]
  split
  · exact ⟨.refl _ _, hd⟩
  · have h := quiet_extend (t.keep n) blob d hd
    cases hc : (t.keep n).extend blob d <;> rw [hc] at h <;> exact h

/-- **How a truncation of a table ends.** -/
theorem truncate_ends {t : Table} {d : Disk} (hw : t.Wired d) (hs : d.faults.Serial) (n : Nat) :
    Disk.Ends Prod.snd
      (fun _ p => Moves (t, d) p ∧ p.1.image p.2 = (t.image d).truncated n)
      (fun p => Moves (t, d) p ∧ (t.image d).CutStage n (p.1.image p.2) ∧ n ≤ t.ends.length ∧
        ∃ change ∈ (t.image d).cutChanges n, d.faults.Refuses change)
      (fun p => t.Touches d p.2 ∧ ∃ v, (t.image d).CutStage n v ∧ t.HasFiles p.2 v)
      (truncate n (t, d)) := by
  rw [truncate_eq]
  split
  · next h => exact .done ⟨⟨rfl, .refl _ _⟩, (TableImage.truncated_of_lt h).symm⟩
  · next h =>
    have hn : n ≤ t.ends.length := Nat.le_of_not_lt h
    have hc := cutFiles_ends hw hs n
    generalize t.cutFiles n d = r at hc
    cases hc with
    | done hc => exact .done ⟨⟨rfl, hc.1⟩, hc.2.trans (TableImage.truncated_of_le hn).symm⟩
    | failed hc => exact .failed ⟨⟨rfl, hc.1⟩, .of_cutting hn hc.2.1, hn, hc.2.2⟩
    | lost dead hc =>
      have left : t.Touches d (finalState r) ∧
          ∃ v, (t.image d).CutStage n v ∧ t.HasFiles (finalState r) v :=
        ⟨hc.1, _, .of_cutting hn hc.2, rfl, rfl⟩
      cases r with
      | ok _ d' => exact .lost dead left
      | error e d' => exact .lost dead left

/-- **How an append to a table ends.** -/
theorem append_ends {t : Table} {d : Disk} (hw : t.Wired d) (hs : d.faults.Serial) {n : Nat}
    (hn : n ≤ t.items) (blob : Blob) :
    Disk.Ends Prod.snd
      (fun _ p => Moves (t, d) p ∧ p.1.image p.2 = (t.image d).extended n blob ∧
        ∀ change ∈ (t.image d).extendChanges n blob, d.faults.Accepts change)
      (fun p => Moves (t, d) p ∧ (t.image d).ExtendStage d.faults n blob (p.1.image p.2) ∧
        p.1.ends.length = n ∧
        ∃ change ∈ (t.image d).extendChanges n blob, d.faults.Refuses change)
      (fun p => t.Touches d p.2 ∧ ∃ v, (t.image d).ExtendStage d.faults n blob v ∧ t.HasFiles p.2 v)
      (append n blob (t, d)) := by
  rw [append_eq, if_neg (Nat.not_lt.mpr hn)]
  have he := extend_ends hw hs hn blob
  generalize (t.keep n).extend blob d = r at he
  cases he with
  | done he => exact .done ⟨⟨he.2.2.1, he.1⟩, he.2.1, he.2.2.2⟩
  | failed he =>
    refine .failed ⟨⟨rfl, he.1⟩, .part he.2.1, ?_, he.2.2⟩
    exact List.length_take_of_le hn
  | lost dead he =>
    have left : t.Touches d (finalState r) ∧
        ∃ v, (t.image d).ExtendStage d.faults n blob v ∧ t.HasFiles (finalState r) v :=
      ⟨he.1, _, .part he.2, rfl, rfl⟩
    cases r with
    | ok _ d' => exact .lost dead left
    | error e d' => exact .lost dead left

end Table

end ColdArchive
