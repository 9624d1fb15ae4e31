import ColdArchive.Proofs.Files.OneTable

/-!
# A table that goes on after failures

A change of a table that failed leaves a table in hand, and the next change starts from its ends. An
append forgets the items that it is to replace before it touches a file, so that the index never has
less than the ends. A truncation forgets them last: where its second cut fails, the index has less.
What is read from the table in hand is right all the same, and the files tell less than that, or
more, but nothing else (`TableImage.Agrees`). This ends when an entry is asked for behind the end of
the index, which then grows by zeros.
-/

namespace ColdArchive

namespace Table

/-- A change of a table. -/
inductive Edit where
  | append (number : Nat) (blob : Blob)
  | truncate (items : Nat)
  deriving DecidableEq, Repr

namespace Edit

/-- The item from which on everything goes. -/
def number : Edit → Nat
  | .append number _ => number
  | .truncate items => items

def work : Edit → TableM Unit
  | .append number blob => Table.append number blob
  | .truncate items => Table.truncate items

/-- The images of a table after a change, whether it was done, failed or was refused. -/
inductive Leaves (p : FaultPlan) (v : TableImage) : Edit → TableImage → Prop where
  | skipped (e : Edit) : Leaves p v e v
  | cut {n : Nat} {w : TableImage} (h : v.CutStage n w) : Leaves p v (.truncate n) w
  | extended {n : Nat} {blob : Blob} {w : TableImage} (hn : n ≤ v.ends.length)
      (h : v.ExtendStage p n blob w) : Leaves p v (.append n blob) w

end Edit

/-- A table and its disk after a change, whatever came of it. -/
def after (p : Table × Disk) (e : Edit) : Table × Disk := finalState (e.work p)

theorem after_append (p : Table × Disk) (n : Nat) (blob : Blob) :
    after p (.append n blob) = finalState (append n blob p) := rfl

theorem after_truncate (p : Table × Disk) (n : Nat) :
    after p (.truncate n) = finalState (truncate n p) := rfl

def afterAll (p : Table × Disk) (edits : List Edit) : Table × Disk := edits.foldl after p

/-- Each change is made where something holds. -/
def Throughout (P : Table × Disk → Edit → Prop) : Table × Disk → List Edit → Prop
  | _, [] => True
  | p, e :: edits => P p e ∧ Throughout P (after p e) edits

/-- The index reaches as far as it is to be cut. -/
def Reaches (p : Table × Disk) (e : Edit) : Prop :=
  e.number ≤ p.1.items → entrySize * e.number ≤ (p.2.bytes p.1.index).length

/-- The change is no truncation that fails. -/
def Truncates (p : Table × Disk) (e : Edit) : Prop :=
  ∀ n, e = .truncate n → ∃ p', e.work p = .ok () p'

/-- What is read from a table, item by item. -/
def ReadsAs (t : Table) (d : Disk) (blobs : List Blob) : Prop :=
  ∀ n, t.retrieve n d = .ok blobs[n]? d

/-! ### Runs -/

section Runs

variable {I : Table × Disk → Prop} {P Q : Table × Disk → Edit → Prop}

theorem afterAll_induct (step : ∀ p e, I p → I (after p e)) {p : Table × Disk} (hi : I p)
    (edits : List Edit) : I (afterAll p edits) := by
  induction edits generalizing p with
  | nil => exact hi
  | cons e edits ih => exact ih (step p e hi)

theorem throughout_of_forall (h : ∀ p e, P p e) (p : Table × Disk) (edits : List Edit) :
    Throughout P p edits := by
  induction edits generalizing p with
  | nil => trivial
  | cons e edits ih => exact ⟨h p e, ih _⟩

/-- **What one change keeps is kept by a run**, and what follows from it holds at each change. -/
theorem Throughout.run (step : ∀ p e, I p → P p e → Q p e ∧ I (after p e)) {p : Table × Disk}
    {edits : List Edit} (h : Throughout P p edits) (hi : I p) :
    Throughout Q p edits ∧ I (afterAll p edits) := by
  induction edits generalizing p with
  | nil => exact ⟨trivial, hi⟩
  | cons e edits ih =>
    obtain ⟨hq, hi'⟩ := step p e hi h.1
    obtain ⟨hqs, hlast⟩ := ih h.2 hi'
    exact ⟨⟨hq, hqs⟩, hlast⟩

end Runs

theorem readsAs_of_begins {t : Table} {d : Disk} {blobs : List Blob} (he : t.ends = endsOf blobs)
    (hd : blobs.flatten <+: d.bytes t.data) : t.ReadsAs d blobs := by
  intro n
  cases hb : blobs[n]? with
  | some b => exact retrieve_blob he hd hb
  | none =>
    have hn : t.ends[n]? = none := by
      rw [List.getElem?_eq_none_iff] at hb ⊢
      rwa [he, length_endsOf]
    rw [retrieve, hn]
    rfl

theorem readsAs_of_image {t : Table} {d : Disk} {blobs : List Blob}
    (h : t.image d = .ofBlobs blobs) : t.ReadsAs d blobs := by
  have hd : d.bytes t.data = blobs.flatten := congrArg TableImage.data h
  exact readsAs_of_begins (congrArg TableImage.ends h) (hd ▸ List.prefix_rfl)

end Table

/-! ### Images -/

namespace TableImage

variable {v w : TableImage} {blobs : List Blob} {n : Nat} {blob : Blob} {p : FaultPlan}

/-- The ends are those of the blobs, and the data begin with them. -/
structure Reads (v : TableImage) (blobs : List Blob) : Prop where
  ends : v.ends = Table.endsOf blobs
  data : blobs.flatten <+: v.data
  size : blobBytes blobs ≤ Disk.greatestLength

/-- The index, too, is that of the blobs, as far as it goes or as far as they go. -/
structure Agrees (v : TableImage) (blobs : List Blob) : Prop extends v.Reads blobs where
  index : v.index <+: Table.indexOf (Table.endsOf blobs) ∨
    Table.indexOf (Table.endsOf blobs) <+: v.index
  inOrder : Table.firstDrop? 0 0 (Table.entries v.index) = none

/-- The index is not shorter than the ends ask for. -/
def Covered (v : TableImage) : Prop := Table.entrySize * v.ends.length ≤ v.index.length

theorem Holds.inOrder (h : v.Holds blobs) (hb : blobBytes blobs < wordLimit) :
    Table.firstDrop? 0 0 (Table.entries v.index) = none := by
  rw [h.entries_eq hb]
  exact Table.firstDrop?_endsFrom 0 0 blobs

theorem ofBlobs_agrees (h : blobBytes blobs ≤ Disk.greatestLength) : (ofBlobs blobs).Agrees blobs :=
  ⟨⟨rfl, List.prefix_rfl, h⟩, .inl List.prefix_rfl,
    (ofBlobs_holds blobs).inOrder (Table.blobBytes_lt_wordLimit h)⟩

/-! ### The table in hand -/

/-- With the right index, the files would begin with the blobs. -/
theorem Reads.begins_indexed (h : v.Reads blobs) (n : Nat) :
    Begins { v with index := Table.indexOf (Table.endsOf blobs) } (blobs.take n) := by
  have hb : Begins { v with index := Table.indexOf (Table.endsOf blobs) } blobs :=
    ⟨h.ends ▸ List.prefix_rfl, h.data, List.prefix_rfl⟩
  exact hb.take n

theorem Reads.length_take (h : v.Reads blobs) (hn : n ≤ v.ends.length) :
    (blobs.take n).length = n := by
  rw [h.ends, Table.length_endsOf] at hn
  exact List.length_take_of_le hn

theorem Reads.size_take (h : v.Reads blobs) (n : Nat) :
    blobBytes (blobs.take n) ≤ Disk.greatestLength :=
  Nat.le_trans (Table.blobBytes_take_le n blobs) h.size

theorem Reads.take (h : v.Reads blobs) {data index : Bytes}
    (hd : (blobs.take n).flatten <+: data) :
    Reads ⟨v.ends.take n, data, index⟩ (blobs.take n) := by
  refine ⟨?_, hd, h.size_take n⟩
  rw [h.ends, Table.take_endsOf]

theorem Reads.fit_data (h : v.Reads blobs) (hn : n ≤ v.ends.length) :
    v.data.fit (Table.startOf v.ends n) = (blobs.take n).flatten := by
  have hfit := (h.begins_indexed n).fit_data
  rwa [h.length_take hn] at hfit

/-- A broken off extension keeps the blobs below it, in the data and in the ends. -/
theorem Reads.of_extending (h : v.Reads blobs) (hn : n ≤ v.ends.length) {data index : Bytes}
    (he : v.Extending p n blob data index) :
    Reads ⟨v.ends.take n, data, index⟩ (blobs.take n) := by
  apply h.take
  cases he with
  | untouched => exact (h.begins_indexed n).data
  | data stored => exact h.fit_data hn ▸ List.prefix_append _ _
  | index stored _ => exact h.fit_data hn ▸ List.prefix_append _ _

theorem Reads.size_extended (h : v.Reads blobs) (hn : n ≤ v.ends.length) (hp : p.Bounded)
    (accepted : ∀ change ∈ Disk.writes (Table.startOf v.ends n) blob, p.Accepts change) :
    blobBytes (blobs.take n ++ [blob]) ≤ Disk.greatestLength := by
  have hstart := (h.begins_indexed n).startOf_eq
  rw [h.length_take hn] at hstart
  rw [Table.blobBytes_append]
  exact Disk.le_of_accepts hp (hstart ▸ accepted) (h.size_take n)

/-- **The table in hand reads as a list of blobs after each change**, whether it failed or not. -/
theorem Reads.of_leaves {e : Table.Edit} (h : v.Reads blobs) (hp : p.Bounded)
    (hl : e.Leaves p v w) : ∃ blobs', w.Reads blobs' := by
  cases hl with
  | skipped => exact ⟨blobs, h⟩
  | @cut n _ hc =>
    cases hc with
    | kept => exact ⟨blobs, h⟩
    | index _ => exact ⟨blobs, h.ends, h.data, h.size⟩
    | done hn => exact ⟨blobs.take n, h.take (h.fit_data hn ▸ List.prefix_rfl)⟩
  | @extended n blob _ hn he =>
    cases he with
    | kept => exact ⟨blobs, h⟩
    | part hpart => exact ⟨blobs.take n, h.of_extending hn hpart⟩
    | done accepted =>
      have hnew := (h.begins_indexed n).extended_eq blob
      rw [h.length_take hn] at hnew
      exact ⟨blobs.take n ++ [blob], congrArg TableImage.ends hnew,
        (congrArg TableImage.data hnew) ▸ List.prefix_rfl, h.size_extended hn hp accepted⟩

/-! ### The files -/

/-- An index that reaches so far begins with the entries of the first blobs. -/
theorem Agrees.begins (h : v.Agrees blobs) (hn : n ≤ v.ends.length)
    (hi : Table.entrySize * n ≤ v.index.length) : v.Begins (blobs.take n) := by
  have hb := h.begins_indexed n
  refine ⟨hb.ends, hb.data, ?_⟩
  rcases h.index with hindex | hindex
  · refine List.prefix_of_prefix_length_le hb.index hindex ?_
    rwa [Table.length_indexOf, Table.length_endsOf, h.length_take hn]
  · exact hb.index.trans hindex

/-- A cut of the index leaves its first entries, and a cut of both files the first blobs. -/
theorem Agrees.of_cutStage (h : v.Agrees blobs)
    (hi : n ≤ v.ends.length → Table.entrySize * n ≤ v.index.length) (hc : v.CutStage n w) :
    ∃ blobs', w.Agrees blobs' := by
  cases hc with
  | kept => exact ⟨blobs, h⟩
  | index hn =>
    have hfit := (h.begins hn (hi hn)).fit_index
    rw [h.length_take hn] at hfit
    refine ⟨blobs, ⟨h.ends, h.data, h.size⟩, .inl ?_, ?_⟩
    · rw [hfit]
      exact (h.begins_indexed n).index
    · rw [hfit]
      exact (ofBlobs_holds _).inOrder (Table.blobBytes_lt_wordLimit (h.size_take n))
  | done hn =>
    have hcut := (h.begins hn (hi hn)).cut_eq
    rw [h.length_take hn] at hcut
    exact ⟨_, hcut ▸ ofBlobs_agrees (h.size_take n)⟩

/-- On the way of an append the index has the old entries, or those below the item and perhaps its
own. -/
theorem Agrees.inOrder_of_extendStage (h : v.Agrees blobs) (hp : p.Bounded)
    (hb : v.Begins (blobs.take n)) (he : v.ExtendStage p (blobs.take n).length blob w) :
    Table.firstDrop? 0 0 (Table.entries w.index) = none := by
  rcases hb.extendStage_cases he with rfl | ⟨-, hindex, -⟩ | hstage
  · exact h.inOrder
  · exact hindex ▸ h.inOrder
  · rcases holds_of_extendStage hstage with hold | ⟨hnew, accepted⟩
    · exact hold.inOrder (Table.blobBytes_lt_wordLimit (h.size_take n))
    · have hle := Disk.le_of_accepts hp accepted (h.size_take n)
      exact hnew.inOrder (Table.blobBytes_lt_wordLimit (Table.blobBytes_append _ _ ▸ hle))

theorem Agrees.of_extendStage (h : v.Agrees blobs) (hp : p.Bounded) (hn : n ≤ v.ends.length)
    (hi : Table.entrySize * n ≤ v.index.length) (he : v.ExtendStage p n blob w) :
    ∃ blobs', w.Agrees blobs' := by
  have hb := h.begins hn hi
  have hlen := h.length_take hn
  have hstage : v.ExtendStage p (blobs.take n).length blob w := by rwa [hlen]
  have hindex := (hb.of_extendStage hstage).index
  have hinOrder := h.inOrder_of_extendStage hp hb hstage
  cases he with
  | kept => exact ⟨blobs, h⟩
  | part hpart => exact ⟨blobs.take n, h.of_extending hn hpart, .inr hindex, hinOrder⟩
  | done accepted =>
    have hnew := hb.extended_eq blob
    rw [hlen] at hnew
    exact ⟨_, hnew ▸ ofBlobs_agrees (h.size_extended hn hp accepted)⟩

/-- **The files go on agreeing with the table in hand**, as long as the index is not made longer
before an entry is written. -/
theorem Agrees.of_leaves {e : Table.Edit} (h : v.Agrees blobs) (hp : p.Bounded)
    (hi : e.number ≤ v.ends.length → Table.entrySize * e.number ≤ v.index.length)
    (hl : e.Leaves p v w) : ∃ blobs', w.Agrees blobs' := by
  cases hl with
  | skipped => exact ⟨blobs, h⟩
  | cut hc => exact h.of_cutStage hi hc
  | extended hn he => exact h.of_extendStage hp hn (hi hn) he

/-- **Files that agree with the table in hand tell what it has**, or the first of it, or more. -/
theorem Agrees.told (h : v.Agrees blobs) :
    ∃ found, Table.told v.data v.index = .ok found ∧ (found <+: blobs ∨ blobs <+: found) := by
  have hword := Table.blobBytes_lt_wordLimit h.size
  rcases h.index with hindex | hindex
  · -- the whole entries of the index are those of the first blobs
    have hlen := hindex.length_le
    rw [Table.length_indexOf, Table.length_endsOf, Table.entrySize] at hlen
    have hn : v.index.length / 8 ≤ v.ends.length := by
      rw [h.ends, Table.length_endsOf]
      omega
    have hb := h.begins hn (by rw [Table.entrySize]; omega)
    have hholds : v.Holds (blobs.take (v.index.length / 8)) := by
      refine hb.holds ?_
      rw [h.length_take hn, Table.entrySize]
      omega
    exact ⟨_, hholds.told_eq (Table.blobBytes_lt_wordLimit (h.size_take _)),
      .inl (List.take_prefix _ _)⟩
  · have htold : Table.told v.data v.index =
        .ok (Table.slices v.data 0 (Table.borneOut v.data v.index)) :=
      Table.told_eq_ok_iff.mpr ⟨h.inOrder, rfl⟩
    exact ⟨_, htold, .inr (Table.isPrefix_told hword h.data hindex htold)⟩

/-- An append leaves no ends without entries. -/
theorem Covered.of_extendStage (h : v.Covered) (hn : n ≤ v.ends.length)
    (he : v.ExtendStage p n blob w) : w.Covered := by
  have hlen : (v.ends.take n).length = n := List.length_take_of_le hn
  have hkept : Table.entrySize * n ≤ v.index.length := Nat.le_trans (Nat.mul_le_mul_left _ hn) h
  cases he with
  | kept => exact h
  | part hpart =>
    rw [Covered, hlen]
    cases hpart with
    | untouched | data => exact hkept
    | index =>
      rw [List.length_append, Bytes.length_fit]
      exact Nat.le_add_right _ _
  | done =>
    rw [Covered, extended, List.length_append, List.length_append, hlen, Bytes.length_fit,
      littleEndian_length]
    exact Nat.le_of_eq (Nat.mul_succ _ _)

theorem ofBlobs_covered (blobs : List Blob) : (ofBlobs blobs).Covered :=
  Nat.le_of_eq (Table.length_indexOf _).symm

theorem Covered.truncated (h : v.Covered) (n : Nat) : (v.truncated n).Covered := by
  by_cases hn : v.ends.length < n
  · rwa [truncated_of_lt hn]
  · rw [truncated_of_le (Nat.le_of_not_lt hn), Covered, cut, Bytes.length_fit, List.length_take]
    exact Nat.mul_le_mul_left _ (Nat.min_le_left ..)

end TableImage

/-! ### On a disk -/

namespace Table

/-- A table that stands in a directory, on a device of this plan. -/
structure StandsOn (directory : String) (id : DirectoryId) (c : Category) (plan : FaultPlan)
    (p : Table × Disk) : Prop extends Stands directory id c p.1 p.2 where
  faults : p.2.faults = plan

section StandsOn

variable {directory : String} {id : DirectoryId} {c : Category} {plan : FaultPlan}
  {p : Table × Disk} {e : Edit} {edits : List Edit} {blobs : List Blob}

theorem StandsOn.of_moves (h : StandsOn directory id c plan p) {p' : Table × Disk}
    (hm : Moves p p') : StandsOn directory id c plan p' :=
  ⟨h.toStands.of_moves hm, hm.disk.faults.trans h.faults⟩

theorem StandsOn.alive (h : StandsOn directory id c plan p) (hr : plan.Reports) {d : Disk}
    (ht : p.1.Touches p.2 d) : ¬ d.Dead :=
  FaultPlan.Reports.not_dead ((ht.faults.trans h.faults).symm ▸ hr)

theorem StandsOn.serial (h : StandsOn directory id c plan p) (hr : plan.Reports) :
    p.2.faults.Serial := h.faults.symm ▸ hr.serial

/-- **What a change leaves**, whether it was done or not. -/
theorem StandsOn.leaves (h : StandsOn directory id c plan p) (hr : plan.Reports) (e : Edit) :
    StandsOn directory id c plan (after p e) ∧
      e.Leaves plan (p.1.image p.2) ((after p e).1.image (after p e).2) := by
  suffices hm : Moves p (after p e) ∧
      e.Leaves plan (p.1.image p.2) ((after p e).1.image (after p e).2) from
    ⟨h.of_moves hm.1, hm.2⟩
  have hs := h.serial hr
  have hf := h.faults
  obtain ⟨t, d⟩ := p
  cases e with
  | append n blob =>
    rw [after_append]
    by_cases hn : n ≤ t.items
    · have hends := append_ends h.wired hs hn blob
      rw [hf] at hends
      generalize append n blob (t, d) = r at hends ⊢
      cases hends with
      | done hd =>
        obtain ⟨hm, himage, accepted⟩ := hd
        refine ⟨hm, .extended hn (himage ▸ .done fun change hc => ?_)⟩
        exact accepted change (List.mem_append_left _ (List.mem_cons_of_mem _ hc))
      | failed hd => exact ⟨hd.1, .extended hn hd.2.1⟩
      | lost dead hd => exact absurd dead (h.alive hr hd.1)
    · rw [append_eq, if_pos (Nat.lt_of_not_le hn)]
      exact ⟨⟨rfl, .refl _ _⟩, .skipped _⟩
  | truncate n =>
    have hends := truncate_ends h.wired hs n
    rw [after_truncate]
    generalize truncate n (t, d) = r at hends ⊢
    cases hends with
    | done hd => exact ⟨hd.1, .cut (hd.2 ▸ TableImage.cutStage_truncated _ n)⟩
    | failed hd => exact ⟨hd.1, .cut hd.2.1⟩
    | lost dead hd => exact absurd dead (h.alive hr hd.1)

/-- A truncation that is done, and an append in any case, leave no ends without entries. -/
theorem StandsOn.covered (h : StandsOn directory id c plan p) (hr : plan.Reports)
    (hc : (p.1.image p.2).Covered) (ht : Truncates p e) :
    ((after p e).1.image (after p e).2).Covered := by
  cases e with
  | append n blob =>
    obtain ⟨-, hl⟩ := h.leaves hr (.append n blob)
    generalize (after p (.append n blob)).1.image _ = w at hl ⊢
    cases hl with
    | skipped => exact hc
    | extended hn he => exact hc.of_extendStage hn he
  | truncate n =>
    obtain ⟨p', hdone⟩ := ht n rfl
    have hends := truncate_ends h.wired (h.serial hr) n
    rw [after_truncate]
    rw [Edit.work] at hdone
    rw [hdone] at hends ⊢
    cases hends with
    | done hd => exact hd.2 ▸ hc.truncated n
    | lost dead hd => exact absurd dead (h.alive hr hd.1)

/-- Where files are cut without fail, no truncation fails of a table whose files agree with it. -/
theorem StandsOn.truncates (h : StandsOn directory id c plan p) (hr : plan.Reports)
    (ho : plan.Obliging) (ha : (p.1.image p.2).Agrees blobs) (hc : (p.1.image p.2).Covered)
    (e : Edit) : Truncates p e := by
  rintro n rfl
  have hends := truncate_ends h.wired (h.serial hr) n
  rw [Edit.work]
  generalize truncate n p = r at hends ⊢
  cases hends with
  | done hd => exact ⟨_, rfl⟩
  | failed hd =>
    obtain ⟨-, -, hn, change, hm, hrefused⟩ := hd
    have hb := ha.begins hn (Nat.le_trans (Nat.mul_le_mul_left _ hn) hc)
    rw [← ha.length_take hn] at hm
    rw [h.faults] at hrefused
    exact absurd hrefused (hb.not_refuses ho hm)
  | lost dead hd => exact absurd dead (h.alive hr hd.1)

theorem reaches_of_covered (hc : (p.1.image p.2).Covered) (e : Edit) : Reaches p e :=
  fun hn => Nat.le_trans (Nat.mul_le_mul_left _ hn) hc

/-! ### Runs of changes -/

/-- Whatever fails, the table in hand reads as a list of blobs. -/
theorem StandsOn.reads_afterAll (h : StandsOn directory id c plan p) (hr : plan.Reports)
    (hb : plan.Bounded) (ha : (p.1.image p.2).Reads blobs) (edits : List Edit) :
    StandsOn directory id c plan (afterAll p edits) ∧
      ∃ blobs', ((afterAll p edits).1.image (afterAll p edits).2).Reads blobs' := by
  have step : ∀ p e, (StandsOn directory id c plan p ∧ ∃ blobs, (p.1.image p.2).Reads blobs) →
      StandsOn directory id c plan (after p e) ∧
        ∃ blobs, ((after p e).1.image (after p e).2).Reads blobs := by
    rintro p e ⟨h, blobs, ha⟩
    obtain ⟨h', hl⟩ := h.leaves hr e
    exact ⟨h', ha.of_leaves hb hl⟩
  exact afterAll_induct step ⟨h, blobs, ha⟩ edits

/-- The files agree with the table in hand, as long as the index reaches as far as it is cut. -/
theorem StandsOn.agrees_afterAll (h : StandsOn directory id c plan p) (hr : plan.Reports)
    (hb : plan.Bounded) (ha : (p.1.image p.2).Agrees blobs) (hi : Throughout Reaches p edits) :
    StandsOn directory id c plan (afterAll p edits) ∧
      ∃ blobs', ((afterAll p edits).1.image (afterAll p edits).2).Agrees blobs' := by
  have step : ∀ p e, (StandsOn directory id c plan p ∧ ∃ blobs, (p.1.image p.2).Agrees blobs) →
      Reaches p e → True ∧ StandsOn directory id c plan (after p e) ∧
        ∃ blobs, ((after p e).1.image (after p e).2).Agrees blobs := by
    rintro p e ⟨h, blobs, ha⟩ hi
    obtain ⟨h', hl⟩ := h.leaves hr e
    exact ⟨trivial, h', ha.of_leaves hb hi hl⟩
  exact (hi.run (Q := fun _ _ => True) step ⟨h, blobs, ha⟩).2

/-- The index reaches as far as it is cut, as long as no truncation fails. -/
theorem StandsOn.reaches_of_truncates (h : StandsOn directory id c plan p) (hr : plan.Reports)
    (hc : (p.1.image p.2).Covered) (ht : Throughout Truncates p edits) :
    Throughout Reaches p edits := by
  have step : ∀ p e, (StandsOn directory id c plan p ∧ (p.1.image p.2).Covered) →
      Truncates p e → Reaches p e ∧ StandsOn directory id c plan (after p e) ∧
        ((after p e).1.image (after p e).2).Covered := by
    rintro p e ⟨h, hc⟩ ht
    exact ⟨reaches_of_covered hc e, (h.leaves hr e).1, h.covered hr hc ht⟩
  exact (ht.run step ⟨h, hc⟩).1

/-- No truncation fails, where files are cut without fail. -/
theorem StandsOn.truncates_of_obliging (h : StandsOn directory id c plan p) (hr : plan.Reports)
    (hb : plan.Bounded) (ho : plan.Obliging) (ha : (p.1.image p.2).Agrees blobs)
    (hc : (p.1.image p.2).Covered) (edits : List Edit) : Throughout Truncates p edits := by
  have step : ∀ p e, (StandsOn directory id c plan p ∧ (p.1.image p.2).Covered ∧
      ∃ blobs, (p.1.image p.2).Agrees blobs) → True → Truncates p e ∧
        StandsOn directory id c plan (after p e) ∧ ((after p e).1.image (after p e).2).Covered ∧
        ∃ blobs, ((after p e).1.image (after p e).2).Agrees blobs := by
    rintro p e ⟨h, hc, blobs, ha⟩ -
    obtain ⟨h', hl⟩ := h.leaves hr e
    have ht := h.truncates hr ho ha hc e
    exact ⟨ht, h', h.covered hr hc ht, ha.of_leaves hb (reaches_of_covered hc e) hl⟩
  have hall := throughout_of_forall (P := fun _ _ => True) (fun _ _ => trivial) p edits
  exact (hall.run step ⟨h, hc, blobs, ha⟩).1

end StandsOn

/-- **A table that goes on after failures.** Any changes are made of a table whose files match its
ends, on a device that reports its failures but may fail at any change, also after a part of a
write. What is read from the table in hand is then a list of blobs. If no index was cut to more than
it had, the table is opened again, and at the items that both have it has the same blobs as the
table in hand. That is so if no truncation failed, whatever appends did, and no truncation fails
where files are cut without fail. -/
theorem reopens_as_in_hand {directory : String} {id : DirectoryId} {c : Category} {t : Table}
    {d : Disk} (h : Stands directory id c t d) {blobs : List Blob}
    (himage : t.image d = .ofBlobs blobs) (hsize : blobBytes blobs ≤ Disk.greatestLength)
    (hr : d.faults.Reports) (hb : d.faults.Bounded) (edits : List Edit) :
    let left := afterAll (t, d) edits
    ∃ inHand, left.1.ReadsAs left.2 inHand ∧
      (Throughout Reaches (t, d) edits →
        ∃ t' d' found, openAt (Path.ofText directory) c left.2.restart = .ok t' d' ∧
          t'.ReadsAs d' found ∧ (found <+: inHand ∨ inHand <+: found)) ∧
      (Throughout Truncates (t, d) edits → Throughout Reaches (t, d) edits) ∧
      (d.faults.Obliging → Throughout Truncates (t, d) edits) := by
  intro left
  have hp : StandsOn directory id c d.faults (t, d) := ⟨h, rfl⟩
  have hagrees : (t.image d).Agrees blobs := himage ▸ TableImage.ofBlobs_agrees hsize
  have hcovered : (t.image d).Covered := himage ▸ TableImage.ofBlobs_covered blobs
  have htruncates : Throughout Truncates (t, d) edits → Throughout Reaches (t, d) edits :=
    hp.reaches_of_truncates hr hcovered
  have hobliging := fun ho => hp.truncates_of_obliging hr hb ho hagrees hcovered edits
  by_cases hreaches : Throughout Reaches (t, d) edits
  · obtain ⟨hleft, inHand, ha⟩ := hp.agrees_afterAll hr hb hagrees hreaches
    obtain ⟨found, htold, hsame⟩ := ha.told
    obtain ⟨t', d', hopened, hfound⟩ := hleft.reopens htold
    exact ⟨inHand, readsAs_of_begins ha.ends ha.data, fun _ => ⟨t', d', found, hopened,
      readsAs_of_image hfound, hsame⟩, htruncates, hobliging⟩
  · obtain ⟨-, inHand, ha⟩ := hp.reads_afterAll hr hb hagrees.toReads edits
    exact ⟨inHand, readsAs_of_begins ha.ends ha.data, fun h => absurd h hreaches, htruncates,
      hobliging⟩

/-- A new table on a full device: an append fails, and the same item is written with less. -/
theorem reopens_as_in_hand_when_full :
    ∃ (t : Table) (d : Disk), Stands "." 0 .hash t d ∧ t.image d = .ofBlobs [] ∧
      let left := afterAll (t, { d with faults := .capped 20 })
        [.append 0 [1, 1], .append 1 (List.replicate 30 2), .append 1 [3], .truncate 1]
      ∃ inHand t' d' found, left.1.ReadsAs left.2 inHand ∧
        openAt (Path.ofText ".") .hash left.2.restart = .ok t' d' ∧ t'.ReadsAs d' found ∧
        (found <+: inHand ∨ inHand <+: found) := by
  obtain ⟨t, d, -, hs, hi, -⟩ := stands_new FileArchive.vacant_emptyDisk
    FaultPlan.reports_reliable FaultPlan.obliging_reliable .hash
  obtain ⟨inHand, hreads, hreopens, hreaches, htruncates⟩ :=
    reopens_as_in_hand (hs.withFaults (.capped 20))
      (show t.image { d with faults := .capped 20 } = .ofBlobs [] from hi) (by decide)
      (FaultPlan.reports_capped 20) (FaultPlan.bounded_capped (by decide))
      [.append 0 [1, 1], .append 1 (List.replicate 30 2), .append 1 [3], .truncate 1]
  obtain ⟨t', d', found, hopened, hfound, hsame⟩ :=
    hreopens (hreaches (htruncates (FaultPlan.obliging_capped 20)))
  exact ⟨t, d, hs, hi, inHand, t', d', found, hreads, hopened, hfound, hsame⟩

/-- A new table after some changes, of which the device fails at one, by its number. -/
def afterFailing? (change : Nat) (edits : List Edit) : Option (Table × Disk) :=
  let plan : FaultPlan := fun i _ => if i = change then .fails 0 else .done
  (opened? { Disk.empty with faults := plan }).map fun p => afterAll p edits

/-- Why a table is not opened again. -/
def refusal? (p : Table × Disk) : Option StoreError :=
  match openAt (Path.ofText ".") .hash p.2.restart with
  | .ok _ _ => none
  | .error e _ => some e

/-- **A table makes itself unopenable.** The data are not cut when the second of two items is
dropped. The table has both still, and when it is cut to them, its index grows by an entry of zeros.
With one item, the entry of zeros stands for an empty one. -/
theorem index_grows_by_zeros :
    (afterFailing? 11 [.append 0 [1], .append 1 [2], .truncate 1, .truncate 2]).bind refusal? =
        some (.corrupted "hash index goes backwards at item 1") ∧
      let left := afterFailing? 7 [.append 0 [1], .truncate 0, .truncate 1]
      left.bind first? = some [1] ∧
        (left.bind fun p => opened? p.2.restart).bind first? = some [] := by
  decide +kernel

end Table

end ColdArchive
