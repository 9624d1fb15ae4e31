import ColdArchive.Proofs.Table.Changes

/-!
# Tables whose files begin with a list of blobs

Every image on the way of a change begins with the blobs that the change keeps, so that cutting it
to their number gives exactly the table of these blobs. An image in which no whole entry follows
holds them: that is what is found when the files are opened again.
-/

namespace ColdArchive

namespace TableImage

/-- The table begins with the blobs, in its files and in its ends. -/
structure Begins (v : TableImage) (blobs : List Blob) : Prop where
  ends : Table.endsOf blobs <+: v.ends
  data : blobs.flatten <+: v.data
  index : Table.indexOf (Table.endsOf blobs) <+: v.index

/-- The files hold the blobs, and no further item. -/
structure Holds (v : TableImage) (blobs : List Blob) : Prop where
  data : blobs.flatten <+: v.data
  index : Table.indexOf (Table.endsOf blobs) <+: v.index
  short : v.index.length < Table.entrySize * (blobs.length + 1)

theorem ofBlobs_begins {blobs blobs' : List Blob} (h : blobs <+: blobs') :
    (ofBlobs blobs').Begins blobs := by
  obtain ⟨rest, rfl⟩ := h
  have he : Table.endsOf blobs <+: Table.endsOf (blobs ++ rest) := by
    rw [Table.endsOf, Table.endsOf, Table.endsFrom_append]
    exact List.prefix_append _ _
  refine ⟨he, ?_, ?_⟩
  · rw [ofBlobs, List.flatten_append]
    exact List.prefix_append _ _
  · obtain ⟨ends, hr⟩ := he
    rw [ofBlobs, ← hr, Table.indexOf_append]
    exact List.prefix_append _ _

theorem Begins.take {v : TableImage} {blobs : List Blob} (h : v.Begins blobs) (n : Nat) :
    v.Begins (blobs.take n) := by
  have hb := ofBlobs_begins (List.take_prefix n blobs)
  exact ⟨hb.ends.trans h.ends, hb.data.trans h.data, hb.index.trans h.index⟩

theorem ofBlobs_holds (blobs : List Blob) : (ofBlobs blobs).Holds blobs := by
  refine ⟨List.prefix_rfl, List.prefix_rfl, ?_⟩
  rw [ofBlobs, Table.length_indexOf, Table.length_endsOf, Table.entrySize]
  omega

section Cut

variable {v w : TableImage} {blobs : List Blob}

theorem Begins.length_le (h : v.Begins blobs) : blobs.length ≤ v.ends.length := by
  have := h.ends.length_le
  rwa [Table.length_endsOf] at this

theorem Begins.take_ends (h : v.Begins blobs) : v.ends.take blobs.length = Table.endsOf blobs := by
  obtain ⟨rest, hr⟩ := h.ends
  rw [← hr, ← Table.length_endsOf blobs, List.take_left]

theorem Begins.startOf_eq (h : v.Begins blobs) :
    Table.startOf v.ends blobs.length = blobBytes blobs := by
  rw [← Table.startOf_take, h.take_ends, Table.startOf_endsOf_length]

theorem Begins.fit_data (h : v.Begins blobs) :
    v.data.fit (Table.startOf v.ends blobs.length) = blobs.flatten := by
  obtain ⟨rest, hr⟩ := h.data
  rw [h.startOf_eq, ← hr, ← Table.length_flatten, Bytes.fit_of_le (by simp), List.take_left]

theorem Begins.fit_index (h : v.Begins blobs) :
    v.index.fit (Table.entrySize * blobs.length) = Table.indexOf (Table.endsOf blobs) := by
  obtain ⟨rest, hr⟩ := h.index
  rw [← hr, ← Table.length_endsOf blobs, ← Table.length_indexOf, Bytes.fit_of_le (by simp),
    List.take_left]

/-- **A table that begins with some blobs is cut to them.** -/
theorem Begins.cut_eq (h : v.Begins blobs) : v.cut blobs.length = ofBlobs blobs := by
  rw [cut, h.take_ends, h.fit_data, h.fit_index, ofBlobs]

theorem Begins.truncated_eq (h : v.Begins blobs) : v.truncated blobs.length = ofBlobs blobs := by
  rw [truncated_of_le h.length_le, h.cut_eq]

theorem truncated_ofBlobs {n : Nat} (h : n ≤ blobs.length) :
    (ofBlobs blobs).truncated n = ofBlobs (blobs.take n) := by
  have hb := (ofBlobs_begins (List.take_prefix n blobs)).truncated_eq
  rwa [List.length_take, Nat.min_eq_left h] at hb

theorem Begins.extended_eq (h : v.Begins blobs) (blob : Blob) :
    v.extended blobs.length blob = ofBlobs (blobs ++ [blob]) := by
  simp only [extended, h.take_ends, h.fit_data, h.fit_index]
  rw [h.startOf_eq, ofBlobs, Table.endsOf_concat, Table.indexOf_concat, List.flatten_append,
    List.flatten_cons, List.flatten_nil, List.append_nil]

/-- Nothing has to grow to cut a table to blobs that it begins with. -/
theorem Begins.not_refuses (h : v.Begins blobs) {p : FaultPlan} (hp : p.Obliging) {change : Change}
    (hc : change ∈ v.cutChanges blobs.length) : ¬ p.Refuses change := by
  have hi := h.index.length_le
  have hd := h.data.length_le
  rw [Table.length_indexOf, Table.length_endsOf] at hi
  rw [Table.length_flatten] at hd
  rw [cutChanges, h.startOf_eq, List.mem_cons, List.mem_singleton] at hc
  rcases hc with rfl | rfl
  · exact FaultPlan.not_refuses_cut hp hi
  · exact FaultPlan.not_refuses_cut hp hd

theorem Begins.of_cutStage (h : v.Begins blobs) (hc : v.CutStage blobs.length w) :
    w.Begins blobs := by
  cases hc with
  | kept => exact h
  | index _ => exact ⟨h.ends, h.data, h.fit_index ▸ List.prefix_rfl⟩
  | done _ => rw [h.cut_eq]; exact ofBlobs_begins List.prefix_rfl

theorem Begins.of_extendStage (h : v.Begins blobs) {p : FaultPlan} {blob : Blob}
    (he : v.ExtendStage p blobs.length blob w) : w.Begins blobs := by
  have ends : Table.endsOf blobs <+: v.ends.take blobs.length := h.take_ends ▸ List.prefix_rfl
  have data : ∀ more, blobs.flatten <+: v.data.fit (Table.startOf v.ends blobs.length) ++ more :=
    fun more => h.fit_data ▸ List.prefix_append _ more
  cases he with
  | kept => exact h
  | part hp =>
    cases hp with
    | untouched => exact ⟨ends, h.data, h.index⟩
    | data stored => exact ⟨ends, data _, h.index⟩
    | index stored _ => exact ⟨ends, data _, h.fit_index ▸ List.prefix_append _ _⟩
  | done _ =>
    rw [h.extended_eq]
    exact ofBlobs_begins (List.prefix_append _ _)

theorem Begins.holds (h : v.Begins blobs)
    (hs : v.index.length < Table.entrySize * (blobs.length + 1)) : v.Holds blobs :=
  ⟨h.data, h.index, hs⟩

/-! ### What a broken off change leaves -/

/-- **An extension that was broken off leaves the old blobs or the new ones**, and the new ones
only where the device took all of the new blob. -/
theorem holds_of_extendStage {p : FaultPlan} {blob : Blob}
    (h : (ofBlobs blobs).ExtendStage p blobs.length blob w) :
    w.Holds blobs ∨ w.Holds (blobs ++ [blob]) ∧
      ∀ change ∈ Disk.writes (blobBytes blobs) blob, p.Accepts change := by
  have hb := ofBlobs_begins (List.prefix_rfl (l := blobs))
  have hw := hb.of_extendStage h
  have hnew := hb.extended_eq blob
  by_cases hs : w.index.length < Table.entrySize * (blobs.length + 1)
  · exact .inl (hw.holds hs)
  -- a whole entry was written, so that all of the blob was written before
  right
  rw [← hb.startOf_eq]
  cases h with
  | kept => exact absurd (ofBlobs_holds blobs).short hs
  | part hp =>
    cases hp with
    | untouched => exact absurd (ofBlobs_holds blobs).short hs
    | data stored => exact absurd (ofBlobs_holds blobs).short hs
    | index stored accepted =>
      simp only [extended] at hnew
      have hl : (littleEndian (Table.startOf (ofBlobs blobs).ends blobs.length
          + blob.length)).length ≤ stored := by
        refine Nat.le_of_not_lt fun hlt => hs ?_
        rw [List.length_append, Bytes.length_fit, List.length_take, Nat.min_eq_left (by omega)]
        rw [littleEndian_length] at hlt
        rw [Table.entrySize]
        omega
      rw [List.take_of_length_le hl]
      have := ofBlobs_holds (blobs ++ [blob])
      rw [← hnew] at this
      exact ⟨⟨this.data, this.index, this.short⟩, accepted⟩
  | done accepted =>
    rw [hnew]
    exact ⟨ofBlobs_holds _, accepted⟩

/-- **The files on the way of an extension of a table that begins with the blobs**: as they were,
the index as it was and the data cut or new, or as on the way of an extension of exactly these
blobs. -/
theorem Begins.extendStage_cases (h : v.Begins blobs) {p : FaultPlan} {blob : Blob}
    (he : v.ExtendStage p blobs.length blob w) :
    w = v ∨
      (w.ends = Table.endsOf blobs ∧ w.index = v.index ∧
        (w.data = v.data ∨ ∃ k, w.data = blobs.flatten ++ blob.take k)) ∨
      (ofBlobs blobs).ExtendStage p blobs.length blob w := by
  have hb := ofBlobs_begins (List.prefix_rfl (l := blobs))
  have hends := h.take_ends.trans hb.take_ends.symm
  have hstart := h.startOf_eq.trans hb.startOf_eq.symm
  have hdata := h.fit_data.trans hb.fit_data.symm
  have hindex := h.fit_index.trans hb.fit_index.symm
  cases he with
  | kept => exact .inl rfl
  | part hp =>
    cases hp with
    | untouched => exact .inr (.inl ⟨h.take_ends, rfl, .inl rfl⟩)
    | data k => exact .inr (.inl ⟨h.take_ends, rfl, .inr ⟨k, by rw [h.fit_data]⟩⟩)
    | index k accepted =>
      rw [hstart] at accepted
      rw [hends, hdata, hindex, hstart]
      exact .inr (.inr (.part (.index k accepted)))
  | done accepted =>
    rw [hstart] at accepted
    rw [h.extended_eq, ← hb.extended_eq]
    exact .inr (.inr (.done accepted))

/-- **A cut that was broken off leaves all blobs or those it keeps.** -/
theorem holds_of_cutStage {n : Nat} (h : (ofBlobs blobs).CutStage n w) :
    w.Holds blobs ∨ w.Holds (blobs.take n) := by
  have key : n ≤ (ofBlobs blobs).ends.length → (blobs.take n).length = n := by
    intro hn
    rw [ofBlobs, Table.length_endsOf] at hn
    exact List.length_take_of_le hn
  have hb := ofBlobs_begins (List.take_prefix n blobs)
  cases h with
  | kept => exact .inl (ofBlobs_holds blobs)
  | index hn =>
    have hi := hb.fit_index
    rw [key hn] at hi
    refine .inr ⟨hb.data, hi ▸ List.prefix_rfl, ?_⟩
    rw [Bytes.length_fit, key hn, Table.entrySize]
    omega
  | done hn =>
    have hc := hb.cut_eq
    rw [key hn] at hc
    rw [hc]
    exact .inr (ofBlobs_holds _)

/-- A cut back to the blobs leaves them, even where more had been written. -/
theorem Begins.holds_of_cutStage {blobs' : List Blob} (h : v.Begins blobs) (hv : v.Holds blobs')
    (hc : v.CutStage blobs.length w) : w.Holds blobs' ∨ w.Holds blobs := by
  have hw := h.of_cutStage hc
  cases hc with
  | kept => exact .inl hv
  | index _ =>
    refine .inr (hw.holds ?_)
    rw [Bytes.length_fit, Table.entrySize]
    omega
  | done _ =>
    rw [h.cut_eq]
    exact .inr (ofBlobs_holds _)

/-- **An append that was broken off leaves the old blobs or the new ones**, also while it is taken
back. -/
theorem holds_of_rollbackStage {p : FaultPlan} (hp : p.Bounded)
    (hl : blobBytes blobs ≤ Disk.greatestLength) {blob : Blob}
    (h : (ofBlobs blobs).RollbackStage p blobs.length blob w) :
    w.Holds blobs ∨
      w.Holds (blobs ++ [blob]) ∧ blobBytes (blobs ++ [blob]) ≤ Disk.greatestLength := by
  obtain ⟨u, hu, hw⟩ := h
  have hb := (ofBlobs_begins (List.prefix_rfl (l := blobs))).of_extendStage hu
  rcases holds_of_extendStage hu with hold | ⟨hnew, accepted⟩
  · rcases hb.holds_of_cutStage hold hw with h | h <;> exact .inl h
  · rcases hb.holds_of_cutStage hnew hw with h | h
    · refine .inr ⟨h, ?_⟩
      rw [Table.blobBytes_append]
      exact Disk.le_of_accepts hp accepted hl
    · exact .inl h

end Cut

end TableImage

/-! ### Reading an item -/

theorem Disk.readAt_eq (id : FileId) (offset count : Nat) (d : Disk) :
    Disk.readAt id offset count d =
      if (((d.bytes id).drop offset).take count).length = count then
        .ok (((d.bytes id).drop offset).take count) d
      else .error (.io .endOfData) d := by
  have hb : (((d.content id).drop offset).take count).toBytes
      = ((d.bytes id).drop offset).take count := by
    rw [Content.toBytes_take, Content.toBytes_drop]
    rfl
  have hl : (((d.content id).drop offset).take count).length
      = (((d.bytes id).drop offset).take count).length := by
    rw [← hb, Content.length_toBytes]
  rw [← hl, ← hb]
  rfl

/-- The bytes of an item in data that begin with the blobs. -/
theorem Table.drop_take_data {data : Bytes} {blobs : List Blob} (hd : blobs.flatten <+: data)
    {n : Nat} {b : Blob} (hb : blobs[n]? = some b) :
    (data.drop (blobBytes (blobs.take n))).take b.length = b := by
  obtain ⟨more, rfl⟩ := hd
  have hlen := blobBytes_take_le (n + 1) blobs
  rw [blobBytes_take_succ hb] at hlen
  rw [List.drop_append_of_le_length (by rw [length_flatten]; omega),
    List.take_append_of_le_length (by rw [List.length_drop, length_flatten]; omega)]
  exact drop_take_flatten hb

/-- **An item is read back** from data that begin with the blobs. -/
theorem Table.retrieve_blob {t : Table} {d : Disk} {blobs : List Blob}
    (he : t.ends = endsOf blobs) (hd : blobs.flatten <+: d.bytes t.data) {n : Nat} {b : Blob}
    (hb : blobs[n]? = some b) : t.retrieve n d = .ok (some b) d := by
  obtain ⟨hn, -⟩ := List.getElem?_eq_some_iff.mp hb
  have hread := drop_take_data hd hb
  simp only [retrieve, he, getElem?_endsOf hn, bind_apply, startOf_endsOf (Nat.le_of_lt hn),
    blobBytes_take_succ hb, Nat.add_sub_cancel_left, Disk.readAt_eq, hread, if_true, pure_apply]

end ColdArchive
