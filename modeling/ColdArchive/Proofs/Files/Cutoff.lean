import ColdArchive.Proofs.Files.OneTable

/-!
# A table after an append that was cut off

An append cuts and writes the data before it touches the index. If it is cut off in between, the
entries of the items that it was to replace are still there, and what was written of the new blob
stands under them: a table that is opened again has pieces of the new blob for its items (`carve`).
An append behind the last item has no such entries to meet, and there the old blobs are found or all
of the new ones.
-/

namespace ColdArchive

/-! ### Pieces -/

/-- The pieces of the lengths of some blobs, as long as the bytes last. -/
def carve : List Blob → Bytes → List Blob
  | [], _ => []
  | b :: bs, data =>
    if b.length ≤ data.length then data.take b.length :: carve bs (data.drop b.length) else []

namespace Table

/-- Bytes under the entries of blobs are cut into pieces of the lengths of these blobs. -/
theorem slices_endsFrom_eq_carve {data : Bytes} {start : Nat} (h : start ≤ data.length)
    (blobs : List Blob) :
    slices data start ((endsFrom start blobs).takeWhile fun e => decide (e ≤ data.length)) =
      carve blobs (data.drop start) := by
  induction blobs generalizing start with
  | nil => rfl
  | cons b bs ih =>
    have hlen : (data.drop start).length = data.length - start := List.length_drop
    rw [endsFrom, carve]
    by_cases hb : start + b.length ≤ data.length
    · have hfits : b.length ≤ (data.drop start).length := by omega
      rw [List.takeWhile_cons_of_pos (by simpa using hb), slices, if_pos hfits, ih hb,
        Nat.add_sub_cancel_left, List.drop_drop]
    · have hlong : ¬ b.length ≤ (data.drop start).length := by omega
      rw [List.takeWhile_cons_of_neg (by simpa using hb), if_neg hlong, slices]

/-- **What an old index tells of new data**: the first blobs, and pieces of what stands behind them.
-/
theorem told_of_old_index {blobs : List Blob} (hsize : blobBytes blobs < wordLimit) (n : Nat)
    (piece : Bytes) :
    told ((blobs.take n).flatten ++ piece) (indexOf (endsOf blobs)) =
      .ok (blobs.take n ++ carve (blobs.drop n) piece) := by
  have hword : ∀ e ∈ endsOf blobs, e < wordLimit := fun e he =>
    Nat.lt_of_le_of_lt (le_of_mem_endsOf he) hsize
  have hentries : entries (indexOf (endsOf blobs)) = endsOf blobs := by
    have h : entries (indexOf (endsOf blobs) ++ []) = endsOf blobs :=
      entries_indexOf hword (by decide)
    rwa [List.append_nil] at h
  have hlen : ((blobs.take n).flatten ++ piece).length =
      blobBytes (blobs.take n) + piece.length := by rw [List.length_append, length_flatten]
  -- the entries of the first blobs and of those that follow
  have hsplit : endsOf blobs =
      endsOf (blobs.take n) ++ endsFrom (blobBytes (blobs.take n)) (blobs.drop n) := by
    conv => lhs; rw [← List.take_append_drop n blobs]
    rw [endsOf, endsFrom_append, Nat.zero_add]
    rfl
  have hreach : ∀ e ∈ endsOf (blobs.take n),
      decide (e ≤ ((blobs.take n).flatten ++ piece).length) = true := by
    intro e he
    have hle := le_of_mem_endsOf he
    exact decide_eq_true (by omega)
  refine told_eq_ok_iff.mpr ⟨by rw [hentries]; exact firstDrop?_endsFrom 0 0 blobs, ?_⟩
  rw [borneOut, hentries, hsplit, List.takeWhile_append_of_pos hreach, endsOf,
    slices_endsFrom_append 0 _ (blobs.take n) _ (List.prefix_append _ _), Nat.zero_add,
    slices_endsFrom_eq_carve (by omega), ← length_flatten, List.drop_left]

end Table

namespace TableImage

variable {blobs : List Blob} {n : Nat} {blob : Blob} {p : FaultPlan} {w : TableImage}

/-- What may be found after an append was cut off. -/
inductive Leftover (blobs : List Blob) (n : Nat) (blob : Blob) : List Blob → Prop where
  | old : Leftover blobs n blob blobs
  | kept : Leftover blobs n blob (blobs.take n)
  | all : Leftover blobs n blob (blobs.take n ++ [blob])
  /-- Something of the new blob stands under the old entries. -/
  | pieces (k : Nat) : Leftover blobs n blob (blobs.take n ++ carve (blobs.drop n) (blob.take k))

theorem Leftover.prefix_take {found : List Blob} (h : Leftover blobs n blob found) :
    blobs.take n <+: found := by
  cases h with
  | old => exact List.take_prefix n blobs
  | kept => exact List.prefix_rfl
  | all | pieces => exact List.prefix_append _ _

/-- Behind the last item there are no old entries. -/
theorem Leftover.of_length {found : List Blob} (h : Leftover blobs n blob found)
    (hn : n = blobs.length) : found = blobs ∨ found = blobs ++ [blob] := by
  subst hn
  cases h with
  | old => exact .inl rfl
  | kept => exact .inl List.take_length
  | all => exact .inr (by rw [List.take_length])
  | pieces k => exact .inl (by rw [List.take_length, List.drop_length, carve, List.append_nil])

/-- **What the files on the way of an append tell.** -/
theorem told_of_extendStage (hn : n ≤ blobs.length) (hp : p.Bounded)
    (hsize : blobBytes blobs ≤ Disk.greatestLength)
    (h : (ofBlobs blobs).ExtendStage p n blob w) :
    ∃ found, Leftover blobs n blob found ∧ Table.told w.data w.index = .ok found := by
  have hword := Table.blobBytes_lt_wordLimit hsize
  have htake := Nat.le_trans (Table.blobBytes_take_le n blobs) hsize
  have hlen : (blobs.take n).length = n := List.length_take_of_le hn
  have hbegins := ofBlobs_begins (List.take_prefix n blobs)
  have hold := (ofBlobs_holds blobs).told_eq hword
  rcases hbegins.extendStage_cases (hlen.symm ▸ h) with
    rfl | ⟨-, hindex, hdata | ⟨k, hdata⟩⟩ | hstage
  · exact ⟨blobs, .old, hold⟩
  · exact ⟨blobs, .old, by rw [hdata, hindex, hold]⟩
  · exact ⟨_, .pieces k, by rw [hdata, hindex]; exact Table.told_of_old_index hword n _⟩
  · rcases holds_of_extendStage hstage with hkept | ⟨hall, accepted⟩
    · exact ⟨_, .kept, hkept.told_eq (Table.blobBytes_lt_wordLimit htake)⟩
    · have hle := Disk.le_of_accepts hp accepted htake
      refine ⟨_, .all, hall.told_eq (Table.blobBytes_lt_wordLimit ?_)⟩
      rwa [Table.blobBytes_append]

end TableImage

/-! ### On a disk -/

namespace Table

section Stands

variable {directory : String} {id : DirectoryId} {c : Category} {t : Table} {d d' : Disk}

/-- **What an append leaves in the files**, however it ends. -/
theorem append_leaves (hw : t.Wired d) (hs : d.faults.Serial) {n : Nat} (hn : n ≤ t.items)
    (blob : Blob) :
    t.Touches d (finalState (append n blob (t, d))).2 ∧
      ∃ v, (t.image d).ExtendStage d.faults n blob v ∧
        t.HasFiles (finalState (append n blob (t, d))).2 v := by
  have hends := append_ends hw hs hn blob
  generalize append n blob (t, d) = r at hends
  have files : ∀ p : Table × Disk, Moves (t, d) p → t.HasFiles p.2 (p.1.image p.2) := by
    rintro ⟨t', d'⟩ hm
    have hwiring : t' = { t with ends := t'.ends } := hm.wiring
    rw [hwiring]
    exact ⟨rfl, rfl⟩
  cases hends with
  | @done _ p h =>
    obtain ⟨hm, himage, accepted⟩ := h
    have hstage : (t.image d).ExtendStage d.faults n blob (p.1.image p.2) := himage ▸
      .done fun change hc => accepted change (List.mem_append_left _ (List.mem_cons_of_mem _ hc))
    exact ⟨hm.disk, _, hstage, files p hm⟩
  | failed h => exact ⟨h.1.disk, _, h.2.1, files _ h.1⟩
  | lost _ h => exact h

/-- **An append that is cut off** at any change, within a write or between two changes, of any table
whose files match its ends, on a device that may fail as it likes. The table is opened again, and
the items below the one that was written are as they were. From there on it has the old items, or
none, or the new blob alone, or else pieces of the new blob of the lengths of the old items, as far
as the part of it goes that was written. An append behind the last item leaves the old items or
these and all of the new blob. -/
theorem append_cut_off (h : Stands directory id c t d) {blobs : List Blob}
    (himage : t.image d = .ofBlobs blobs) (hsize : blobBytes blobs ≤ Disk.greatestLength)
    {plan : FaultPlan} (hr : plan.Reports) (hb : plan.Bounded) {n : Nat} (hn : n ≤ blobs.length)
    (blob : Blob) (i stored : Nat) :
    let cut : Disk := { d with faults := plan.cutAt i stored }
    let left : Disk := (finalState (append n blob (t, cut))).2.restart
    ∃ t' d' found, openAt (Path.ofText directory) c left = .ok t' d' ∧
      t'.image d' = .ofBlobs found ∧ blobs.take n <+: found ∧
      TableImage.Leftover blobs n blob found ∧
      (n = blobs.length → found = blobs ∨ found = blobs ++ [blob]) := by
  intro cut left
  have hcut : Stands directory id c t cut := h.withFaults _
  have hs : cut.faults.Serial := FaultPlan.serial_cutAt hr i stored
  have hitems : n ≤ t.items := by
    have hlen := congrArg (fun v => v.ends.length) himage
    exact Nat.le_trans hn (Nat.le_of_eq (hlen.trans (length_endsOf blobs)).symm)
  obtain ⟨ht, v, hstage, hdata, hindex⟩ := append_leaves hcut.wired hs hitems blob
  have hfiles : t.image cut = .ofBlobs blobs := himage
  rw [hfiles] at hstage
  obtain ⟨found, hleft, htold⟩ :=
    TableImage.told_of_extendStage hn (FaultPlan.bounded_cutAt hb i stored) hsize hstage
  rw [← hdata, ← hindex] at htold
  obtain ⟨t', d', hopened, hfound⟩ := (hcut.of_touches ht).reopens htold
  exact ⟨t', d', found, hopened, hfound, hleft.prefix_take, hleft, hleft.of_length⟩

end Stands

/-- The power goes within the entry of an item that was to follow another one. -/
theorem append_cut_off_in_entry :
    ∃ (t : Table) (d : Disk), Stands "." 0 .hash t d ∧ t.image d = .ofBlobs [[1, 1]] ∧
      let cut : Disk :=
        { d with faults := (FaultPlan.capped Disk.greatestLength).cutAt (d.changes + 3) 4 }
      let left : Disk := (finalState (append 1 [2, 2, 2] (t, cut))).2.restart
      ∃ t' d' found, openAt (Path.ofText ".") .hash left = .ok t' d' ∧
        t'.image d' = .ofBlobs found ∧ (found = [[1, 1]] ∨ found = [[1, 1], [2, 2, 2]]) := by
  obtain ⟨t, d, -, hs, hi, hf⟩ := stands_new FileArchive.vacant_emptyDisk FaultPlan.reports_reliable
    FaultPlan.obliging_reliable .hash
  obtain ⟨t₁, d₁, -, hs₁, hi₁, -⟩ := hs.append_reliable hi hf [1, 1]
  obtain ⟨t', d', found, hopened, hfound, -, -, hends⟩ :=
    append_cut_off hs₁ (show t₁.image d₁ = .ofBlobs [[1, 1]] from hi₁) (by decide)
      (FaultPlan.reports_capped _) (FaultPlan.bounded_capped (Nat.le_refl Disk.greatestLength))
      (n := 1) (by decide) [2, 2, 2] (d₁.changes + 3) 4
  exact ⟨t₁, d₁, hs₁, hi₁, t', d', found, hopened, hfound, hends rfl⟩

/-- A new table with one item of two bytes. -/
def ofPair? : Option (Table × Disk) :=
  (opened? .empty).map fun p => finalState (append 0 [1, 1] p)

/-- What is found as its item when the power goes so many changes after three bytes were to take its
place. -/
def foundAfter? (changes : Nat) : Option Blob := do
  let (t, d) ← ofPair?
  let cut : Disk := { d with faults := FaultPlan.reliable.cutAt (d.changes + changes) 0 }
  first? (← opened? (finalState (append 0 [2, 2, 2] (t, cut))).2.restart)

/-- **A half of an append is found as an item.** The files of the table match its ends. The power
goes after the data were written and before the index is cut, and the first two of the three new
bytes are found in place of the old item. -/
theorem half_of_append_found :
    ofPair?.map (fun p => p.1.image p.2) = some (.ofBlobs [[1, 1]]) ∧
      foundAfter? 2 = some [2, 2] := by
  decide +kernel

end Table

end ColdArchive
