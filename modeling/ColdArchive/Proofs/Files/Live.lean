import ColdArchive.Proofs.Files.Recovery

/-!
# No mixed record on a live archive

Any change may fail, those of a rollback as well, so that tables of different lengths are left with
blobs above the frozen count, and a repair may commit some of them again. What stays true is that
the blobs of one number, where every table has one, come from one record: an append that failed
leaves at least one table without a blob at its number.
-/

namespace ColdArchive

namespace TableImage

/-- The table in hand is that of the blobs, and its data begin with them. -/
structure Sound (v : TableImage) (blobs : List Blob) : Prop where
  ends : v.ends = Table.endsOf blobs
  data : blobs.flatten <+: v.data

section Sound

variable {v w : TableImage} {blobs : List Blob} {n : Nat}

theorem Sound.length (h : v.Sound blobs) : v.ends.length = blobs.length := by
  rw [h.ends, Table.length_endsOf]

theorem Sound.fit_data (h : v.Sound blobs) (hn : n ≤ blobs.length) :
    v.data.fit (Table.startOf v.ends n) = (blobs.take n).flatten := by
  obtain ⟨rest, hr⟩ := h.data
  have hle := Table.blobBytes_take_le n blobs
  rw [h.ends, Table.startOf_endsOf hn, ← hr, Bytes.fit_of_le, List.take_append_of_le_length,
    Table.take_flatten]
  · rw [Table.length_flatten]
    exact hle
  · rw [List.length_append, Table.length_flatten]
    omega

theorem Sound.take_ends (h : v.Sound blobs) : v.ends.take n = Table.endsOf (blobs.take n) := by
  rw [h.ends, Table.take_endsOf]

/-- A cut that fails or is done leaves some of the blobs, and those it is to keep. -/
theorem Sound.of_cutStage (h : v.Sound blobs) (hc : v.CutStage n w) :
    ∃ blobs', blobs' <+: blobs ∧ w.Sound blobs' ∧ (n ≤ blobs.length → n ≤ blobs'.length) := by
  cases hc with
  | kept => exact ⟨blobs, List.prefix_rfl, h, id⟩
  | index _ => exact ⟨blobs, List.prefix_rfl, ⟨h.ends, h.data⟩, id⟩
  | done hn =>
    rw [h.length] at hn
    have hlen : (blobs.take n).length = n := List.length_take_of_le hn
    have hdata : (v.cut n).data = (blobs.take n).flatten := h.fit_data hn
    exact ⟨blobs.take n, List.take_prefix _ _, ⟨h.take_ends, hdata ▸ List.prefix_rfl⟩,
      fun _ => Nat.le_of_eq hlen.symm⟩

/-- A table that got a blob has the blobs before it and this one. -/
theorem Sound.extended (h : v.Sound blobs) (hn : n ≤ blobs.length) (blob : Blob) :
    (v.extended n blob).Sound (blobs.take n ++ [blob]) := by
  have hs : Table.startOf v.ends n = blobBytes (blobs.take n) := by
    rw [h.ends, Table.startOf_endsOf hn]
  have hdata : (v.extended n blob).data = (blobs.take n ++ [blob]).flatten := by
    rw [TableImage.extended, h.fit_data hn, List.flatten_append, List.flatten_cons,
      List.flatten_nil, List.append_nil]
  refine ⟨?_, hdata ▸ List.prefix_rfl⟩
  rw [TableImage.extended, Table.endsOf_concat, ← h.take_ends, hs]

/-- An extension that fails or is done leaves the blobs below its number. -/
theorem Sound.of_extendStage (h : v.Sound blobs) (hn : n ≤ blobs.length) {p : FaultPlan}
    {blob : Blob} (he : v.ExtendStage p n blob w) :
    ∃ blobs', w.Sound blobs' ∧ blobs'.take n = blobs.take n ∧ n ≤ blobs'.length := by
  have hlen : (blobs.take n).length = n := List.length_take_of_le hn
  have kept : (blobs.take n).take n = blobs.take n := by rw [List.take_take, Nat.min_self]
  have hdata : ∀ more, (blobs.take n).flatten <+: v.data.fit (Table.startOf v.ends n) ++ more :=
    fun more => h.fit_data hn ▸ List.prefix_append _ more
  cases he with
  | kept => exact ⟨blobs, h, rfl, hn⟩
  | part hp =>
    refine ⟨blobs.take n, ⟨h.take_ends, ?_⟩, kept, Nat.le_of_eq hlen.symm⟩
    cases hp with
    | untouched =>
      obtain ⟨rest, hr⟩ := h.data
      rw [← hr, ← Table.take_flatten n blobs]
      exact (List.take_prefix _ _).trans (List.prefix_append _ _)
    | data stored => exact hdata _
    | index stored _ => exact hdata _
  | done _ =>
    refine ⟨_, h.extended hn blob, ?_, ?_⟩
    · rw [List.take_append_of_le_length (Nat.le_of_eq hlen.symm), kept]
    · rw [List.length_append, hlen]
      omega

end Sound

end TableImage

/-- Every table has blobs of its own, the committed ones among them, and where every table has a
blob, the five come from one appended record. -/
structure FileState.Genuine (appended : Nat → Record → Prop) (s : FileState)
    (blobs : ByCategory (List Blob)) : Prop where
  sound : ∀ c, (s.image c).Sound (blobs.get c)
  frozen : ∀ c, s.frozen ≤ (blobs.get c).length
  whole : ∀ n, (∀ c, n < (blobs.get c).length) →
    ∃ record, appended n record ∧ ∀ c, (blobs.get c)[n]? = some (record.get c)

namespace FileState

variable {appended appended' : Nat → Record → Prop} {s s' : FileState}
  {blobs blobs' : ByCategory (List Blob)}

theorem Genuine.mono (h : s.Genuine appended blobs)
    (ha : ∀ n record, appended n record → appended' n record) : s.Genuine appended' blobs := by
  refine ⟨h.sound, h.frozen, ?_⟩
  intro n hn
  obtain ⟨record, hrec, hb⟩ := h.whole n hn
  exact ⟨record, ha n record hrec, hb⟩

/-- Whole records stay whole if the blobs that are left are the old ones. -/
theorem Genuine.of_subset (h : s.Genuine appended blobs)
    (hsound : ∀ c, (s'.image c).Sound (blobs'.get c)) (hz : ∀ c, s'.frozen ≤ (blobs'.get c).length)
    (hold : ∀ n, (∀ c, n < (blobs'.get c).length) →
      ∀ c, n < (blobs.get c).length ∧ (blobs'.get c)[n]? = (blobs.get c)[n]?) :
    s'.Genuine appended blobs' := by
  refine ⟨hsound, hz, ?_⟩
  intro n hn
  obtain ⟨record, ha, hr⟩ := h.whole n fun c => (hold n hn c).1
  exact ⟨record, ha, fun c => (hold n hn c).2.trans (hr c)⟩

/-- **A cut keeps records whole**, whether it fails or not. -/
theorem Genuine.cutTables (h : s.Genuine appended blobs) (hw : s.Wired)
    (hr : s.disk.faults.Reports) {n : Nat} (hn : s.frozen ≤ n)
    (hlen : ∀ c, n ≤ (blobs.get c).length) (cs : List Category) :
    s.Follows (finalState (FileM.cutTables n cs s)) ∧
      ∃ blobs', (finalState (FileM.cutTables n cs s)).Genuine appended blobs' := by
  obtain ⟨hf, hz, hs⟩ := FileM.cutTables_stages hw hr n cs
  obtain ⟨blobs', hb⟩ := ByCategory.exists_forall fun c => (h.sound c).of_cutStage (hs c)
  refine ⟨hf, blobs', h.of_subset (fun c => (hb c).2.1) ?_ ?_⟩
  · intro c
    rw [hz]
    have := (hb c).2.2 (hlen c)
    omega
  · intro m hm c
    obtain ⟨rest, hrest⟩ := (hb c).1
    have hlt := hm c
    rw [← hrest, List.getElem?_append_left hlt, List.length_append]
    exact ⟨by omega, rfl⟩

/-- A record whose blobs all tables got is whole at the number behind the committed ones. -/
theorem Genuine.written (h : s.Genuine appended blobs) {record : Record}
    (hw : FileM.Written s s.frozen record Category.all s') :
    Genuine (fun n r => appended n r ∨ n = s.frozen ∧ r = record)
      { s' with frozen := s.frozen + 1 }
      (ByCategory.ofFn fun c => (blobs.get c).take s.frozen ++ [record.get c]) := by
  have htake : ∀ c, ((blobs.get c).take s.frozen).length = s.frozen := by
    intro c
    exact List.length_take_of_le (h.frozen c)
  refine ⟨?_, ?_, ?_⟩
  · intro c
    have hi := hw.image c
    rw [if_pos (Category.mem_all c)] at hi
    rw [ByCategory.get_ofFn]
    have hs := (h.sound c).extended (h.frozen c) (record.get c)
    rw [← hi] at hs
    exact hs
  · intro c
    rw [ByCategory.get_ofFn, List.length_append, htake]
    exact Nat.le_refl _
  · intro n hn
    by_cases hlt : n < s.frozen
    · -- a number below the new one has the record that it had
      obtain ⟨old, ha, hold⟩ := h.whole n fun c => Nat.lt_of_lt_of_le hlt (h.frozen c)
      refine ⟨old, .inl ha, ?_⟩
      intro c
      rw [ByCategory.get_ofFn, List.getElem?_append_left (by rw [htake c]; exact hlt),
        List.getElem?_take_of_lt hlt, hold c]
    · have hn := hn .hash
      rw [ByCategory.get_ofFn, List.length_append, htake, List.length_singleton] at hn
      obtain rfl : n = s.frozen := by omega
      refine ⟨record, .inr ⟨rfl, rfl⟩, ?_⟩
      intro c
      rw [ByCategory.get_ofFn, List.getElem?_append_right (Nat.le_of_eq (htake c)), htake c,
        Nat.sub_self]
      rfl

/-- Where the writing of a record stopped, some table is left without a blob at its number, so that
there are no more whole records than before. -/
theorem Genuine.stopped (h : s.Genuine appended blobs) {record : Record} {cs : List Category}
    (hs : FileM.Stopped s s.frozen record cs s') :
    ∃ blobs', s'.Genuine appended blobs' ∧ ∀ c, s.frozen ≤ (blobs'.get c).length := by
  obtain ⟨blobs', hb⟩ := ByCategory.exists_forall fun c =>
    (h.sound c).of_extendStage (h.frozen c) (hs.stage c)
  -- no number at or above that of the append has all five blobs
  have below : ∀ n, (∀ c, n < (blobs'.get c).length) → n < s.frozen := by
    intro n hn
    obtain ⟨c, hc⟩ := hs.short
    rw [(hb c).1.length] at hc
    have := hn c
    omega
  refine ⟨blobs', h.of_subset (fun c => (hb c).1) ?_ ?_, fun c => (hb c).2.2⟩
  · intro c
    rw [hs.frozen]
    exact (hb c).2.2
  · intro n hn c
    have hlt := below n hn
    have hz := h.frozen c
    refine ⟨by omega, ?_⟩
    rw [← List.getElem?_take_of_lt hlt, (hb c).2.1, List.getElem?_take_of_lt hlt]

/-- **An append keeps records whole**, whether it fails or not. -/
theorem Genuine.append (h : s.Genuine appended blobs) (hw : s.Wired) (hr : s.disk.faults.Reports)
    (record : Record) :
    s.Follows (finalState (FileM.append s.frozen record s)) ∧
      ∃ blobs', (finalState (FileM.append s.frozen record s)).Genuine
        (fun n r => appended n r ∨ n = s.frozen ∧ r = record) blobs' := by
  have hlen : ∀ c, s.frozen ≤ (s.image c).ends.length := by
    intro c
    rw [(h.sound c).length]
    exact h.frozen c
  have he := FileM.append_ends hw hr.serial hlen record
  generalize FileM.append s.frozen record s = r at he
  cases he with
  | done he =>
    obtain ⟨s₁, hs₁, hs'⟩ := he
    rw [finalState, hs']
    exact ⟨⟨hs₁.wiring, hs₁.disk⟩, _, h.written hs₁⟩
  | failed he =>
    obtain ⟨cs, s₁, hs₁, hs'⟩ := he
    rw [finalState, hs']
    obtain ⟨blobs₁, h₁, hlen₁⟩ := h.stopped hs₁
    obtain ⟨hf, blobs₂, h₂⟩ := h₁.cutTables (hw.of_follows hs₁.toFollows)
      (hs₁.disk.faults ▸ hr) (Nat.le_of_eq hs₁.frozen) hlen₁ cs
    exact ⟨hs₁.toFollows.trans hf, blobs₂, h₂.mono fun _ _ => .inl⟩
  | lost dead he => exact absurd dead (FaultPlan.Reports.not_dead (he.disk.faults ▸ hr))

/-- What is committed may be less, if every table has as much. -/
theorem Genuine.withFrozen (h : s.Genuine appended blobs) {n : Nat}
    (hn : ∀ c, n ≤ (blobs.get c).length) : Genuine appended { s with frozen := n } blobs :=
  ⟨h.sound, hn, h.whole⟩

/-- **A truncation keeps records whole**, whether it fails or not. -/
theorem Genuine.truncate (h : s.Genuine appended blobs) (hw : s.Wired)
    (hr : s.disk.faults.Reports) {target : Nat} (ht : target ≤ s.frozen) :
    s.Follows (finalState (FileM.truncate target s)) ∧
      ∃ blobs', (finalState (FileM.truncate target s)).Genuine appended blobs' := by
  have hlen : ∀ c, target ≤ (blobs.get c).length := by
    intro c
    have := h.frozen c
    omega
  rw [FileM.truncate_eq ht]
  obtain ⟨hf, next⟩ := (h.withFrozen hlen).cutTables ⟨hw.table, hw.apart⟩ hr (Nat.le_refl _) hlen
    Category.all
  exact ⟨⟨hf.wiring, hf.disk⟩, next⟩

/-- **A repair keeps records whole**, though it may commit what a failed truncation left. -/
theorem Genuine.repair (h : s.Genuine appended blobs) (hw : s.Wired)
    (hr : s.disk.faults.Reports) :
    s.Follows (finalState (FileM.repair s)) ∧
      ∃ blobs', (finalState (FileM.repair s)).Genuine appended blobs' := by
  have hlen : ∀ c, leastCount (FileM.lengths s) ≤ (blobs.get c).length := by
    intro c
    rw [FileM.lengths_eq fun c => (h.sound c).ends, ← ByCategory.get_map List.length]
    exact (blobs.map List.length).least_le c
  obtain ⟨hf, next⟩ := (h.withFrozen hlen).cutTables ⟨hw.table, hw.apart⟩ hr (Nat.le_refl _) hlen
    Category.all
  rw [FileM.repair_eq]
  generalize FileM.cutTables _ _ _ = r at hf next
  cases r with
  | ok _ s' => exact ⟨⟨hf.wiring, hf.disk⟩, next⟩
  | error e s' => exact ⟨⟨hf.wiring, hf.disk⟩, next⟩

end FileState

/-! ### Runs of one handle -/

/-- What is asked of a handle. -/
inductive Work where
  | call (now : Instant) (ctx : Context) (call : Call)
  | repair

namespace FileM

theorem finalState_read (c : Category) (number : Nat) (s : FileState) :
    finalState (read c number s) = s := by
  have hr : ∀ t : Table, finalState (t.retrieve number s.disk) = s.disk := by
    intro t
    unfold Table.retrieve
    cases t.ends[number]? with
    | none => rfl
    | some stop =>
      simp only [bind_apply, Disk.readAt_eq]
      by_cases h : (((s.disk.bytes t.data).drop (Table.startOf t.ends number)).take
          (stop - Table.startOf t.ends number)).length = stop - Table.startOf t.ends number
      · rw [if_pos h]
        rfl
      · rw [if_neg h]
        rfl
  have hr := hr (s.tables.get c)
  by_cases hn : s.frozen ≤ number
  · rw [read_of_le hn]
    rfl
  · simp only [read, bind_apply, get_apply, if_neg hn, onDisk]
    generalize (s.tables.get c).retrieve number s.disk = r at hr
    cases r with
    | ok found d =>
      obtain rfl : d = s.disk := hr
      cases found <;> rfl
    | error e d =>
      obtain rfl : d = s.disk := hr
      rfl

/-- Only appends and truncations change the state. -/
theorem finalState_perform (s : FileState) (call : Call) :
    finalState (perform call s) =
      match call with
      | .append number record => finalState (append number record s)
      | .truncate target => finalState (truncate target s)
      | _ => s := by
  cases call with
  | append number record =>
    simp only [perform, bind_apply]
    cases append number record s <;> rfl
  | truncate target =>
    simp only [perform, bind_apply]
    cases truncate target s <;> rfl
  | read c number =>
    have hr := finalState_read c number s
    simp only [perform, bind_apply]
    generalize read c number s = r at hr
    cases r <;> exact hr
  | _ => rfl

end FileM

namespace FileArchive

/-- The handle and its disk after work was asked. -/
def ask : FileArchive × Disk → Work → FileArchive × Disk
  | (a, d), .call now ctx call => (a.perform d now ctx call).2
  | (a, d), .repair => (a.repair d).2

/-- The handle is closed and shows nothing, or all its tables have whole records. -/
def Live (appended : Nat → Record → Prop) (a : FileArchive) (d : Disk) : Prop :=
  (a.opened = none ∧ a.frozen = 0) ∨
    ∃ id o blobs, a.Stands id o d ∧ d.faults.Reports ∧ (a.state o d).Genuine appended blobs

section Live

variable {appended appended' : Nat → Record → Prop} {id : DirectoryId} {a : FileArchive}
  {o : OpenTables} {d : Disk}

theorem work_state {α : Type} (h : a.opened = some o) (d : Disk) (f : FileM α) :
    (a.work d f).2 =
      (a.after o (finalState (f (a.state o d))), (finalState (f (a.state o d))).disk) := by
  rw [work_eq h]
  cases f (a.state o d) <;> rfl

/-- A state with the tables and the count of the handle changes no handle. -/
theorem after_self (ho : a.opened = some o) {s : FileState} (ht : s.tables = o.tables)
    (hz : s.frozen = a.frozen) : a.after o s = a := by
  obtain ⟨directory, opened, frozen⟩ := a
  obtain rfl : opened = some o := ho
  rw [after, ht, hz]

theorem Live.mono (h : Live appended a d) (ha : ∀ n r, appended n r → appended' n r) :
    Live appended' a d := by
  rcases h with h | ⟨id, o, blobs, hs, hr, hg⟩
  · exact .inl h
  · exact .inr ⟨id, o, blobs, hs, hr, hg.mono ha⟩

/-- Work on an open handle that keeps records whole. -/
theorem Stands.live {α : Type} (hs : a.Stands id o d) (hr : d.faults.Reports) {f : FileM α}
    (h : (a.state o d).Follows (finalState (f (a.state o d))) ∧
      ∃ blobs, (finalState (f (a.state o d))).Genuine appended blobs) :
    Live appended (a.work d f).2.1 (a.work d f).2.2 := by
  obtain ⟨hf, blobs, hg⟩ := h
  rw [work_state hs.opened]
  exact .inr ⟨id, _, blobs, hs.of_follows hf, hf.disk.faults ▸ hr, hg.sound, hg.frozen, hg.whole⟩

/-- **What a call preserves.** -/
theorem Live.perform (h : Live appended a d) (now : Instant) (ctx : Context) (call : Call) :
    Live (fun n r => appended n r ∨ call = .append n r) (a.perform d now ctx call).2.1
      (a.perform d now ctx call).2.2 := by
  by_cases hclose : call = .close
  · subst hclose
    left
    rcases h with ⟨ho, hz⟩ | ⟨id, o, blobs, hs, -⟩
    · simp only [FileArchive.perform, release, ho]
      exact ⟨trivial, hz⟩
    · simp only [FileArchive.perform, release, hs.opened, and_self]
  have old : Live (fun n r => appended n r ∨ call = .append n r) a d :=
    h.mono fun _ _ => .inl
  cases hc : ctx.check now with
  | error e =>
    rw [perform_of_check hc hclose]
    exact old
  | ok _ =>
    rw [perform_of_live hc hclose]
    rcases h with ⟨ho, hz⟩ | ⟨id, o, blobs, hs, hr, hg⟩
    · rw [work_of_closed ho]
      exact .inl ⟨ho, hz⟩
    · refine hs.live hr ?_
      rw [FileM.finalState_perform]
      have same : (a.state o d).Follows (a.state o d) ∧ ∃ blobs,
          (a.state o d).Genuine (fun n r => appended n r ∨ call = .append n r) blobs :=
        ⟨.refl _, blobs, hg.mono fun _ _ => .inl⟩
      cases call with
      | append number record =>
        by_cases hn : number = (a.state o d).frozen
        · subst hn
          obtain ⟨hf, blobs', hg'⟩ := hg.append hs.wired hr record
          refine ⟨hf, blobs', hg'.mono ?_⟩
          intro n r ha
          rcases ha with ha | ⟨rfl, rfl⟩
          · exact .inl ha
          · exact .inr rfl
        · simp only [FileM.append_of_ne hn]
          exact same
      | truncate target =>
        by_cases ht : target ≤ (a.state o d).frozen
        · obtain ⟨hf, blobs', hg'⟩ := hg.truncate hs.wired hr ht
          exact ⟨hf, blobs', hg'.mono fun _ _ => .inl⟩
        · simp only [FileM.truncate_of_lt (Nat.lt_of_not_le ht)]
          exact same
      | _ => exact same

/-- **What a repair preserves.** -/
theorem Live.repair (h : Live appended a d) :
    Live appended (a.repair d).2.1 (a.repair d).2.2 := by
  rcases h with ⟨ho, hz⟩ | ⟨id, o, blobs, hs, hr, hg⟩
  · rw [FileArchive.repair, work_of_closed ho]
    exact .inl ⟨ho, hz⟩
  · exact hs.live hr (hg.repair hs.wired hr)

/-- **What a run preserves.** -/
theorem Live.run (h : Live appended a d) (works : List Work) :
    Live (fun n r => appended n r ∨ ∃ now ctx, Work.call now ctx (.append n r) ∈ works)
      (works.foldl ask (a, d)).1 (works.foldl ask (a, d)).2 := by
  induction works generalizing appended a d with
  | nil => exact h.mono fun _ _ => .inl
  | cons work works ih =>
    rw [List.foldl_cons]
    cases work with
    | call now ctx call =>
      refine (ih (h.perform now ctx call)).mono ?_
      intro n r ha
      rcases ha with (ha | rfl) | ⟨now', ctx', hm⟩
      · exact .inl ha
      · exact .inr ⟨now, ctx, List.mem_cons_self ..⟩
      · exact .inr ⟨now', ctx', List.mem_cons_of_mem _ hm⟩
    | repair =>
      refine (ih h.repair).mono ?_
      intro n r ha
      rcases ha with ha | ⟨now', ctx', hm⟩
      · exact .inl ha
      · exact .inr ⟨now', ctx', List.mem_cons_of_mem _ hm⟩

end Live

/-- No mixed record is to be seen after the given work. -/
structure Whole (works : List Work) (a : FileArchive) (d : Disk) : Prop where
  /-- Every table has the committed items in hand. -/
  items : ∀ o, a.opened = some o → ∀ c, a.frozen ≤ (o.tables.get c).items
  /-- What is read at a committed number are the blobs of one record, which was appended there. -/
  record : ∀ n, n < a.frozen → ∃ record, (∃ now ctx, .call now ctx (.append n record) ∈ works) ∧
    ∀ c now ctx, ctx.IsLive now → (a.perform d now ctx (.read c n)).1 = .ok (.blob (record.get c))
  /-- Each table that an append comes to has the items below its number. -/
  reached : ∀ o, a.opened = some o → ∀ record written c rest s,
    Category.all = written ++ c :: rest →
    FileM.writeBlobs a.frozen record [] written (a.state o d) = .ok () s →
    a.frozen ≤ (s.tables.get c).items

theorem Live.whole {works : List Work} {a : FileArchive} {d : Disk}
    (h : Live (fun n r => ∃ now ctx, Work.call now ctx (.append n r) ∈ works) a d) :
    Whole works a d := by
  rcases h with ⟨ho, hz⟩ | ⟨id, o, blobs, hs, hr, hg⟩
  · refine ⟨?_, ?_, ?_⟩
    · intro o h
      rw [ho] at h
      cases h
    · intro n hn
      rw [hz] at hn
      exact absurd hn (Nat.not_lt_zero n)
    · intro o h
      rw [ho] at h
      cases h
  have hopen : ∀ {o'}, a.opened = some o' → o' = o := fun h =>
    Option.some.inj (h.symm.trans hs.opened)
  have items : ∀ c, a.frozen ≤ ((a.state o d).image c).ends.length := by
    intro c
    rw [(hg.sound c).length]
    exact hg.frozen c
  refine ⟨?_, ?_, ?_⟩
  · intro o' h c
    rw [hopen h]
    exact items c
  · intro n hn
    obtain ⟨record, ha, hb⟩ := hg.whole n fun c => Nat.lt_of_lt_of_le hn (hg.frozen c)
    refine ⟨record, ha, ?_⟩
    intro c now ctx hl
    rw [perform_of_live hl (by simp), work_eq hs.opened]
    simp only [FileM.perform, bind_apply, FileM.read_blob (hg.sound c).ends (hg.sound c).data
      (show n < (a.state o d).frozen from hn) (hb c), pure_apply]
  · intro o' h record written c rest s hsplit hw
    obtain rfl := hopen h
    have hnd : (written ++ c :: rest).Nodup := hsplit ▸ by decide
    have hfresh : c ∉ written := fun hc =>
      (List.nodup_append.mp hnd).2.2 c hc c (List.mem_cons_self ..) rfl
    have he := FileM.writeBlobs_ends record hs.wired hr.serial items written []
      (List.nodup_append.mp hnd).1
      ⟨.refl _, rfl, fun c => by simp, fun c hc => by cases hc⟩
    rw [hw] at he
    cases he with
    | done he =>
      have hi := he.image c
      rw [if_neg (by simpa using hfresh)] at hi
      show a.frozen ≤ (s.image c).ends.length
      rw [hi]
      exact items c
    | lost dead he => exact absurd dead (FaultPlan.Reports.not_dead (he.disk.faults ▸ hr))

/-- **No mixed record is to be seen on a live archive.** It is opened on an empty directory, and
from then on every change of a file may fail, a write after any part of it. Whatever is asked of the
handle, every table has the committed items, and at each committed number the five blobs that are
read are those of one record that was appended there. -/
theorem no_mixed_record {directory : String} {id : DirectoryId} {d : Disk}
    (h : Vacant directory id d) (hr : d.faults.Reports) (hp : d.faults.Obliging) :
    ∃ a d', openAt directory d = .ok a d' ∧ ∀ plan : FaultPlan, plan.Reports → ∀ works : List Work,
      Whole works (works.foldl ask (a, { d' with faults := plan })).1
        (works.foldl ask (a, { d' with faults := plan })).2 := by
  obtain ⟨a, o, d', ho, hs, he, -⟩ := h.opens hr hp
  refine ⟨a, d', ho, ?_⟩
  intro plan hplan works
  have live : Live (fun _ _ => False) a { d' with faults := plan } := by
    refine .inr ⟨id, o, .replicate [], hs.withFaults plan, hplan, ?_, ?_,
      ?_⟩
    · intro c
      rw [show (a.state o { d' with faults := plan }).image c = _ from he.image c]
      exact ⟨rfl, List.prefix_rfl⟩
    · intro c
      exact Nat.le_of_eq (he.length c).symm
    · intro n hn
      have hn := hn .hash
      exact absurd hn (Nat.not_lt_zero n)
  refine Live.whole ((live.run works).mono ?_)
  intro n r ha
  rcases ha with ha | ha
  · exact ha.elim
  · exact ha

/-- A device on which the second of two records fails, two bytes into its header. The first one stays
committed. -/
theorem no_mixed_record_of_failing_write :
    ∃ a d', openAt "." Disk.empty = .ok a d' ∧
      let plan : FaultPlan := fun i _ => if i = 46 then .fails 2 else .done
      let works := [Work.call 0 .background (.append 0 ⟨[1, 2], [3, 4, 5], [6], [7], [8]⟩),
        .call 0 .background (.append 1 ⟨[11, 12], [13, 14, 15], [16], [17], [18]⟩), .repair]
      let last := works.foldl ask (a, { d' with faults := plan })
      last.1.frozen = 1 ∧ Whole works last.1 last.2 := by
  obtain ⟨a, d', ho, h⟩ := no_mixed_record vacant_emptyDisk FaultPlan.reports_reliable
    FaultPlan.obliging_reliable
  refine ⟨a, d', ho, ?_⟩
  intro plan works last
  let frozenAfter (a : FileArchive) : DiskM Nat := fun d =>
    .ok (works.foldl ask (a, { d with faults := plan })).1.frozen d
  have hopened : ∀ {x : DiskM FileArchive}, x Disk.empty = .ok a d' →
      (x >>= frozenAfter).run' Disk.empty = (frozenAfter a).run' d' := by
    intro x hx
    have hx : x.run Disk.empty = .ok a d' := hx
    unfold EStateM.run'
    rw [EStateM.run_bind, hx]
  have hrun : (openAt "." >>= frozenAfter).run' Disk.empty = some 1 := by decide +kernel
  rw [hopened ho] at hrun
  refine ⟨Option.some.inj hrun, h plan ?_ works⟩
  intro i change stored
  by_cases hi : i = 46 <;> simp [plan, hi]

end FileArchive

end ColdArchive
