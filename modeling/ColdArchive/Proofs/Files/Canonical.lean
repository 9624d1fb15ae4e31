import ColdArchive.Proofs.Files.Records
import ColdArchive.Proofs.Files.Restart

/-!
# The directory of an archive

Whatever happened to an archive since its directory was empty, the directory is a function of the
records that it has (`Canonical`): of an append that failed, of a truncation or a repair, of a
reopening nothing is left in it. So an append that fails leaves every byte as it was, and archives
that came to the same records in different ways have the same directory.
-/

namespace ColdArchive

namespace Disk

/-- What is under a name. -/
inductive Entry where
  | directory
  | file (bytes : Bytes)

/-- What is under the name of a place, if anything. -/
def listed (d : Disk) (place : Place) : Option Entry :=
  match d.find? place with
  | none => none
  | some (.directory _) => some .directory
  | some (.file f) => some (.file (d.bytes f))

variable {d d' : Disk} {place : Place}

theorem listed_of_none (h : d.find? place = none) : d.listed place = none := by
  rw [listed, h]

theorem find?_of_listed_eq_none (h : d.listed place = none) : d.find? place = none := by
  unfold listed at h
  split at h
  · assumption
  all_goals cases h

/-- A file that is there is listed with its bytes. -/
theorem listed_of_file {f : FileId} (h : d.find? place = some (.file f)) :
    d.listed place = some (.file (d.stored place)) := by
  rw [stored_of_file h, listed, h]

theorem stored_of_listed {bs : Bytes} (h : d.listed place = some (.file bs)) :
    d.stored place = bs := by
  unfold listed at h
  split at h
  · cases h
  · cases h
  · next hf =>
    cases h
    exact stored_of_file hf

end Disk

namespace FileArchive

/-- The files of an archive of the records. -/
def listing (records : List Record) : List (String × Bytes) :=
  (lockName, []) :: Category.all.flatMap fun c =>
    [(c.dataName, ((columns records).get c).flatten),
      (c.indexName, Table.indexOf (Table.endsOf ((columns records).get c)))]

section Listing

variable {records : List Record} {c : Category} {name : String}

theorem lookup_lockName : (listing records).lookup lockName = some [] := rfl

theorem lookup_dataName :
    (listing records).lookup c.dataName = some ((columns records).get c).flatten := by
  cases c <;> rfl

theorem lookup_indexName : (listing records).lookup c.indexName =
    some (Table.indexOf (Table.endsOf ((columns records).get c))) := by
  cases c <;> rfl

theorem lookup_of_not_mem (h : name ∉ names) : (listing records).lookup name = none := by
  have hn : names = (listing records).map Prod.fst := rfl
  rw [List.lookup_eq_none_iff]
  intro entry hm
  have : entry.1 ≠ name := fun he => h (hn ▸ he ▸ List.mem_map_of_mem hm)
  simpa using this.symm

theorem mem_names_iff : name ∈ names ↔
    name = lockName ∨ ∃ c : Category, name = c.dataName ∨ name = c.indexName := by
  constructor
  · intro h
    rcases List.mem_cons.mp h with h | h
    · exact .inl h
    · obtain ⟨c, -, hc⟩ := List.mem_flatMap.mp h
      simp only [List.mem_cons, List.not_mem_nil, or_false] at hc
      exact .inr ⟨c, hc⟩
  · rintro (rfl | ⟨c, rfl | rfl⟩)
    · exact lockName_mem
    · exact dataName_mem c
    · exact indexName_mem c

end Listing

/-- The directory is that of an archive of the records. -/
def Canonical (id : DirectoryId) (d : Disk) (records : List Record) : Prop :=
  ∀ name, d.listed ⟨id, name⟩ = ((listing records).lookup name).map .file

/-- The lock file is empty, and nothing is there but what belongs to the archive. -/
structure Bare (id : DirectoryId) (d : Disk) : Prop where
  lockFile : d.stored ⟨id, lockName⟩ = []
  outside : ∀ name ∉ names, d.find? ⟨id, name⟩ = none

section Canonical

variable {directory : String} {id : DirectoryId} {a : FileArchive} {o : OpenTables} {d d' : Disk}
  {records : List Record}

theorem Vacant.bare (h : Vacant directory id d) : Bare id d :=
  ⟨Disk.stored_of_none (h.vacant _), fun name _ => h.vacant name⟩

theorem Bare.of_tended (h : Bare id d) (ht : Shelf.Tended directory id d d') : Bare id d' :=
  ⟨ht.lockFile.trans h.lockFile,
    fun name hn => (ht.outside ⟨id, name⟩ fun _ => hn).trans (h.outside name hn)⟩

/-- **An archive that has exactly the records has the directory of them.** -/
theorem Bare.canonical (h : Bare id d) (hs : a.Stands id o d)
    (he : (a.state o d).Exact (columns records)) : Canonical id d records := by
  intro name
  by_cases hn : name ∈ names
  · rcases mem_names_iff.mp hn with rfl | ⟨c, rfl | rfl⟩
    · rw [Disk.listed_of_file hs.lock, h.lockFile, lookup_lockName]
      rfl
    · rw [Disk.listed_of_file (hs.located c).data, (hs.stored_eq he c).1, lookup_dataName]
      rfl
    · rw [Disk.listed_of_file (hs.located c).index, (hs.stored_eq he c).2, lookup_indexName]
      rfl
  · rw [Disk.listed_of_none (h.outside name hn), lookup_of_not_mem hn]
    rfl

theorem Canonical.bare (h : Canonical id d records) : Bare id d := by
  refine ⟨Disk.stored_of_listed ((h lockName).trans ?_), fun name hn => ?_⟩
  · rw [lookup_lockName]
    rfl
  · refine Disk.find?_of_listed_eq_none ((h name).trans ?_)
    rw [lookup_of_not_mem hn]
    rfl

/-- The directory of records keeps their blobs for the next opening. -/
theorem Canonical.keeps (h : Canonical id d records) (hsize : Sized records) :
    Keeps id (columns records) d := by
  intro c
  have hdata : d.stored ⟨id, c.dataName⟩ = ((columns records).get c).flatten := by
    refine Disk.stored_of_listed ((h _).trans ?_)
    rw [lookup_dataName]
    rfl
  have hindex : d.stored ⟨id, c.indexName⟩ =
      Table.indexOf (Table.endsOf ((columns records).get c)) := by
    refine Disk.stored_of_listed ((h _).trans ?_)
    rw [lookup_indexName]
    rfl
  rw [hdata, hindex]
  have holds := TableImage.ofBlobs_holds ((columns records).get c)
  exact ⟨Table.blobBytes_lt_wordLimit (hsize c), holds.data, holds.index, holds.short⟩

end Canonical

/-! ### What can happen -/

/-- Nothing is done on a closed handle. -/
theorem perform_of_none {a : FileArchive} (ho : a.opened = none) (d : Disk) (now : Instant)
    (ctx : Context) (call : Call) : (a.perform d now ctx call).2 = (a, d) := by
  by_cases hc : call = .close
  · subst hc
    simp only [perform, release, ho]
  cases hk : ctx.check now with
  | error e => rw [perform_of_check hk hc]
  | ok _ => rw [perform_of_live hk hc, work_of_closed ho]

/-- The archive has the records, open or closed, and the directory is that of them. -/
structure Tidy (id : DirectoryId) (a : FileArchive) (d : Disk) (records : List Record) : Prop where
  reports : d.faults.Reports
  obliging : d.faults.Obliging
  bounded : d.faults.Bounded
  sized : Sized records
  canonical : Canonical id d records
  handle : (∃ o, a.Stands id o d ∧ (a.state o d).Exact (columns records)) ∨
    (a.opened = none ∧ Free a.directory id d)

section Tidy

variable {directory : String} {id : DirectoryId} {a : FileArchive} {o : OpenTables} {d : Disk}
  {records : List Record}

theorem Tidy.withFaults (h : Tidy id a d records) {plan : FaultPlan} (hr : plan.Reports)
    (hp : plan.Obliging) (hb : plan.Bounded) : Tidy id a { d with faults := plan } records := by
  refine ⟨hr, hp, hb, h.sized, h.canonical, ?_⟩
  rcases h.handle with ⟨o, hs, he⟩ | ⟨ho, hfree⟩
  · exact .inl ⟨o, hs.withFaults plan, he.image, he.length⟩
  · exact .inr ⟨ho, hfree.withFaults plan⟩

/-- **An archive that was opened, or worked on, has the directory of its records** if nothing was in
the directory but what belongs to it. -/
theorem Tidy.of_has {d' : Disk} (hh : Has id a d' records) (hb : d'.faults.Bounded)
    (hsize : Sized records) (hbare : Bare id d) (ht : Shelf.Tended directory id d d') :
    Tidy id a d' records := by
  obtain ⟨o, hs, he⟩ := hh.opened
  exact ⟨hh.reports, hh.obliging, hb, hsize, (hbare.of_tended ht).canonical hs he, .inl ⟨o, hs, he⟩⟩

/-- Releasing the handle leaves the directory. -/
theorem Tidy.release (h : Tidy id a d records) :
    Tidy id (a.release d).1 (a.release d).2 records := by
  rcases h.handle with ⟨o, hs, -⟩ | ⟨ho, hfree⟩
  · have hfree := hs.release
    rw [release_of_opened hs.opened] at hfree ⊢
    exact ⟨h.reports, h.obliging, h.bounded, h.sized, h.canonical, .inr ⟨rfl, hfree⟩⟩
  · rw [release_of_closed ho]
    exact h

/-- **A directory that was let go of is opened again** with its records. -/
theorem Tidy.opens (h : Tidy id a d records) (ho : a.opened = none) :
    ∃ a' d', openAt a.directory d = .ok a' d' ∧ Tidy id a' d' records ∧ a'.opened ≠ none := by
  rcases h.handle with ⟨o, hs, -⟩ | ⟨-, hfree⟩
  · rw [hs.opened] at ho
    cases ho
  obtain ⟨a', o, d', hopen, -, hs, he, ht⟩ :=
    openAt_of_keeps hfree h.reports h.obliging (h.canonical.keeps h.sized)
  rw [ByCategory.aligned_of_length (length_columns records)] at he
  have hh : Has id a' d' records := ⟨⟨o, hs, he⟩, ht.faults ▸ h.reports, ht.faults ▸ h.obliging⟩
  exact ⟨a', d', hopen, .of_has hh (ht.faults ▸ h.bounded) h.sized h.canonical.bare ht,
    by simp [hs.opened]⟩

/-- The handle with its records, if it is open. -/
theorem Tidy.has (h : Tidy id a d records) : Has id a d records ∨ a.opened = none := by
  rcases h.handle with hopen | ⟨ho, -⟩
  · exact .inl ⟨hopen, h.reports, h.obliging⟩
  · exact .inr ho

/-- **A call leaves the directory of some records**, and of the same if it is refused. -/
theorem Tidy.perform (h : Tidy id a d records) (now : Instant) (ctx : Context) (call : Call) :
    ∃ records', Tidy id (a.perform d now ctx call).2.1 (a.perform d now ctx call).2.2 records' ∧
      ∀ e, (a.perform d now ctx call).1 = .error e → records' = records := by
  by_cases hc : call = .close
  · subst hc
    exact ⟨records, h.release, fun _ _ => rfl⟩
  rcases h.has with hh | ho
  · cases hk : ctx.check now with
    | error e =>
      rw [perform_of_check hk hc]
      exact ⟨records, h, fun _ _ => rfl⟩
    | ok _ =>
      obtain ⟨records', ha, hh', ht, hsize⟩ := hh.perform hk hc
      refine ⟨records', .of_has hh' (ht.faults ▸ h.bounded) (hsize h.bounded h.sized)
        h.canonical.bare ht, fun e he => ?_⟩
      rw [he] at ha
      cases ha
      rfl
  · rw [perform_of_none ho]
    exact ⟨records, h, fun _ _ => rfl⟩

/-- **What one event preserves**: the directory is that of the records. -/
theorem Tidy.happen (h : Tidy id a d records) (event : Event) :
    ∃ records', Tidy id (FileArchive.happen (a, d) event).2.1 (FileArchive.happen (a, d) event).2.2
      records' := by
  cases event with
  | call now ctx call =>
    obtain ⟨records', ht, -⟩ := h.perform now ctx call
    exact ⟨records', ht⟩
  | repair =>
    rcases h.has with hh | ho
    · obtain ⟨hh', ht⟩ := hh.repair
      exact ⟨records, .of_has hh' (ht.faults ▸ h.bounded) h.sized h.canonical.bare ht⟩
    · simp only [FileArchive.happen, FileArchive.repair, work_of_closed ho]
      exact ⟨records, h⟩
  | limit limit =>
    exact ⟨records, h.withFaults (FaultPlan.reports_capped _) (FaultPlan.obliging_capped _)
      (FaultPlan.bounded_capped (Nat.min_le_right _ _))⟩
  | reopen =>
    obtain ⟨a', d', hopen, ht, -⟩ := h.release.opens (opened_release a d)
    simp only [FileArchive.happen, hopen]
    exact ⟨records, ht⟩

end Tidy

/-- The states of an archive, and of the disk that it is on, since its directory was empty. The
device may do with any change as it likes, but new files are made, files are cut, and none grows
past the greatest length. -/
inductive Reached (directory : String) (id : DirectoryId) : FileArchive → Disk → Prop where
  | opened {d : Disk} {a : FileArchive} {d' : Disk} (h : Vacant directory id d)
      (hr : d.faults.Reports) (hp : d.faults.Obliging) (hb : d.faults.Bounded)
      (ho : openAt directory d = .ok a d') : Reached directory id a d'
  | happened {a : FileArchive} {d : Disk} (h : Reached directory id a d) (event : Event) :
      Reached directory id (happen (a, d) event).2.1 (happen (a, d) event).2.2
  | device {a : FileArchive} {d : Disk} (h : Reached directory id a d) {plan : FaultPlan}
      (hr : plan.Reports) (hp : plan.Obliging) (hb : plan.Bounded) :
      Reached directory id a { d with faults := plan }

/-- The archive has the records: the handle shows them, or if it is closed, that of the next
opening does. -/
def Commits (a : FileArchive) (d : Disk) (records : List Record) : Prop :=
  match a.opened with
  | some _ => a.Shows d records
  | none => ∃ a' d', openAt a.directory d = .ok a' d' ∧ a'.Shows d' records

section Reached

variable {directory : String} {id : DirectoryId} {a : FileArchive} {d : Disk}
  {records records' : List Record}

/-- **What a run preserves**: the directory is that of some records. -/
theorem Reached.tidy (h : Reached directory id a d) : ∃ records, Tidy id a d records := by
  induction h with
  | opened h hr hp hb ho =>
    obtain ⟨a', d'', ho', hh, ht⟩ := h.opens_empty hr hp
    cases ho.symm.trans ho'
    refine ⟨[], .of_has hh (ht.faults ▸ hb) (fun c => ?_) h.bare ht⟩
    rw [columns, ByCategory.get_ofFn]
    exact Nat.zero_le _
  | happened _ event ih =>
    obtain ⟨records, ht⟩ := ih
    exact ht.happen event
  | device _ hr hp hb ih =>
    obtain ⟨records, ht⟩ := ih
    exact ⟨records, ht.withFaults hr hp hb⟩

/-- A handle shows one list of records. -/
theorem Shows.unique (h : a.Shows d records) (h' : a.Shows d records') : records' = records := by
  have live := Context.isLive_background 0
  have hlen : records'.length = records.length := by
    simpa using (h'.count 0 _ live).symm.trans (h.count 0 _ live)
  apply List.ext_getElem hlen
  intro n hn' hn
  apply ByCategory.ext
  intro c
  have hread := (h'.read 0 _ live c n).symm.trans (h.read 0 _ live c n)
  simpa [List.getElem?_eq_getElem hn', List.getElem?_eq_getElem hn] using hread

theorem Commits.unique (h : a.Commits d records) (h' : a.Commits d records') :
    records' = records := by
  unfold Commits at h h'
  split at h
  · next ho =>
    rw [ho] at h'
    exact h.unique h'
  · next ho =>
    rw [ho] at h'
    obtain ⟨a₁, d₁, h₁, hs⟩ := h
    obtain ⟨a₂, d₂, h₂, hs'⟩ := h'
    cases h₁.symm.trans h₂
    exact hs.unique hs'

theorem Tidy.shows (h : Tidy id a d records) (ho : a.opened ≠ none) : a.Shows d records := by
  rcases h.handle with ⟨o, hs, he⟩ | ⟨hn, -⟩
  · exact Settled.shows ⟨⟨id, o, hs, he⟩, h.sized⟩
  · exact absurd hn ho

theorem Tidy.commits (h : Tidy id a d records) : a.Commits d records := by
  unfold Commits
  split
  · next ho => exact h.shows (by simp [ho])
  · next ho =>
    obtain ⟨a', d', hopen, ht, hsome⟩ := h.opens ho
    exact ⟨a', d', hopen, ht.shows hsome⟩

end Reached

/-- **The directory of an archive is a function of its records**, and so are the ends that an open
handle has of every table. An append that fails leaves the directory as it was, and archives with
the same records have the same directory, however they came to them. -/
theorem reached_canonical {directory : String} {id : DirectoryId} {a : FileArchive} {d : Disk}
    (h : Reached directory id a d) :
    (∃ records, a.Commits d records) ∧
    (∀ records, a.Commits d records →
      (∀ name, d.listed ⟨id, name⟩ = ((listing records).lookup name).map .file) ∧
      (∀ o, a.opened = some o →
        ∀ c, (o.tables.get c).ends = Table.endsOf ((columns records).get c)) ∧
      ∀ directory' id' a' d', Reached directory' id' a' d' → a'.Commits d' records →
        ∀ name, d'.listed ⟨id', name⟩ = d.listed ⟨id, name⟩) ∧
    ∀ now ctx n record e a' d', a.perform d now ctx (.append n record) = (.error e, a', d') →
      ∀ name, d'.listed ⟨id, name⟩ = d.listed ⟨id, name⟩ := by
  obtain ⟨records, ht⟩ := h.tidy
  refine ⟨⟨records, ht.commits⟩, fun records' hrecords => ?_, ?_⟩
  · obtain rfl := ht.commits.unique hrecords
    refine ⟨ht.canonical, fun o ho c => ?_, fun directory' id' a' d' h' hrecords' name => ?_⟩
    · rcases ht.handle with ⟨o', hs, he⟩ | ⟨hn, -⟩
      · obtain rfl := Option.some.inj (hs.opened.symm.trans ho)
        exact congrArg TableImage.ends (he.image c)
      · rw [hn] at ho
        cases ho
    · obtain ⟨records', ht'⟩ := h'.tidy
      obtain rfl := ht'.commits.unique hrecords'
      rw [ht'.canonical, ht.canonical]
  · intro now ctx n record e a' d' hfail name
    obtain ⟨records', ht', hsame⟩ := ht.perform now ctx (.append n record)
    rw [hfail] at ht' hsame
    obtain rfl := hsame e rfl
    rw [ht'.canonical, ht.canonical]

/-- A second record fits four of the tables and not the fifth. What was written of it is gone. -/
theorem reached_canonical_of_refused :
    ∃ a d a' d', Reached "." 0 a d ∧ a.Commits d [.replicate [1]] ∧
      a.perform d 0 .background (.append 1 ⟨[2], [2], [2], [2], List.replicate 20 2⟩) =
        (.error (.io .tooLarge), a', d') ∧
      d.listed ⟨0, "hash.idx"⟩ = some (.file [1, 0, 0, 0, 0, 0, 0, 0]) ∧
      ∀ name, d'.listed ⟨0, name⟩ = d.listed ⟨0, name⟩ := by
  have vacant : Vacant "." 0 (Disk.empty.limited 16) := vacant_emptyDisk.withFaults _
  have live := Context.isLive_background 0
  obtain ⟨a, d, hopen, hempty, hfaults⟩ :=
    vacant.settled (FaultPlan.reports_capped _) (FaultPlan.obliging_capped _)
  have fits : Record.Fits (.replicate [1]) 16 (columns []) := by decide
  obtain ⟨a₁, d₁, happend, hone, hfaults₁⟩ := hempty.append hfaults (by decide) fits live
  have reached : Reached "." 0 a₁ d₁ := by
    have := (Reached.opened vacant (FaultPlan.reports_capped _) (FaultPlan.obliging_capped _)
      (FaultPlan.bounded_capped (by decide)) hopen).happened
        (.call 0 .background (.append 0 (.replicate [1])))
    simp only [happen, show a.perform d 0 .background (.append 0 (.replicate [1])) = _ from happend]
      at this
    exact this
  obtain ⟨id, o, hs, he⟩ := hone.stands
  have commits : a₁.Commits d₁ [.replicate [1]] := by
    rw [Commits, hs.opened]
    exact hone.shows
  obtain ⟨s, -, hrefused, -⟩ := FileM.append_exact hs.wired (hfaults₁.trans hfaults) he
    ⟨[2], [2], [2], [2], List.replicate 20 2⟩
  rw [if_neg (by decide), show (a₁.state o d₁).frozen = 1 from hone.frozen] at hrefused
  have hfail : a₁.perform d₁ 0 .background (.append 1 ⟨[2], [2], [2], [2], List.replicate 20 2⟩) =
      (.error (.io .tooLarge), a₁.after o s, s.disk) := by
    rw [perform_of_live live (by simp), work_eq hs.opened]
    simp only [FileM.perform, bind_apply, hrefused]
  obtain ⟨-, hcanonical, hkept⟩ := reached_canonical reached
  exact ⟨a₁, d₁, _, _, reached, commits, hfail, (hcanonical _ commits).1 "hash.idx",
    hkept _ _ _ _ _ _ _ hfail⟩

end FileArchive

end ColdArchive
