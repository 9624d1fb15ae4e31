import ColdArchive.Proofs.Files.Canonical
import ColdArchive.Proofs.RecordLog

/-!
# Refused calls leave no trace

An archive in files has refused a call as if it had never been asked, also where some tables took
their blobs of a record before the device refused the next one. The states considered are those of
a directory that held anything when it was opened first, and that nobody else has changed since.
-/

namespace ColdArchive

/-! ### States with the same files -/

section Files

variable {s s' : FileState} {blobs : ByCategory (List Blob)}

/-- Work that leaves the files those of the same blobs has changed nothing. -/
theorem FileState.Follows.same (h : s.Follows s') (he : s.Exact blobs) (he' : s'.Exact blobs) :
    s'.tables = s.tables ∧ s'.frozen = s.frozen ∧ Disk.Touches [] s.disk s'.disk := by
  have himage : ∀ c, s'.image c = s.image c := by
    intro c
    rw [he.image, he'.image]
  refine ⟨ByCategory.ext fun c => ?_, ?_, ?_⟩
  · have hends : (s'.tables.get c).ends = (s.tables.get c).ends :=
      congrArg TableImage.ends (himage c)
    rw [h.wiring c, hends]
  · rw [← he.length .hash, ← he'.length .hash]
  · refine ⟨h.disk.tree, h.disk.directories, h.disk.home, h.disk.locks, h.disk.faults,
      h.disk.size, ?_⟩
    intro f _
    by_cases hf : f ∈ s.files
    · obtain ⟨c, -, hc⟩ := List.mem_flatMap.mp hf
      have hdata : s'.disk.bytes (s'.tables.get c).data = s.disk.bytes (s.tables.get c).data :=
        congrArg TableImage.data (himage c)
      have hindex : s'.disk.bytes (s'.tables.get c).index = s.disk.bytes (s.tables.get c).index :=
        congrArg TableImage.index (himage c)
      rw [h.data] at hdata
      rw [h.index] at hindex
      simp only [List.mem_cons, List.not_mem_nil, or_false] at hc
      rcases hc with rfl | rfl
      · exact hdata
      · exact hindex
    · exact h.disk.rest f hf

end Files

namespace FileArchive

/-! ### Calls -/

section Calls

variable {id : DirectoryId} {a : FileArchive} {o : OpenTables} {d : Disk} {records : List Record}
  {now : Instant} {ctx : Context} {call : Call}

/-- A call that is no append, truncation or close changes nothing, answered or not. -/
theorem perform_of_not_changes (h : ¬ call.Changes) : (a.perform d now ctx call).2 = (a, d) := by
  have hc : call ≠ .close := by
    rintro rfl
    exact h trivial
  cases hk : ctx.check now with
  | error e => rw [perform_of_check hk hc]
  | ok _ =>
    rw [perform_of_live hk hc]
    cases ho : a.opened with
    | none => rw [work_of_closed ho]
    | some o =>
      have hfinal : finalState (FileM.perform call (a.state o d)) = a.state o d := by
        rw [FileM.finalState_perform]
        cases call <;> first | exact absurd trivial h | rfl
      rw [work_state ho, hfinal, after_self ho rfl rfl]
      rfl

/-- **A refused call has changed nothing**, whatever part of it was done. -/
theorem Has.refused (h : Has id a d records) (hl : ctx.IsLive now) (hc : call ≠ .close)
    {e : StoreError} (he : (a.perform d now ctx call).1 = .error e) :
    (a.perform d now ctx call).2.1 = a ∧
      Disk.Touches [] d (a.perform d now ctx call).2.2 := by
  obtain ⟨o, hs, hexact⟩ := h.opened
  obtain ⟨outcome, s, records', hwork, hf, hexact', ha, -⟩ :=
    FileM.perform_answered hs.wired h.reports h.obliging hexact hc
  obtain ⟨hperform, -, -⟩ := Has.of_work hs h.reports h.obliging hwork hf hexact'
  rw [perform_of_live hl hc, hperform] at he ⊢
  obtain rfl : outcome = .error e := he
  cases ha
  obtain ⟨ht, hz, hd⟩ := hf.same hexact hexact'
  exact ⟨after_self hs.opened ht hz, hd⟩

end Calls

/-! ### What can happen -/

/-- The states of an archive and of the disk that it is on, since it was opened first. The device
may do with any change as it likes, but failures are reported, new files are made and files are
cut. -/
inductive Used (directory : String) (id : DirectoryId) : FileArchive → Disk → Prop where
  | opened {d : Disk} {a : FileArchive} {d' : Disk} (h : Free directory id d)
      (hr : d.faults.Reports) (hp : d.faults.Obliging) (ho : openAt directory d = .ok a d') :
      Used directory id a d'
  | happened {a : FileArchive} {d : Disk} (h : Used directory id a d) (event : Event) :
      Used directory id (happen (a, d) event).2.1 (happen (a, d) event).2.2
  | device {a : FileArchive} {d : Disk} (h : Used directory id a d) {plan : FaultPlan}
      (hr : plan.Reports) (hp : plan.Obliging) : Used directory id a { d with faults := plan }

/-- The handle is open with some records, or closed with its directory free. -/
def Owns (id : DirectoryId) (a : FileArchive) (d : Disk) : Prop :=
  (∃ records, Has id a d records) ∨
    a.opened = none ∧ Free a.directory id d ∧ d.faults.Reports ∧ d.faults.Obliging

section Used

variable {directory : String} {id : DirectoryId} {a : FileArchive} {d : Disk}
  {now : Instant} {ctx : Context} {call : Call}

/-- An opening succeeds with records, or leaves the directory free. -/
theorem Free.opens_or_free (h : Free directory id d) (hr : d.faults.Reports)
    (hp : d.faults.Obliging) :
    (∃ a d' records, openAt directory d = .ok a d' ∧ Has id a d' records) ∨
      ∃ e d', openAt directory d = .error e d' ∧ Free directory id d' ∧ d'.faults = d.faults := by
  have hopen := h.openAt_resolves hr.serial
  generalize openAt directory d = r at hopen
  cases hopen with
  | @done a d' hdone hkept =>
    obtain ⟨o, blobs, -, -, hs, he⟩ := hdone
    have hfaults := hkept.1.faults
    exact .inl ⟨a, d', _, rfl, ⟨o, hs, he.columns⟩, hfaults ▸ hr, hfaults ▸ hp⟩
  | @refused e d' he hkept =>
    exact .inr ⟨e, d', rfl, h.of_tended hkept.1 he.2, hkept.1.faults⟩
  | lost dead hkept => exact absurd dead (FaultPlan.Reports.not_dead (hkept.1.faults ▸ hr))

theorem Owns.withFaults (h : Owns id a d) {plan : FaultPlan} (hr : plan.Reports)
    (hp : plan.Obliging) : Owns id a { d with faults := plan } := by
  rcases h with ⟨records, hh⟩ | ⟨ho, hfree, -, -⟩
  · obtain ⟨o, hs, he⟩ := hh.opened
    exact .inl ⟨records, ⟨o, hs.withFaults _, he.image, he.length⟩, hr, hp⟩
  · exact .inr ⟨ho, hfree.withFaults _, hr, hp⟩

theorem Owns.release (h : Owns id a d) :
    (a.release d).1.opened = none ∧ Free (a.release d).1.directory id (a.release d).2 ∧
      (a.release d).2.faults.Reports ∧ (a.release d).2.faults.Obliging := by
  rcases h with ⟨records, hh⟩ | ⟨ho, hfree, hr, hp⟩
  · obtain ⟨o, hs, -⟩ := hh.opened
    have hfree := hs.release
    rw [release_of_opened hs.opened] at hfree ⊢
    exact ⟨rfl, hfree, hh.reports, hh.obliging⟩
  · rw [release_of_closed ho]
    exact ⟨ho, hfree, hr, hp⟩

theorem Owns.perform (h : Owns id a d) (now : Instant) (ctx : Context) (call : Call) :
    Owns id (a.perform d now ctx call).2.1 (a.perform d now ctx call).2.2 := by
  by_cases hc : call = .close
  · subst hc
    exact .inr h.release
  rcases h with ⟨records, hh⟩ | hclosed
  · cases hk : ctx.check now with
    | error e =>
      rw [perform_of_check hk hc]
      exact .inl ⟨records, hh⟩
    | ok _ =>
      obtain ⟨records', -, hh', -⟩ := hh.perform hk hc
      exact .inl ⟨records', hh'⟩
  · rw [perform_of_none hclosed.1]
    exact .inr hclosed

/-- **What one event preserves.** -/
theorem Owns.happen (h : Owns id a d) (event : Event) :
    Owns id (FileArchive.happen (a, d) event).2.1 (FileArchive.happen (a, d) event).2.2 := by
  cases event with
  | call now ctx call => exact h.perform now ctx call
  | repair =>
    rcases h with ⟨records, hh⟩ | hclosed
    · exact .inl ⟨records, hh.repair.1⟩
    · simp only [FileArchive.happen, FileArchive.repair, work_of_closed hclosed.1]
      exact .inr hclosed
  | limit limit => exact h.withFaults (FaultPlan.reports_capped _) (FaultPlan.obliging_capped _)
  | reopen =>
    obtain ⟨ho, hfree, hr, hp⟩ := h.release
    simp only [FileArchive.happen]
    rcases hfree.opens_or_free hr hp with ⟨a', d', records, hopen, hh⟩ |
      ⟨e, d', hopen, hfree', hfaults⟩
    · simp only [hopen]
      exact .inl ⟨records, hh⟩
    · simp only [hopen]
      exact .inr ⟨ho, hfree', hfaults ▸ hr, hfaults ▸ hp⟩

/-- **What a run preserves.** -/
theorem Used.owns (h : Used directory id a d) : Owns id a d := by
  induction h with
  | opened h hr hp ho =>
    rcases h.opens_or_free hr hp with ⟨a', d'', records, hopen, hh⟩ | ⟨e, d'', hopen, -⟩
    · cases ho.symm.trans hopen
      exact .inl ⟨records, hh⟩
    · cases ho.symm.trans hopen
  | happened _ event ih => exact ih.happen event
  | device _ hr hp ih => exact ih.withFaults hr hp

/-- A refused call has changed nothing, of a handle that is open or closed. -/
theorem Owns.refused (h : Owns id a d) {e : StoreError}
    (he : (a.perform d now ctx call).1 = .error e) :
    (a.perform d now ctx call).2.1 = a ∧
      Disk.Touches [] d (a.perform d now ctx call).2.2 := by
  have still : (a.perform d now ctx call).2 = (a, d) →
      (a.perform d now ctx call).2.1 = a ∧
        Disk.Touches [] d (a.perform d now ctx call).2.2 := by
    intro hsame
    rw [hsame]
    exact ⟨rfl, .refl _ _⟩
  by_cases hc : call = .close
  · subst hc
    cases he
  cases hk : ctx.check now with
  | error e' => exact still (by rw [perform_of_check hk hc])
  | ok _ =>
    rcases h with ⟨records, hh⟩ | hclosed
    · exact hh.refused hk hc he
    · exact still (perform_of_none hclosed.1 d now ctx call)

end Used

end FileArchive

end ColdArchive
