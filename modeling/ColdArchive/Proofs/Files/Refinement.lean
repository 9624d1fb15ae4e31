import ColdArchive.Proofs.Files.Exact
import ColdArchive.Proofs.Memory

/-!
# An archive in files is an archive in memory

A run of an archive in files consists of calls, repairs, changes of the limit on file sizes, and
reopenings. Its answers are those of the archive in memory, with one exception that depends on the
sizes alone: an append is refused where the record does not fit under the limit, and then it is as
if it had never been asked.
-/

namespace ColdArchive

/-- What can happen to an archive and to the device that it is on. -/
inductive Event where
  | call (now : Instant) (ctx : Context) (call : Call)
  | repair
  /-- From now on no file grows past the limit. -/
  | limit (limit : Nat)
  /-- The handle is dropped, whether it was closed or not, and the directory is opened again. -/
  | reopen

/-- What is learned from an event. -/
inductive Answer where
  | outcome (outcome : Outcome)
  | report (report : Except StoreError RepairReport)
  | silence
  | opened (result : Except StoreError Unit)

/-- The answers to a list of events, and the state after them. -/
def answers {σ : Type} (happen : σ → Event → Answer × σ) : σ → List Event → List Answer × σ
  | s, [] => ([], s)
  | s, event :: events =>
    let (answer, s) := happen s event
    let (rest, s) := answers happen s events
    (answer :: rest, s)

/-- The disk with a limit on file sizes. No file is ever longer than the greatest length. -/
def Disk.limited (d : Disk) (limit : Nat) : Disk :=
  { d with faults := .capped (min limit greatestLength) }

/-- What an event does to an archive in files and its disk. -/
def FileArchive.happen : FileArchive × Disk → Event → Answer × FileArchive × Disk
  | (a, d), .call now ctx call =>
    let (outcome, s) := a.perform d now ctx call
    (.outcome outcome, s)
  | (a, d), .repair =>
    let (report, s) := a.repair d
    (.report report, s)
  | (a, d), .limit limit => (.silence, a, d.limited limit)
  | (a, d), .reopen =>
    let (a, d) := a.release d
    match openAt a.directory d with
    | .ok a d => (.opened (.ok ()), a, d)
    | .error e d => (.opened (.error e), a, d)

/-- An archive in memory that goes by a limit on file sizes and can be reopened. -/
structure Reference where
  memory : Memory
  /-- The archive when it was last open. -/
  last : Memory
  limit : Nat

namespace Reference

/-- The archive without records. -/
def empty (limit : Nat) : Reference := ⟨.empty, .empty, min limit Disk.greatestLength⟩

/-- Goes on with another archive in memory. -/
def go (r : Reference) (m : Memory) : Reference :=
  { r with memory := m, last := if m.closed then r.last else m }

/-- The answer of the archive in memory, unless it accepts a record that does not fit: then nothing
has happened. -/
def perform (r : Reference) (now : Instant) (ctx : Context) (call : Call) : Outcome × Memory :=
  match call, r.memory.perform now ctx call with
  | .append _ record, (.ok reply, m) =>
    if record.Fits r.limit r.memory.tables then (.ok reply, m)
    else (.error (.io .tooLarge), r.memory)
  | _, result => result

/-- What an event does. -/
def happen (r : Reference) : Event → Answer × Reference
  | .call now ctx call =>
    let (outcome, m) := r.perform now ctx call
    (.outcome outcome, r.go m)
  | .repair =>
    let (report, m) := r.memory.repair
    (.report report, r.go m)
  | .limit limit => (.silence, { r with limit := min limit Disk.greatestLength })
  | .reopen => (.opened (.ok ()), { r with memory := r.last })

theorem perform_of_error {r : Reference} {now : Instant} {ctx : Context} {call : Call}
    {e : StoreError} {m : Memory} (h : r.memory.perform now ctx call = (.error e, m)) :
    r.perform now ctx call = (.error e, m) := by
  unfold perform
  rw [h]
  cases call <;> rfl

theorem perform_of_not_append {r : Reference} {now : Instant} {ctx : Context} {call : Call}
    (h : ∀ number record, call ≠ .append number record) :
    r.perform now ctx call = r.memory.perform now ctx call := by
  unfold perform
  cases call <;> first | exact absurd rfl (h _ _) | rfl

/-- **The reference is the archive in memory**, except where that accepts a record that does not
fit. -/
theorem perform_cases (r : Reference) (now : Instant) (ctx : Context) (call : Call) :
    r.perform now ctx call = r.memory.perform now ctx call ∨
      ∃ number record reply m, call = .append number record ∧
        r.memory.perform now ctx call = (.ok reply, m) ∧
        ¬ record.Fits r.limit r.memory.tables ∧
        r.perform now ctx call = (.error (.io .tooLarge), r.memory) := by
  by_cases ha : ∃ number record, call = .append number record
  · obtain ⟨number, record, rfl⟩ := ha
    cases hm : r.memory.perform now ctx (.append number record) with
    | mk outcome m =>
      cases outcome with
      | error e => exact .inl (perform_of_error hm)
      | ok reply =>
        by_cases hfit : record.Fits r.limit r.memory.tables
        · left
          simp only [perform, hm, if_pos hfit]
        · right
          refine ⟨number, record, reply, m, rfl, rfl, hfit, ?_⟩
          simp only [perform, hm, if_neg hfit]
  · left
    exact perform_of_not_append fun number record he => ha ⟨number, record, he⟩

end Reference

/-! ### The two side by side -/

namespace FileArchive

section Open

variable {s : FileState} {m : Memory} {limit : Nat}

/-- A state of open tables that has the blobs of the archive in memory, on a disk with a limit. -/
structure Matches (s : FileState) (m : Memory) (limit : Nat) : Prop where
  wired : s.Wired
  exact : s.Exact m.tables
  frozen : m.frozen = s.frozen
  unclosed : m.closed = false
  faults : s.disk.faults = .capped limit
  sized : ∀ c, blobBytes (m.tables.get c) ≤ Disk.greatestLength

/-- The result of work that answers with an outcome. -/
def result {α : Type} (outcome : Except StoreError α) (s : FileState) :
    EStateM.Result StoreError FileState α :=
  match outcome with
  | .ok reply => .ok reply s
  | .error e => .error e s

theorem Matches.length (h : Matches s m limit) (c : Category) :
    (m.tables.get c).length = m.frozen := (h.exact.length c).trans h.frozen.symm

theorem Matches.reports (h : Matches s m limit) : s.disk.faults.Reports :=
  h.faults ▸ FaultPlan.reports_capped limit

theorem Matches.obliging (h : Matches s m limit) : s.disk.faults.Obliging :=
  h.faults ▸ FaultPlan.obliging_capped limit

theorem Matches.follows (h : Matches s m limit) {s' : FileState} {m' : Memory} (hf : s.Follows s')
    (he : s'.Exact m'.tables) (hz : m'.frozen = s'.frozen) (hm : m'.closed = false)
    (hsize : ∀ c, blobBytes (m'.tables.get c) ≤ Disk.greatestLength) : Matches s' m' limit :=
  ⟨h.wired.of_follows hf, he, hz, hm, hf.disk.faults.trans h.faults, hsize⟩

/-- **An append to both.** -/
theorem Matches.append (h : Matches s m limit) (hb : limit ≤ Disk.greatestLength)
    (record : Record) :
    ∃ s', s.Follows s' ∧
      FileM.append s.frozen record s = result
        (if record.Fits limit m.tables then .ok () else .error (.io .tooLarge)) s' ∧
      Matches s' (if record.Fits limit m.tables then m.push record else m) limit := by
  obtain ⟨s', hf, ha, he⟩ := FileM.append_exact h.wired h.faults h.exact record
  refine ⟨s', hf, ?_, ?_⟩
  · rw [ha]
    split <;> rfl
  by_cases hfit : record.Fits limit m.tables
  · simp only [if_pos hfit] at ha he ⊢
    have htables : (m.push record).tables = m.tables.push record := by
      apply ByCategory.ext
      intro c
      rw [Memory.tables_push, ByCategory.push, ByCategory.get_ofFn, ByCategory.get_ofFn,
        ← h.length c, List.take_length]
    refine h.follows hf (htables ▸ he) ?_ h.unclosed ?_
    · rw [← he.length .hash, ByCategory.push, ByCategory.get_ofFn, List.length_append,
        h.length .hash]
      rfl
    · rw [htables]
      exact hfit.sized hb h.sized
  · simp only [if_neg hfit] at ha he ⊢
    exact h.follows hf he ((h.length .hash).symm.trans (he.length .hash)) h.unclosed h.sized

/-- **A truncation of both.** -/
theorem Matches.truncate (h : Matches s m limit) {target : Nat} (ht : target ≤ s.frozen) :
    ∃ s', s.Follows s' ∧ FileM.truncate target s = .ok () s' ∧ Matches s' (m.cut target) limit := by
  obtain ⟨s', ha, hf, he⟩ := FileM.truncate_trailing h.wired h.reports h.obliging h.exact.trails ht
  have htables := m.tables_cut target
  refine ⟨s', hf, ha, h.follows hf (htables ▸ he) ?_ h.unclosed ?_⟩
  · rw [← he.length .hash, ByCategory.get_map, List.length_take, h.exact.length .hash,
      Nat.min_eq_left ht]
    rfl
  · intro c
    rw [htables, ByCategory.get_map]
    exact Nat.le_trans (Table.blobBytes_take_le _ _) (h.sized c)

/-- **A repair of both.** -/
theorem Matches.repair (h : Matches s m limit) :
    ∃ s', s.Follows s' ∧ FileM.repair s = result m.repair.1 s' ∧ Matches s' m.repair.2 limit := by
  obtain ⟨s', ha, hf, he⟩ := FileM.repair_ofBlobs h.wired h.reports h.obliging h.exact.image
  rw [Memory.repair_of_open h.unclosed]
  have htables := m.tables_cut (leastCount (m.tables.map List.length).toList)
  have hexact : s'.Exact (m.cut (leastCount (m.tables.map List.length).toList)).tables := by
    rw [htables]
    exact he
  refine ⟨s', hf, ha, h.follows hf hexact ?_ h.unclosed ?_⟩
  · rw [← he.length .hash, m.tables.length_aligned]
    rfl
  · intro c
    rw [htables, ByCategory.get_map]
    exact Nat.le_trans (Table.blobBytes_take_le _ _) (h.sized c)

/-- **A call of both**, made of open archives. -/
theorem Matches.perform (h : Matches s m limit) (hb : limit ≤ Disk.greatestLength) {now : Instant}
    {ctx : Context} (hl : ctx.IsLive now) {call : Call} (hc : call ≠ .close) (last : Memory) :
    ∃ s', s.Follows s' ∧
      FileM.perform call s = result (Reference.perform ⟨m, last, limit⟩ now ctx call).1 s' ∧
      Matches s' (Reference.perform ⟨m, last, limit⟩ now ctx call).2 limit := by
  have hm := Memory.perform_of_live hl h.unclosed hc
  cases call with
  | has c number =>
    rw [Reference.perform_of_not_append (by simp), hm]
    refine ⟨s, .refl s, ?_, h⟩
    simp only [FileM.perform, bind_apply, get_apply, pure_apply, Memory.answer, result, h.frozen]
  | read c number =>
    rw [Reference.perform_of_not_append (by simp), hm]
    refine ⟨s, .refl s, ?_, h⟩
    simp only [FileM.perform, bind_apply, FileM.read_trailing h.exact.trails, Memory.answer,
      Memory.read_eq h.length, h.frozen]
    cases (m.tables.get c)[number]? <;> rfl
  | count =>
    rw [Reference.perform_of_not_append (by simp), hm]
    refine ⟨s, .refl s, ?_, h⟩
    simp only [FileM.perform, bind_apply, get_apply, pure_apply, Memory.answer, result, h.frozen]
  | size c =>
    rw [Reference.perform_of_not_append (by simp), hm]
    refine ⟨s, .refl s, ?_, h⟩
    simp only [FileM.perform, bind_apply, get_apply, pure_apply, Memory.answer, result,
      FileM.sizeAt_trailing h.exact.trails, Memory.size_eq h.length]
  | append number record =>
    by_cases hn : number = s.frozen
    · subst hn
      obtain ⟨s', hf, ha, hs'⟩ := h.append hb record
      have hr : Reference.perform ⟨m, last, limit⟩ now ctx (.append s.frozen record) =
          if record.Fits limit m.tables then (.ok .done, m.push record)
          else (.error (.io .tooLarge), m) := by
        simp only [Reference.perform, hm, Memory.answer, h.frozen, if_true]
      rw [hr]
      by_cases hfit : record.Fits limit m.tables
      · rw [if_pos hfit] at ha hs' ⊢
        refine ⟨s', hf, ?_, hs'⟩
        simp only [FileM.perform, bind_apply, ha, result, pure_apply]
      · rw [if_neg hfit] at ha hs' ⊢
        refine ⟨s', hf, ?_, hs'⟩
        simp only [FileM.perform, bind_apply, ha, result]
    · have hne : number ≠ m.frozen := by rw [h.frozen]; exact hn
      rw [Memory.answer, if_neg hne] at hm
      rw [Reference.perform_of_error hm]
      refine ⟨s, .refl s, ?_, h⟩
      simp only [FileM.perform, bind_apply, FileM.append_of_ne hn, result, h.frozen]
  | truncate target =>
    rw [Reference.perform_of_not_append (by simp), hm, Memory.answer, h.frozen]
    by_cases ht : target ≤ s.frozen
    · obtain ⟨s', hf, ha, hs'⟩ := h.truncate ht
      rw [if_pos ht]
      refine ⟨s', hf, ?_, hs'⟩
      simp only [FileM.perform, bind_apply, ha, pure_apply, result]
    · rw [if_neg ht]
      refine ⟨s, .refl s, ?_, h⟩
      simp only [FileM.perform, bind_apply, FileM.truncate_of_lt (Nat.lt_of_not_le ht), result]
  | sync =>
    rw [Reference.perform_of_not_append (by simp), hm]
    exact ⟨s, .refl s, rfl, h⟩
  | close => exact absurd rfl hc

end Open

/-- The archive in files stands where the reference stands: open with the blobs that the archive in
memory has, or closed with those that it had. -/
structure Mirrors (id : DirectoryId) (a : FileArchive) (d : Disk) (r : Reference) : Prop where
  faults : d.faults = .capped r.limit
  bound : r.limit ≤ Disk.greatestLength
  unclosed : r.last.closed = false
  length : ∀ c, (r.last.tables.get c).length = r.last.frozen
  sized : ∀ c, blobBytes (r.last.tables.get c) ≤ Disk.greatestLength
  handle : (r.memory = r.last ∧ ∃ o, a.Stands id o d ∧ (a.state o d).Exact r.last.tables) ∨
    (r.memory.closed = true ∧ a.opened = none ∧ Free a.directory id d ∧ Keeps id r.last.tables d)

section Mirrors

variable {id : DirectoryId} {a : FileArchive} {d : Disk} {o : OpenTables} {r : Reference}

theorem Mirrors.go_self (h : Mirrors id a d r) : r.go r.memory = r := by
  obtain ⟨m, last, limit⟩ := r
  rcases h.handle with ⟨hm, -⟩ | ⟨hm, -⟩
  · obtain rfl : m = last := hm
    have : m.closed = false := h.unclosed
    simp only [Reference.go, this, Bool.false_eq_true, if_false]
  · have : m.closed = true := hm
    simp only [Reference.go, this, if_true]

/-- An open handle is where the archive in memory is, as a matter of its tables. -/
theorem Mirrors.matches (h : Mirrors id a d r) (hs : a.Stands id o d)
    (he : (a.state o d).Exact r.last.tables) : Matches (a.state o d) r.last r.limit :=
  ⟨hs.wired, he, (h.length .hash).symm.trans (he.length .hash), h.unclosed, h.faults, h.sized⟩

/-- Work on an open handle leads to where the archive in memory is. -/
theorem Stands.mirrors (hs : a.Stands id o d) {s : FileState} (hf : (a.state o d).Follows s)
    {m : Memory} (hm : Matches s m r.limit) (hb : r.limit ≤ Disk.greatestLength) :
    Mirrors id (a.after o s) s.disk (r.go m) := by
  have hgo : r.go m = ⟨m, m, r.limit⟩ := by
    simp only [Reference.go, hm.unclosed, Bool.false_eq_true, if_false]
  rw [hgo]
  exact ⟨hm.faults, hb, hm.unclosed, hm.length, hm.sized,
    .inl ⟨rfl, _, hs.of_follows hf, ⟨hm.exact.image, hm.exact.length⟩⟩⟩

/-- Blobs that are open are kept when the handle is released. -/
theorem Stands.keeps (hs : a.Stands id o d) {blobs : ByCategory (List Blob)}
    (he : (a.state o d).Exact blobs) (hsize : ∀ c, blobBytes (blobs.get c) ≤ Disk.greatestLength) :
    Keeps id blobs d := by
  intro c
  have hi := (hs.located c).image_eq
  have hc : (o.tables.get c).image d = .ofBlobs (blobs.get c) := he.image c
  rw [hc, TableImage.ofBlobs, TableImage.mk.injEq] at hi
  refine ⟨Table.blobBytes_lt_wordLimit (hsize c), ?_⟩
  rw [← hi.2.1, ← hi.2.2]
  have := TableImage.ofBlobs_holds (blobs.get c)
  exact ⟨this.data, this.index, this.short⟩

/-- **A release of both.** -/
theorem Mirrors.release (h : Mirrors id a d r) :
    Mirrors id (a.release d).1 (a.release d).2 (r.go r.memory.shut) := by
  obtain ⟨m, last, limit⟩ := r
  rcases h.handle with ⟨hm, o, hs, he⟩ | ⟨hm, ho, -⟩
  · obtain rfl : m = last := hm
    have hshut := m.closed_shut
    have hk := hs.keeps he h.sized
    have hfree := hs.release
    rw [release_of_opened hs.opened] at hfree ⊢
    simp only [Reference.go, hshut, if_true]
    exact ⟨h.faults, h.bound, h.unclosed, h.length, h.sized, .inr ⟨hshut, rfl, hfree, hk⟩⟩
  · have hm : m.closed = true := hm
    have hshut : m.shut = m := by simp only [Memory.shut, hm, if_true]
    rw [release_of_closed ho]
    simp only [Reference.go, hshut, hm, if_true]
    exact h

/-- **A call of both.** -/
theorem Mirrors.perform (h : Mirrors id a d r) (now : Instant) (ctx : Context) (call : Call) :
    (a.perform d now ctx call).1 = (r.perform now ctx call).1 ∧
      Mirrors id (a.perform d now ctx call).2.1 (a.perform d now ctx call).2.2
        (r.go (r.perform now ctx call).2) := by
  by_cases hclose : call = .close
  · subst hclose
    rw [Reference.perform_of_not_append (by simp), Memory.perform_close]
    exact ⟨rfl, h.release⟩
  cases hc : ctx.check now with
  | error e =>
    rw [perform_of_check hc hclose, Reference.perform_of_error (Memory.perform_of_check hc hclose),
      h.go_self]
    exact ⟨rfl, h⟩
  | ok _ =>
    have hl : ctx.IsLive now := hc
    rw [perform_of_live hl hclose]
    rcases h.handle with ⟨hm, o, hs, he⟩ | ⟨hm, ho, -⟩
    · obtain ⟨s', hf, hp, hs'⟩ := (h.matches hs he).perform h.bound hl hclose r.last
      have hr : (⟨r.last, r.last, r.limit⟩ : Reference) = r := by
        conv => rhs; rw [show r = ⟨r.memory, r.last, r.limit⟩ from rfl, hm]
      rw [hr] at hp hs'
      rw [work_eq hs.opened, hp]
      have next := hs.mirrors (r := r) hf hs' h.bound
      cases hres : (r.perform now ctx call).1 with
      | ok reply => exact ⟨rfl, next⟩
      | error e => exact ⟨rfl, next⟩
    · rw [work_of_closed ho,
        Reference.perform_of_error (Memory.perform_of_closed hl hm hclose), h.go_self]
      exact ⟨rfl, h⟩

/-- **A repair of both.** -/
theorem Mirrors.repair (h : Mirrors id a d r) :
    (a.repair d).1 = r.memory.repair.1 ∧
      Mirrors id (a.repair d).2.1 (a.repair d).2.2 (r.go r.memory.repair.2) := by
  rcases h.handle with ⟨hm, o, hs, he⟩ | ⟨hm, ho, -⟩
  · obtain ⟨s', hf, hp, hs'⟩ := (h.matches hs he).repair
    rw [FileArchive.repair, work_eq hs.opened, hp, hm]
    have next := hs.mirrors (r := r) hf hs' h.bound
    cases hres : r.last.repair.1 with
    | ok report => exact ⟨rfl, next⟩
    | error e => exact ⟨rfl, next⟩
  · have hr : r.memory.repair = (.error .closed, r.memory) := by
      simp only [Memory.repair, hm, if_true]
    rw [FileArchive.repair, work_of_closed ho, hr, h.go_self]
    exact ⟨rfl, h⟩

/-- **A reopening of both.** -/
theorem Mirrors.reopen (h : Mirrors id a d r) :
    ∃ a' d', openAt (a.release d).1.directory (a.release d).2 = .ok a' d' ∧
      Mirrors id a' d' { r with memory := r.last } := by
  have hrel := h.release
  have hlimit : (r.go r.memory.shut).limit = r.limit := rfl
  have hclosed := r.memory.closed_shut
  have hlast : (r.go r.memory.shut).last = r.last := by
    simp only [Reference.go, hclosed, if_true]
  have hreports : (a.release d).2.faults.Reports := hrel.faults ▸ FaultPlan.reports_capped _
  have hobliging : (a.release d).2.faults.Obliging := hrel.faults ▸ FaultPlan.obliging_capped _
  rcases hrel.handle with ⟨hm, -⟩ | ⟨-, -, hfree, hkeeps⟩
  · have hopen := hrel.unclosed
    rw [← hm] at hopen
    exact absurd (hclosed.symm.trans hopen) (by decide)
  · obtain ⟨a', o, d', ho, -, hs, he, ht⟩ := openAt_of_keeps hfree hreports hobliging hkeeps
    rw [hlast, ByCategory.aligned_of_length h.length] at he
    exact ⟨a', d', ho, (ht.faults.trans hrel.faults).trans (by rw [hlimit]), h.bound, h.unclosed,
      h.length, h.sized, .inl ⟨rfl, o, hs, he⟩⟩

/-- **A new limit for both.** -/
theorem Mirrors.limited (h : Mirrors id a d r) (limit : Nat) :
    Mirrors id a (d.limited limit) { r with limit := min limit Disk.greatestLength } := by
  refine ⟨rfl, Nat.min_le_right _ _, h.unclosed, h.length, h.sized, ?_⟩
  rcases h.handle with ⟨hm, o, hs, he⟩ | ⟨hm, ho, hfree, hk⟩
  · exact .inl ⟨hm, o, hs.withFaults _, ⟨he.image, he.length⟩⟩
  · exact .inr ⟨hm, ho, hfree.withFaults _, hk⟩

/-- **What one event preserves**: both answer the same, and stay side by side. -/
theorem Mirrors.happen (h : Mirrors id a d r) (event : Event) :
    (FileArchive.happen (a, d) event).1 = (r.happen event).1 ∧
      Mirrors id (FileArchive.happen (a, d) event).2.1 (FileArchive.happen (a, d) event).2.2
        (r.happen event).2 := by
  cases event with
  | call now ctx call =>
    obtain ⟨ho, hn⟩ := h.perform now ctx call
    exact ⟨congrArg Answer.outcome ho, hn⟩
  | repair =>
    obtain ⟨ho, hn⟩ := h.repair
    exact ⟨congrArg Answer.report ho, hn⟩
  | limit limit => exact ⟨rfl, h.limited limit⟩
  | reopen =>
    obtain ⟨a', d', ho, hn⟩ := h.reopen
    simp only [FileArchive.happen, ho]
    exact ⟨rfl, hn⟩

/-- **What a run preserves**: all answers are the same. -/
theorem Mirrors.answers (h : Mirrors id a d r) (events : List Event) :
    (answers FileArchive.happen (a, d) events).1 = (answers Reference.happen r events).1 := by
  induction events generalizing a d r with
  | nil => rfl
  | cons event events ih =>
    obtain ⟨ho, hn⟩ := h.happen event
    simp only [ColdArchive.answers]
    rw [ho, ih hn]

end Mirrors

/-- **The archive in files refines the archive in memory.** It opens on an empty directory, and
whatever happens from then on, calls in any contexts, repairs, new limits on file sizes, reopenings,
its answers are those of the archive in memory that refuses what does not fit. -/
theorem run_refines {directory : String} {id : DirectoryId} {d : Disk}
    (h : Vacant directory id d) (limit : Nat) (events : List Event) :
    ∃ a d', openAt directory (d.limited limit) = .ok a d' ∧
      (answers FileArchive.happen (a, d') events).1
        = (answers Reference.happen (.empty limit) events).1 := by
  have hlimited : Vacant directory id (d.limited limit) := h.withFaults _
  obtain ⟨a, o, d', ho, hs, he, hfaults⟩ := hlimited.opens (FaultPlan.reports_capped _)
    (FaultPlan.obliging_capped _)
  have start : Mirrors id a d' (.empty limit) := by
    refine ⟨hfaults, Nat.min_le_right _ _, rfl, ?_, ?_, .inl ⟨rfl, o, hs, he⟩⟩
    · intro c
      show (Memory.empty.tables.get c).length = 0
      rw [Memory.get_tables_empty]
      rfl
    · intro c
      show blobBytes (Memory.empty.tables.get c) ≤ _
      rw [Memory.get_tables_empty]
      exact Nat.zero_le _
  exact ⟨a, d', ho, start.answers events⟩

/-- An append that the limit refuses, and the run that goes on after it. -/
theorem run_refines_past_limit :
    ∃ a d', openAt "." (Disk.empty.limited 100) = .ok a d' ∧
      (answers happen (a, d') [.call 0 .background (.append 0 .empty), .limit 8,
        .call 0 .background (.append 1 .empty), .limit 100, .repair,
        .call 0 .background (.append 1 .empty), .call 0 .background .close,
        .call 0 .background .count, .reopen, .call 0 .background .count]).1 =
      [.outcome (.ok .done), .silence, .outcome (.error (.io .tooLarge)), .silence,
        .report (.ok ⟨[1, 1, 1, 1, 1], 1⟩), .outcome (.ok .done), .outcome (.ok .done),
        .outcome (.error .closed), .opened (.ok ()), .outcome (.ok (.number 2))] := by
  obtain ⟨a, d', ho, h⟩ := run_refines vacant_emptyDisk 100
    [.call 0 .background (.append 0 .empty), .limit 8,
      .call 0 .background (.append 1 .empty), .limit 100, .repair,
      .call 0 .background (.append 1 .empty), .call 0 .background .close,
      .call 0 .background .count, .reopen, .call 0 .background .count]
  exact ⟨a, d', ho, h.trans rfl⟩

end FileArchive

end ColdArchive
