import ColdArchive.Proofs.Files.Live
import ColdArchive.Proofs.Files.Records

/-!
# An archive in memory is a log of records

A log of records is what an archive is for its callers: the records, until it is closed. An archive
in memory that a crash left with tables of any lengths is such a log from its first call on. The
tables are cut to the log one after the other by the next append or truncation, or all by a repair,
and no answer tells whether that has happened yet.
-/

namespace ColdArchive

/-- The records of an archive, or none if it is closed. -/
abbrev RecordLog := Option (List Record)

namespace RecordLog

/-- The records that the blobs of five lists make, as many as the shortest list has blobs. -/
def ofTables (tables : ByCategory (List Blob)) : List Record :=
  (List.range (tables.map List.length).least).map fun n =>
    tables.map fun blobs => blobs.getD n []

/-- The answer of records to a call that is let through, and the log after it. -/
def answer (records : List Record) : Call → Outcome × RecordLog
  | .has _ number => (.ok (.truth (decide (number < records.length))), some records)
  | .read c number =>
    match records[number]? with
    | some record => (.ok (.blob (record.get c)), some records)
    | none => (.error (.notFound c number records.length), some records)
  | .count => (.ok (.number records.length), some records)
  | .size c => (.ok (.number (blobBytes (records.map fun record => record.get c))), some records)
  | .append number record =>
    if number = records.length then (.ok .done, some (records ++ [record]))
    else (.error (.outOfOrderAppend records.length number), some records)
  | .truncate target =>
    if target ≤ records.length then (.ok .done, some (records.take target))
    else (.error (.invalidTruncateTarget target records.length), some records)
  | .sync => (.ok .done, some records)
  | .close => (.ok .done, none)

/-- The answer of a log to a call, and the log after it. A close is never refused. -/
def perform (log : RecordLog) (now : Instant) (ctx : Context) : Call → Outcome × RecordLog
  | .close => (.ok .done, none)
  | call =>
    match ctx.check now, log with
    | .error e, _ => (.error e, log)
    | .ok _, none => (.error .closed, none)
    | .ok _, some records => answer records call

instance : Archive RecordLog where
  perform := perform

/-- The log after work. It has nothing that a repair could drop. -/
def ask (log : RecordLog) : Work → RecordLog
  | .call now ctx call => (log.perform now ctx call).2
  | .repair => log

section Answers

variable {log : RecordLog} {records : List Record} {now : Instant} {ctx : Context} {call : Call}

theorem length_ofTables (tables : ByCategory (List Blob)) :
    (ofTables tables).length = (tables.map List.length).least := by
  rw [ofTables, List.length_map, List.length_range]

/-- The first blobs of the lists are those of the records. -/
theorem columns_ofTables (tables : ByCategory (List Blob)) :
    columns (ofTables tables) = tables.aligned := by
  apply ByCategory.ext
  intro c
  have hle := (tables.map List.length).least_le c
  rw [ByCategory.get_map] at hle
  apply List.ext_getElem
  · rw [length_columns, length_ofTables, tables.length_aligned]
  · intro n hn _
    rw [length_columns, length_ofTables] at hn
    have hlt : n < (tables.get c).length := by omega
    simp [columns, ofTables, ByCategory.aligned, hlt]

theorem perform_of_check {e : StoreError} (h : ctx.check now = .error e) (hc : call ≠ .close) :
    log.perform now ctx call = (.error e, log) := by
  cases call <;> first | exact absurd rfl hc | simp only [perform, h]

theorem perform_none (h : ctx.IsLive now) (hc : call ≠ .close) :
    perform none now ctx call = (.error .closed, none) := by
  have h : ctx.check now = .ok () := h
  cases call <;> first | exact absurd rfl hc | simp only [perform, h]

theorem perform_some (h : ctx.IsLive now) (hc : call ≠ .close) :
    perform (some records) now ctx call = answer records call := by
  have h : ctx.check now = .ok () := h
  cases call <;> first | exact absurd rfl hc | simp only [perform, h]

end Answers

end RecordLog

/-- Blobs that are the same number in every category are those of records. -/
theorem FileState.Exact.columns {s : FileState} {blobs : ByCategory (List Blob)}
    (he : s.Exact blobs) :
    s.Exact (columns (RecordLog.ofTables blobs)) := by
  rwa [RecordLog.columns_ofTables, ByCategory.aligned_of_length he.length]

/-- Items were dropped if some list was longer than what is left. -/
theorem RepairReport.discarded_lengths {α : Type} (lists : ByCategory (List α)) (frozen : Nat) :
    RepairReport.discarded ⟨(lists.map List.length).toList, frozen⟩ = true ↔
      ∃ c, frozen < (lists.get c).length := by
  rw [discarded_iff]
  constructor
  · rintro ⟨n, hn, hlt⟩
    obtain ⟨c, -, rfl⟩ := List.mem_map.mp hn
    rw [ByCategory.get_map] at hlt
    exact ⟨c, hlt⟩
  · rintro ⟨c, hlt⟩
    refine ⟨_, ByCategory.get_mem_toList _ c, ?_⟩
    rwa [ByCategory.get_map]

namespace Memory

/-- The archive after work. -/
def ask (m : Memory) : Work → Memory
  | .call now ctx call => (m.perform now ctx call).2
  | .repair => m.repair.2

/-- An open archive that has the records, with blobs behind them in some tables but not in all. -/
structure Carries (m : Memory) (records : List Record) : Prop where
  unclosed : m.closed = false
  frozen : m.frozen = records.length
  aligned : m.tables.aligned = columns records

section Carries

variable {m : Memory} {records : List Record} {now : Instant} {ctx : Context} {call : Call}

theorem Has.carries (h : m.Has records) : m.Carries records where
  unclosed := h.unclosed
  frozen := h.frozen
  aligned := by rw [h.tables, ByCategory.aligned_of_length (length_columns records)]

theorem carries_ofTables (tables : ByCategory (List Blob)) :
    (ofTables tables).Carries (RecordLog.ofTables tables) where
  unclosed := rfl
  frozen := (RecordLog.length_ofTables tables).symm
  aligned := by rw [tables_ofTables, RecordLog.columns_ofTables]

theorem Carries.least (h : m.Carries records) :
    (m.tables.map List.length).least = records.length := by
  rw [← m.tables.length_aligned .hash, h.aligned, length_columns]

/-- The committed blobs are those of the records. -/
theorem Carries.take_frozen (h : m.Carries records) (c : Category) :
    (m.tables.get c).take m.frozen = (columns records).get c := by
  rw [← h.aligned, ByCategory.aligned, ByCategory.get_map, h.least, h.frozen]

theorem Carries.read (h : m.Carries records) (c : Category) (number : Nat) :
    m.read c number =
      match records[number]? with
      | some record => .ok (record.get c)
      | none => .error (.notFound c number records.length) := by
  unfold Memory.read
  rw [blobs_held, h.frozen]
  by_cases hn : records.length ≤ number
  · rw [List.getElem?_eq_none hn]
    simp only [if_pos hn]
  · have hlt : number < m.frozen := by
      rw [h.frozen]
      omega
    have hblob := getElem?_columns records c number
    rw [← h.take_frozen, List.getElem?_take_of_lt hlt] at hblob
    simp only [if_neg hn, hblob, List.getElem?_eq_getElem (Nat.lt_of_not_le hn), Option.map_some]

theorem Carries.size (h : m.Carries records) (c : Category) :
    m.size c = blobBytes (records.map fun record => record.get c) := by
  rw [size_eq_blobBytes, h.take_frozen, columns, ByCategory.get_ofFn]

/-- An append puts its record in place of whatever stands behind the records. -/
theorem Carries.push (h : m.Carries records) (record : Record) :
    (m.push record).Has (records ++ [record]) := by
  refine ⟨ByCategory.ext fun c => ?_, ?_, h.unclosed⟩
  · rw [tables_push, ByCategory.get_ofFn, h.take_frozen, columns_concat]
  · rw [List.length_append, ← h.frozen]
    rfl

/-- A truncation drops with the records whatever stands behind them. -/
theorem Carries.cut (h : m.Carries records) {target : Nat} (ht : target ≤ records.length) :
    (m.cut target).Has (records.take target) := by
  refine ⟨ByCategory.ext fun c => ?_, ?_, h.unclosed⟩
  · rw [tables_cut, ByCategory.get_map, columns_take, ← h.take_frozen, h.frozen, List.take_take,
      Nat.min_eq_left ht]
  · rw [List.length_take, Nat.min_eq_left ht]
    rfl

/-- A repair drops whatever stands behind the records. -/
theorem Carries.repair (h : m.Carries records) :
    m.repair = (.ok ⟨(m.tables.map List.length).toList, records.length⟩, m.cut records.length) ∧
      (m.cut records.length).Has records := by
  constructor
  · rw [repair_of_open h.unclosed, ← h.least]
    rfl
  · have hcut := h.cut (Nat.le_refl _)
    rwa [List.take_length] at hcut

/-- An open archive answers as its records do. What it wrote has no leftovers. -/
theorem Carries.answer (h : m.Carries records) (hc : call ≠ .close) :
    (m.answer call).1 = (RecordLog.answer records call).1 ∧
      ∃ records', (RecordLog.answer records call).2 = some records' ∧
        ((m.answer call).2 = m ∧ records' = records ∨
          (m.answer call).1 = .ok .done ∧ (m.answer call).2.Has records') := by
  cases call with
  | has c number =>
    rw [Memory.answer, h.frozen]
    exact ⟨rfl, records, rfl, .inl ⟨rfl, rfl⟩⟩
  | read c number =>
    rw [Memory.answer, h.read, RecordLog.answer]
    cases records[number]? <;> exact ⟨rfl, records, rfl, .inl ⟨rfl, rfl⟩⟩
  | count =>
    rw [Memory.answer, h.frozen]
    exact ⟨rfl, records, rfl, .inl ⟨rfl, rfl⟩⟩
  | size c =>
    rw [Memory.answer, h.size]
    exact ⟨rfl, records, rfl, .inl ⟨rfl, rfl⟩⟩
  | append number record =>
    rw [Memory.answer, RecordLog.answer, h.frozen]
    split
    · exact ⟨rfl, _, rfl, .inr ⟨rfl, h.push record⟩⟩
    · exact ⟨rfl, records, rfl, .inl ⟨rfl, rfl⟩⟩
  | truncate target =>
    rw [Memory.answer, RecordLog.answer, h.frozen]
    split
    · next ht => exact ⟨rfl, _, rfl, .inr ⟨rfl, h.cut ht⟩⟩
    · exact ⟨rfl, records, rfl, .inl ⟨rfl, rfl⟩⟩
  | sync => exact ⟨rfl, records, rfl, .inl ⟨rfl, rfl⟩⟩
  | close => exact absurd rfl hc

end Carries

/-! ### Runs -/

/-- The archive has the records of the log, or both are closed. -/
def Follows (m : Memory) : RecordLog → Prop
  | some records => m.Carries records
  | none => m.closed = true

/-- The archive is the log to all who call it or have it repaired. -/
structure ShowsLog (m : Memory) (log : RecordLog) : Prop where
  answer : ∀ now ctx call, (m.perform now ctx call).1 = (log.perform now ctx call).1
  /-- A refused call has changed nothing. -/
  refused : ∀ now ctx call e, (m.perform now ctx call).1 = .error e →
    (m.perform now ctx call).2 = m
  /-- After an append no table has anything behind the new record. -/
  appended : ∀ now ctx number record, (m.perform now ctx (.append number record)).1 = .ok .done →
    ∃ records, log = some records ∧ number = records.length ∧
      (m.perform now ctx (.append number record)).2.tables = columns (records ++ [record])
  /-- After a truncation no table has anything behind the records that were kept. -/
  truncated : ∀ now ctx target, (m.perform now ctx (.truncate target)).1 = .ok .done →
    ∃ records, log = some records ∧ target ≤ records.length ∧
      (m.perform now ctx (.truncate target)).2.tables = columns (records.take target)
  /-- A repair tells the lengths that the tables had and leaves them at the length of the log. -/
  repaired : ∀ records, log = some records → ∃ report, m.repair.1 = .ok report ∧
    report.lengths = (m.tables.map List.length).toList ∧ report.frozen = records.length ∧
      (report.discarded = true ↔ ∃ c, records.length < (m.tables.get c).length) ∧
      m.repair.2.tables = columns records
  /-- A repair of a closed archive is refused. -/
  closed : log = none → m.repair = (.error .closed, m)
  /-- No answer tells whether there was a repair. -/
  unseen : ∀ calls, (Archive.run m.repair.2 calls).1 = (Archive.run m calls).1

section Runs

variable {m : Memory} {log : RecordLog} {now : Instant} {ctx : Context} {call : Call}

/-- **What one call preserves**: the answer is that of the log. -/
theorem Follows.perform (h : m.Follows log) (now : Instant) (ctx : Context) (call : Call) :
    (m.perform now ctx call).1 = (log.perform now ctx call).1 ∧
      (m.perform now ctx call).2.Follows (log.perform now ctx call).2 := by
  by_cases hc : call = .close
  · subst hc
    exact ⟨rfl, m.closed_shut⟩
  cases hk : ctx.check now with
  | error e =>
    rw [perform_of_check hk hc, RecordLog.perform_of_check hk hc]
    exact ⟨rfl, h⟩
  | ok _ =>
    cases log with
    | none =>
      rw [perform_of_closed hk h hc, RecordLog.perform_none hk hc]
      exact ⟨rfl, h⟩
    | some records =>
      have h : m.Carries records := h
      rw [perform_of_live hk h.unclosed hc, RecordLog.perform_some hk hc]
      obtain ⟨ho, records', hlog, hm⟩ := h.answer hc
      refine ⟨ho, ?_⟩
      rw [hlog]
      rcases hm with ⟨hm, rfl⟩ | ⟨-, hm⟩
      · rw [hm]
        exact h
      · exact hm.carries

/-- **What a repair preserves**: the log is the same. -/
theorem Follows.repair (h : m.Follows log) : m.repair.2.Follows log := by
  cases log with
  | none =>
    rw [repair_of_closed h]
    exact h
  | some records =>
    obtain ⟨hr, hcut⟩ := Carries.repair h
    rw [hr]
    exact hcut.carries

/-- **What a run preserves.** -/
theorem Follows.asks (h : m.Follows log) (works : List Work) :
    (works.foldl ask m).Follows (works.foldl RecordLog.ask log) := by
  induction works generalizing m log with
  | nil => exact h
  | cons work works ih =>
    cases work with
    | call now ctx call => exact ih (h.perform now ctx call).2
    | repair => exact ih h.repair

/-- The answers of a run are those of the log. -/
theorem Follows.run (h : m.Follows log) (calls : List (Instant × Context × Call)) :
    (Archive.run m calls).1 = (Archive.run log calls).1 := by
  induction calls generalizing m log with
  | nil => rfl
  | cons c calls ih =>
    obtain ⟨now, ctx, call⟩ := c
    obtain ⟨ho, hn⟩ := h.perform now ctx call
    have hm : (Archive.run m ((now, ctx, call) :: calls)).1 =
        (m.perform now ctx call).1 :: (Archive.run (m.perform now ctx call).2 calls).1 := rfl
    have hlog : (Archive.run log ((now, ctx, call) :: calls)).1 =
        (log.perform now ctx call).1 :: (Archive.run (log.perform now ctx call).2 calls).1 := rfl
    rw [hm, hlog, ho, ih hn]

/-- A call that is granted was let through to an open archive. -/
theorem Follows.granted (h : m.Follows log) (hc : call ≠ .close) {reply : Reply}
    (ho : (m.perform now ctx call).1 = .ok reply) :
    ∃ records, log = some records ∧ m.Carries records ∧ m.perform now ctx call = m.answer call := by
  cases hk : ctx.check now with
  | error e =>
    rw [perform_of_check hk hc] at ho
    cases ho
  | ok _ =>
    cases log with
    | none =>
      rw [perform_of_closed hk h hc] at ho
      cases ho
    | some records =>
      have h : m.Carries records := h
      exact ⟨records, rfl, h, perform_of_live hk h.unclosed hc⟩

theorem Follows.showsLog (h : m.Follows log) : m.ShowsLog log where
  answer now ctx call := (h.perform now ctx call).1
  refused now ctx call e he := perform_unchanged (.inr ⟨e, he⟩)
  appended now ctx number record ho := by
    obtain ⟨records, hlog, hm, hp⟩ := h.granted (by simp) ho
    rw [hp, Memory.answer, hm.frozen] at ho ⊢
    split at ho
    · next hn =>
      refine ⟨records, hlog, hn, ?_⟩
      rw [if_pos hn]
      exact (hm.push record).tables
    · cases ho
  truncated now ctx target ho := by
    obtain ⟨records, hlog, hm, hp⟩ := h.granted (by simp) ho
    rw [hp, Memory.answer, hm.frozen] at ho ⊢
    split at ho
    · next ht =>
      refine ⟨records, hlog, ht, ?_⟩
      rw [if_pos ht]
      exact (hm.cut ht).tables
    · cases ho
  repaired records hlog := by
    subst hlog
    obtain ⟨hr, hcut⟩ := Carries.repair h
    rw [hr]
    exact ⟨_, rfl, rfl, rfl, RepairReport.discarded_lengths _ _, hcut.tables⟩
  closed hlog := by
    subst hlog
    exact repair_of_closed h
  unseen calls := by rw [h.repair.run, h.run]

/-- **An archive in memory is a log of records**, whatever tables a crash left. The log has the
records that the first blobs of the tables make, and from then on calls in any contexts and repairs
in any order are answered by it. -/
theorem showsLog_of_tables (tables : ByCategory (List Blob)) (works : List Work) :
    (works.foldl ask (ofTables tables)).ShowsLog
      (works.foldl RecordLog.ask (some (RecordLog.ofTables tables))) := by
  have start : (ofTables tables).Follows (some (RecordLog.ofTables tables)) :=
    carries_ofTables tables
  exact (start.asks works).showsLog

/-- A third hash and two bodies are left over. The size does not count them, an append drops
them. -/
example :
    let m := ofTables ⟨[[1], [2], [3]], [[], [4]], [[5], [6], [7], [8]], [[9], []], [[1], [1]]⟩
    m.size .body = 2 ∧ (m.push .empty).tables.get .body = [[5], [6], []] := by
  decide

end Runs

end Memory

end ColdArchive
