import ColdArchive.Proofs.Files.Restart
import ColdArchive.Proofs.RecordLog

/-!
# Bytes that others add to the files

Somebody else may add bytes to the files of an open archive at any time. The archive reads and
writes by the ends that it has in hand, so that these bytes stand behind the last record and are
never part of one; whatever writes to the tables drops them.
-/

namespace ColdArchive

/-! ### Tables with something behind their blobs -/

namespace FileM

open FileState

variable {s : FileState} {blobs : ByCategory (List Blob)}

theorem not_refuses_reliable (change : Change) : ¬ FaultPlan.reliable.Refuses change := by
  rintro ⟨i, stored, h⟩
  cases h

/-- **An append puts its record right behind the others** on a device that does all it is asked. -/
theorem append_trailing (hw : s.Wired) (hd : s.disk.faults = .reliable) (ht : s.Trails blobs)
    (record : Record) :
    ∃ s', append s.frozen record s = .ok () s' ∧ s.Follows s' ∧ s'.Exact (blobs.push record) := by
  have hr : s.disk.faults.Reports := hd ▸ FaultPlan.reports_reliable
  have hitems : ∀ c, s.frozen ≤ (s.image c).ends.length := by
    intro c
    rw [← ht.length c]
    exact (ht.begins c).length_le
  have hends := append_ends hw hr.serial hitems record
  generalize append s.frozen record s = r at hends
  cases hends with
  | done h =>
    obtain ⟨s₁, hs₁, rfl⟩ := h
    refine ⟨_, rfl, ⟨hs₁.wiring, hs₁.disk⟩, ?_, ?_⟩
    · intro c
      have hi := hs₁.image c
      rw [if_pos (Category.mem_all c), ← ht.length c, (ht.begins c).extended_eq] at hi
      rw [ByCategory.push, ByCategory.get_ofFn]
      exact hi
    · intro c
      rw [ByCategory.push, ByCategory.get_ofFn, List.length_append, ht.length c]
      rfl
  | failed h =>
    obtain ⟨cs, s₁, hs₁, -⟩ := h
    obtain ⟨c, change, -, hx⟩ := hs₁.refused
    rw [hd] at hx
    exact absurd hx (not_refuses_reliable change)
  | lost dead h => exact absurd dead (FaultPlan.Reports.not_dead (h.disk.faults ▸ hr))

/-- **A repair drops what stands behind the blobs.** -/
theorem repair_trailing (hw : s.Wired) (hr : s.disk.faults.Reports) (hp : s.disk.faults.Obliging)
    (ht : s.Trails blobs) :
    ∃ s', repair s = .ok ⟨(blobs.map List.length).toList, s.frozen⟩ s' ∧ s.Follows s' ∧
      s'.Exact blobs := by
  have hleast : leastCount (blobs.map List.length).toList = s.frozen :=
    ByCategory.least_of_length ht.length
  rw [repair_eq, lengths_eq ht.ends, hleast]
  obtain ⟨s', hs', hf, hz, hi⟩ := cutTables_begins (s := { s with frozen := s.frozen })
    ⟨hw.table, hw.apart⟩ hr hp blobs ht.begins ht.length Category.all
  refine ⟨s', by rw [hs'], ⟨hf.wiring, hf.disk⟩, ?_, ?_⟩
  · intro c
    rw [hi c, if_pos (Category.mem_all c)]
  · intro c
    rw [hz, ht.length c]

/-- **Open tables answer as their records do**, and a call that wrote to them leaves nothing behind
the records. -/
theorem perform_trailing (hw : s.Wired) (hd : s.disk.faults = .reliable) {records : List Record}
    (ht : s.Trails (columns records)) {call : Call} (hc : call ≠ .close) :
    ∃ s' records', FileM.perform call s = FileArchive.result (RecordLog.answer records call).1 s' ∧
      (RecordLog.answer records call).2 = some records' ∧ s.Follows s' ∧
      s'.Trails (columns records') ∧
      ∀ reply, call.Changes → (RecordLog.answer records call).1 = .ok reply →
        s'.Exact (columns records') := by
  have hr : s.disk.faults.Reports := hd ▸ FaultPlan.reports_reliable
  have hp : s.disk.faults.Obliging := hd ▸ FaultPlan.obliging_reliable
  have hz : s.frozen = records.length :=
    (ht.length .hash).symm.trans (length_columns records .hash)
  cases call with
  | has c n =>
    refine ⟨s, records, ?_, rfl, .refl s, ht, fun _ hx => absurd hx id⟩
    rw [RecordLog.answer, ← hz]
    rfl
  | read c n =>
    cases hn : records[n]? with
    | none =>
      refine ⟨s, records, ?_, by simp only [RecordLog.answer, hn], .refl s, ht,
        fun _ hx => absurd hx id⟩
      simp only [FileM.perform, bind_apply, read_trailing ht, getElem?_columns, hn, hz,
        Option.map_none, FileArchive.result, RecordLog.answer]
    | some record =>
      refine ⟨s, records, ?_, by simp only [RecordLog.answer, hn], .refl s, ht,
        fun _ hx => absurd hx id⟩
      simp only [FileM.perform, bind_apply, read_trailing ht, getElem?_columns, hn,
        Option.map_some, pure_apply, FileArchive.result, RecordLog.answer]
  | count =>
    refine ⟨s, records, ?_, rfl, .refl s, ht, fun _ hx => absurd hx id⟩
    rw [RecordLog.answer, ← hz]
    rfl
  | size c =>
    refine ⟨s, records, ?_, rfl, .refl s, ht, fun _ hx => absurd hx id⟩
    have hsize := sizeAt_trailing ht c
    rw [columns, ByCategory.get_ofFn] at hsize
    rw [RecordLog.answer, ← hsize]
    rfl
  | append n record =>
    by_cases hn : n = s.frozen
    · obtain ⟨s', ha, hf, he⟩ := append_trailing hw hd ht record
      rw [push_columns] at he
      rw [hz] at hn
      refine ⟨s', records ++ [record], ?_, ?_, hf, he.trails, fun _ _ _ => he⟩
      · rw [RecordLog.answer, if_pos hn, hn, ← hz]
        simp only [FileM.perform, bind_apply, ha, pure_apply, FileArchive.result]
      · rw [RecordLog.answer, if_pos hn]
    · have hn' : n ≠ records.length := hz ▸ hn
      refine ⟨s, records, ?_, ?_, .refl s, ht, fun _ _ ho => ?_⟩
      · rw [RecordLog.answer, if_neg hn', ← hz]
        simp only [FileM.perform, bind_apply, append_of_ne hn, FileArchive.result]
      · rw [RecordLog.answer, if_neg hn']
      · rw [RecordLog.answer, if_neg hn'] at ho
        cases ho
  | truncate target =>
    by_cases hle : target ≤ s.frozen
    · obtain ⟨s', ha, hf, he⟩ := truncate_trailing hw hr hp ht hle
      rw [map_take_columns] at he
      rw [hz] at hle
      refine ⟨s', records.take target, ?_, ?_, hf, he.trails, fun _ _ _ => he⟩
      · rw [RecordLog.answer, if_pos hle]
        simp only [FileM.perform, bind_apply, ha, pure_apply, FileArchive.result]
      · rw [RecordLog.answer, if_pos hle]
    · have hle' : ¬ target ≤ records.length := hz ▸ hle
      refine ⟨s, records, ?_, ?_, .refl s, ht, fun _ _ ho => ?_⟩
      · rw [RecordLog.answer, if_neg hle', ← hz]
        simp only [FileM.perform, bind_apply, truncate_of_lt (Nat.lt_of_not_le hle),
          FileArchive.result]
      · rw [RecordLog.answer, if_neg hle']
      · rw [RecordLog.answer, if_neg hle'] at ho
        cases ho
  | sync => exact ⟨s, records, rfl, rfl, .refl s, ht, fun _ hx => absurd hx id⟩
  | close => exact absurd rfl hc

end FileM

/-! ### Bytes from outside -/

namespace Disk

/-- Bytes were added to some of the files. -/
structure Tailed (ids : List FileId) (d d' : Disk) : Prop extends Touches ids d d' where
  begins : ∀ f, d.bytes f <+: d'.bytes f

/-- **Bytes are added to a file by its path.** -/
theorem extendFile_tailed {d : Disk} {p : Path} {id : DirectoryId} {name : String} {f : FileId}
    (h : d.Reaches p id) (hn : IsFileName name) (hr : (p.child name).refusal? = none)
    (hf : d.find? ⟨id, name⟩ = some (.file f)) (hv : f < d.contents.length)
    (hd : d.faults = .reliable) (bytes : Bytes) :
    ∃ d', extendFile (p.child name) bytes d = .ok () d' ∧ Tailed [f] d d' ∧
      d'.bytes f = d.bytes f ++ bytes := by
  have hwrite : extendFile (p.child name) bytes d = writeAt f (d.bytes f).length bytes d := by
    rw [← length_content]
    simp only [extendFile, bind_apply, get_apply, fileAt, locate_child h hn hr, ok_bind, hf,
      pure_eq_ok, Bool.false_eq_true, if_false, attempt, pure_apply, Disk.length]
  rw [hwrite]
  by_cases hb : bytes = []
  · subst hb
    exact ⟨d, rfl, ⟨.refl _ d, fun _ => List.prefix_rfl⟩, (List.append_nil _).symm⟩
  · have hfit : Bytes.splice (d.bytes f) (d.bytes f).length bytes = d.bytes f ++ bytes := by
      have hall : Bytes.fit (d.bytes f) (d.bytes f).length = d.bytes f := by
        rw [Bytes.fit_of_le (Nat.le_refl _), List.take_length]
      have hsplice := Bytes.splice_fit (d.bytes f) bytes (d.bytes f).length
      rwa [hall] at hsplice
    have hnew := (bytes_splice hv (d.bytes f).length bytes).trans hfit
    have htouch : Touches [f] d
        (d.asked.setContent f ((d.content f).splice (d.bytes f).length bytes)) :=
      ((touches_asked d).mono (by simp)).trans (touches_setContent _ _ _)
    have hreliable : d.faults d.changes (.write (d.bytes f).length bytes.length) = .done := by
      rw [hd]
      rfl
    refine ⟨_, by rw [writeAt_eq hb, hreliable], ⟨htouch, ?_⟩, hnew⟩
    intro g
    by_cases hg : g = f
    · subst hg
      rw [hnew]
      exact List.prefix_append _ _
    · simp only [htouch.rest g (by simpa using hg), List.prefix_rfl]

end Disk

/-- A file of a table. -/
inductive TableFile where
  | data (c : Category)
  | index (c : Category)

/-- The name of the file. -/
def TableFile.name : TableFile → String
  | data c => c.dataName
  | index c => c.indexName

/-- The bytes of the file in an archive of the records. -/
def TableFile.bytes (records : List Record) : TableFile → Bytes
  | data c => ((columns records).get c).flatten
  | index c => Table.indexOf (Table.endsOf ((columns records).get c))

theorem TableFile.name_mem (file : TableFile) : file.name ∈ FileArchive.names := by
  cases file with
  | data c => exact FileArchive.dataName_mem c
  | index c => exact FileArchive.indexName_mem c

/-- What happens to an open archive that others write to. -/
inductive Intrusion where
  | work (work : Work)
  /-- Somebody adds bytes to a file of a table. -/
  | tail (file : TableFile) (bytes : Bytes)

/-- The work among what happens. -/
def Intrusion.work? : Intrusion → Option Work
  | work w => some w
  | tail .. => none

/-- The work writes to the tables if it succeeds, and it did. -/
def Work.Wrote : Work → Answer → Prop
  | .call _ _ (.append ..), .outcome (.ok _) => True
  | .call _ _ (.truncate _), .outcome (.ok _) => True
  | .repair, .report (.ok _) => True
  | _, _ => False

/-- What a log learns from work. -/
def RecordLog.reply (log : RecordLog) : Work → Answer
  | .call now ctx call => .outcome (log.perform now ctx call).1
  | .repair =>
    match log with
    | some records => .report (.ok ⟨((columns records).map List.length).toList, records.length⟩)
    | none => .report (.error .closed)

namespace FileArchive

/-- What is learned from work. -/
def reply : FileArchive × Disk → Work → Answer
  | (a, d), .call now ctx call => .outcome (a.perform d now ctx call).1
  | (a, d), .repair => .report (a.repair d).1

/-- The archive and its disk after what happened. -/
def suffer : FileArchive × Disk → Intrusion → FileArchive × Disk
  | s, .work work => ask s work
  | (a, d), .tail file bytes =>
    (a, finalState (Disk.extendFile ((Path.ofText a.directory).child file.name) bytes d))

/-- The archive is open with the records, and something may stand behind them in its files. -/
structure Trails (id : DirectoryId) (a : FileArchive) (d : Disk) (records : List Record) :
    Prop where
  opened : ∃ o, a.Stands id o d ∧ (a.state o d).Trails (columns records)
  reliable : d.faults = .reliable

/-- The archive has the records of the log, or both are closed. -/
def FollowsLog (id : DirectoryId) (a : FileArchive) (d : Disk) : RecordLog → Prop
  | some records => Trails id a d records
  | none => a.opened = none

section Trails

variable {id : DirectoryId} {a : FileArchive} {o : OpenTables} {d : Disk} {records : List Record}
  {log : RecordLog}

theorem Stands.stored_bytes (hs : a.Stands id o d) (he : (a.state o d).Exact (columns records))
    (file : TableFile) : d.stored ⟨id, file.name⟩ = file.bytes records := by
  cases file with
  | data c => exact (hs.stored_eq he c).1
  | index c => exact (hs.stored_eq he c).2

/-- Work on an open handle, and the records that it has then. -/
theorem Trails.of_work {α : Type} (hs : a.Stands id o d) (hd : d.faults = .reliable)
    {work : FileM α} {outcome : Except StoreError α} {s : FileState}
    (hwork : work (a.state o d) = result outcome s) (hf : (a.state o d).Follows s)
    (ht : s.Trails (columns records)) :
    a.work d work = (outcome, a.after o s, s.disk) ∧ Trails id (a.after o s) s.disk records := by
  have hfaults : s.disk.faults = d.faults := hf.disk.faults
  refine ⟨?_, ⟨⟨_, hs.of_follows hf, ht.ends, ht.begins, ht.length⟩, hfaults.trans hd⟩⟩
  rw [work_eq hs.opened, hwork]
  cases outcome <;> rfl

/-- **An archive answers as its records do** when something stands behind them. -/
theorem Trails.perform (h : Trails id a d records) {now : Instant} {ctx : Context}
    (hl : ctx.IsLive now) {call : Call} (hc : call ≠ .close) :
    (a.perform d now ctx call).1 = (RecordLog.answer records call).1 ∧
      ∃ records', (RecordLog.answer records call).2 = some records' ∧
        Trails id (a.perform d now ctx call).2.1 (a.perform d now ctx call).2.2 records' ∧
        ∀ reply, call.Changes → (RecordLog.answer records call).1 = .ok reply →
          ∀ file : TableFile,
            (a.perform d now ctx call).2.2.stored ⟨id, file.name⟩ = file.bytes records' := by
  obtain ⟨o, hs, ht⟩ := h.opened
  obtain ⟨s, records', hwork, hlog, hf, ht', he⟩ := FileM.perform_trailing hs.wired h.reliable ht hc
  obtain ⟨hw, hh⟩ := Trails.of_work hs h.reliable hwork hf ht'
  rw [perform_of_live hl hc, hw]
  refine ⟨rfl, records', hlog, hh, ?_⟩
  intro reply hchanges ho
  exact (hs.of_follows hf).stored_bytes (he reply hchanges ho)

/-- **A repair finds the records**, and leaves nothing behind them. -/
theorem Trails.repair (h : Trails id a d records) :
    (a.repair d).1 = .ok ⟨((columns records).map List.length).toList, records.length⟩ ∧
      Trails id (a.repair d).2.1 (a.repair d).2.2 records ∧
      ∀ file : TableFile, (a.repair d).2.2.stored ⟨id, file.name⟩ = file.bytes records := by
  obtain ⟨o, hs, ht⟩ := h.opened
  have hz : (a.state o d).frozen = records.length :=
    (ht.length .hash).symm.trans (length_columns records .hash)
  obtain ⟨s, hrepair, hf, he⟩ := FileM.repair_trailing hs.wired
    (h.reliable ▸ FaultPlan.reports_reliable) (h.reliable ▸ FaultPlan.obliging_reliable) ht
  rw [hz] at hrepair
  have hresult : FileM.repair (a.state o d) = result (.ok _) s := hrepair
  obtain ⟨hw, hh⟩ := Trails.of_work hs h.reliable hresult hf he.trails
  rw [FileArchive.repair, hw]
  exact ⟨rfl, hh, (hs.of_follows hf).stored_bytes he⟩

/-- **Bytes that were added stand behind the records.** -/
theorem Trails.tail (h : Trails id a d records) (file : TableFile) (bytes : Bytes) :
    ∃ d', Disk.extendFile ((Path.ofText a.directory).child file.name) bytes d = .ok () d' ∧
      d'.stored ⟨id, file.name⟩ = d.stored ⟨id, file.name⟩ ++ bytes ∧ Trails id a d' records := by
  obtain ⟨o, hs, ht⟩ := h.opened
  obtain ⟨f, hfind, hmem⟩ : ∃ f, d.find? ⟨id, file.name⟩ = some (.file f) ∧
      f ∈ (a.state o d).files := by
    cases file with
    | data c => exact ⟨_, (hs.located c).data, FileState.mem_files (c := c) (by simp [state])⟩
    | index c => exact ⟨_, (hs.located c).index, FileState.mem_files (c := c) (by simp [state])⟩
  obtain ⟨d', hextend, htailed, hbytes⟩ := Disk.extendFile_tailed hs.shelf.reaches
    (isFileName_of_mem _ file.name_mem) (hs.shelf.allowed _ file.name_mem) hfind
    (hs.shelf.lt_of_find file.name_mem hfind) h.reliable bytes
  have hf : (a.state o d).Follows (a.state o d') :=
    ⟨fun _ => rfl, htailed.toTouches.mono (by simpa using hmem)⟩
  have hstands := hs.of_follows hf
  rw [after_self hs.opened rfl rfl] at hstands
  refine ⟨d', hextend, ?_, ⟨⟨o, hstands, ht.ends, ?_, ht.length⟩,
    htailed.faults.trans h.reliable⟩⟩
  · rw [Disk.stored_of_file ((htailed.find? _).trans hfind), Disk.stored_of_file hfind, hbytes]
  · intro c
    have hb := ht.begins c
    exact ⟨hb.ends, hb.data.trans (htailed.begins _), hb.index.trans (htailed.begins _)⟩

/-! ### Runs -/

/-- **What work preserves**: the reply is that of the log, and work that wrote to the tables left
nothing behind the records. -/
theorem FollowsLog.ask (h : FollowsLog id a d log) (work : Work) :
    reply (a, d) work = log.reply work ∧
      FollowsLog id (FileArchive.ask (a, d) work).1 (FileArchive.ask (a, d) work).2
        (log.ask work) ∧
      (work.Wrote (log.reply work) → ∃ records, log.ask work = some records ∧
        ∀ file : TableFile,
          (FileArchive.ask (a, d) work).2.stored ⟨id, file.name⟩ = file.bytes records) := by
  cases work with
  | repair =>
    cases log with
    | none =>
      have hclosed : a.repair d = (.error .closed, a, d) := work_of_closed h d _
      simp only [reply, FileArchive.ask, hclosed]
      exact ⟨rfl, h, fun hw => hw.elim⟩
    | some records =>
      obtain ⟨hr, hh, hbytes⟩ := Trails.repair h
      simp only [reply, hr]
      exact ⟨rfl, hh, fun _ => ⟨records, rfl, hbytes⟩⟩
  | call now ctx call =>
    by_cases hc : call = .close
    · subst hc
      exact ⟨rfl, opened_release a d, fun hw => hw.elim⟩
    cases hk : ctx.check now with
    | error e =>
      simp only [reply, FileArchive.ask, RecordLog.reply, RecordLog.ask, perform_of_check hk hc,
        RecordLog.perform_of_check hk hc]
      refine ⟨trivial, h, fun hw => ?_⟩
      cases call <;> exact hw.elim
    | ok _ =>
      cases log with
      | none =>
        have hclosed : a.perform d now ctx call = (.error .closed, a, d) := by
          rw [perform_of_live hk hc, work_of_closed h]
        simp only [reply, FileArchive.ask, RecordLog.reply, RecordLog.ask, hclosed,
          RecordLog.perform_none hk hc]
        refine ⟨trivial, h, fun hw => ?_⟩
        cases call <;> exact hw.elim
      | some records =>
        obtain ⟨ho, records', hlog, hh, hbytes⟩ := Trails.perform h hk hc
        simp only [reply, FileArchive.ask, RecordLog.reply, RecordLog.ask,
          RecordLog.perform_some hk hc, ho, hlog]
        refine ⟨trivial, hh, fun hw => ⟨records', rfl, ?_⟩⟩
        cases hok : (RecordLog.answer records call).1 with
        | error e =>
          rw [hok] at hw
          cases call <;> exact hw.elim
        | ok reply =>
          refine hbytes reply ?_ hok
          rw [hok] at hw
          cases call <;> trivial

/-- **What an intrusion preserves**: the log is the same. -/
theorem FollowsLog.suffer (h : FollowsLog id a d log) (event : Intrusion) :
    FollowsLog id (FileArchive.suffer (a, d) event).1 (FileArchive.suffer (a, d) event).2
      (event.work?.elim log log.ask) := by
  cases event with
  | work work => exact (h.ask work).2.1
  | tail file bytes =>
    cases log with
    | none => exact h
    | some records =>
      obtain ⟨d', hextend, -, hh⟩ := Trails.tail h file bytes
      simp only [FileArchive.suffer, hextend]
      exact hh

/-- **What a run preserves**: the log is that of the work alone. -/
theorem FollowsLog.run (h : FollowsLog id a d log) (events : List Intrusion) :
    FollowsLog id (events.foldl FileArchive.suffer (a, d)).1
      (events.foldl FileArchive.suffer (a, d)).2
      ((events.filterMap Intrusion.work?).foldl RecordLog.ask log) := by
  induction events generalizing a d log with
  | nil => exact h
  | cons event events ih =>
    have hnext := ih (h.suffer event)
    cases event with
    | work work => exact hnext
    | tail file bytes => exact hnext

end Trails

/-- **What others add to the files never gets into records.** An archive is opened on a device that
does all it is asked, and from then on bytes are added to any of its files at any time. Whatever
work is asked, the reply is the same as without these bytes, and after work that wrote to the tables
all ten files are the same, too. -/
theorem tails_leave_no_trace {directory : String} {id : DirectoryId} {d : Disk}
    (h : Free directory id d) (hd : d.faults = .reliable) {a : FileArchive} {d' : Disk}
    (ho : openAt directory d = .ok a d') (events : List Intrusion) (work : Work) :
    let after := events.foldl suffer (a, d')
    let alone := (events.filterMap Intrusion.work?).foldl ask (a, d')
    reply after work = reply alone work ∧
      (work.Wrote (reply after work) → ∀ file : TableFile,
        (ask after work).2.stored ⟨id, file.name⟩ = (ask alone work).2.stored ⟨id, file.name⟩) := by
  intro after alone
  have start : ∃ records, FollowsLog id a d' (some records) := by
    rcases h.openAt_eq_found (hd ▸ FaultPlan.reports_reliable) (hd ▸ FaultPlan.obliging_reliable)
      with ⟨e, d'', -, hopen⟩ | ⟨blobs, a', o, d'', -, hopen, -, hs, he, ht⟩
    · cases ho.symm.trans hopen
    · cases ho.symm.trans hopen
      exact ⟨_, ⟨o, hs, he.columns.trails⟩, ht.faults.trans hd⟩
  obtain ⟨records, hstart⟩ := start
  obtain ⟨hreply, -, hbytes⟩ := (hstart.run events).ask work
  have hworks := hstart.run ((events.filterMap Intrusion.work?).map .work)
  have hsame : ((events.filterMap Intrusion.work?).map Intrusion.work).foldl suffer (a, d') =
      alone := List.foldl_map
  have hall : ((events.filterMap Intrusion.work?).map Intrusion.work).filterMap Intrusion.work? =
      events.filterMap Intrusion.work? := by
    rw [List.filterMap_map]
    exact List.filterMap_some
  rw [hsame, hall] at hworks
  obtain ⟨hreply', -, hbytes'⟩ := hworks.ask work
  refine ⟨hreply.trans hreply'.symm, ?_⟩
  intro hwrote file
  have hwrote : work.Wrote _ := hreply ▸ hwrote
  obtain ⟨records₁, hlog, hfile⟩ := hbytes hwrote
  obtain ⟨records₂, hlog', hfile'⟩ := hbytes' hwrote
  obtain rfl := Option.some.inj (hlog.symm.trans hlog')
  exact (hfile file).trans (hfile' file).symm

/-- A whole entry behind the index of the bodies is no body, and gone with the next append. -/
theorem tails_leave_no_trace_of_entry :
    ∃ a d, openAt "." .empty = .ok a d ∧
      let entry : Bytes := [0, 0, 0, 0, 0, 0, 0, 0]
      let after := suffer (a, d) (.tail (.index .body) entry)
      let work := Work.call 0 .background (.append 0 (.replicate [1]))
      after.2.stored ⟨0, "body.idx"⟩ = entry ∧ reply after work = .outcome (.ok .done) ∧
      ∀ file : TableFile,
        (ask after work).2.stored ⟨0, file.name⟩ = (ask (a, d) work).2.stored ⟨0, file.name⟩ := by
  obtain ⟨a, d, ho, hh, ht⟩ := vacant_emptyDisk.opens_empty FaultPlan.reports_reliable
    FaultPlan.obliging_reliable
  obtain ⟨o, hs, he⟩ := hh.opened
  have trails : Trails 0 a d [] := ⟨⟨o, hs, he.trails⟩, ht.faults⟩
  have follows : FollowsLog 0 a d (some []) := trails
  obtain ⟨d₁, hextend, hstored, -⟩ := trails.tail (.index .body) [0, 0, 0, 0, 0, 0, 0, 0]
  have hempty : d.stored ⟨0, "body.idx"⟩ = [] := hs.stored_bytes he (.index .body)
  obtain ⟨hreply, -⟩ :=
    (follows.run [.tail (.index .body) [0, 0, 0, 0, 0, 0, 0, 0]]).ask
      (.call 0 .background (.append 0 (.replicate [1])))
  obtain ⟨-, hfiles⟩ := tails_leave_no_trace vacant_emptyDisk.free rfl ho
    [.tail (.index .body) [0, 0, 0, 0, 0, 0, 0, 0]]
    (.call 0 .background (.append 0 (.replicate [1])))
  refine ⟨a, d, ho, ?_, hreply, hfiles (by rw [hreply]; trivial)⟩
  simp only [suffer, hextend, finalState]
  refine hstored.trans ?_
  rw [show TableFile.name (.index .body) = "body.idx" from rfl, hempty]
  rfl

end FileArchive

end ColdArchive
