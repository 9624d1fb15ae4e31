import ColdArchive.Memory
import ColdArchive.Proofs.Archive

/-!
# The archive in memory, call by call
-/

namespace ColdArchive

namespace Memory

variable {m : Memory} {now : Instant} {ctx : Context} {call : Call}

/-! ### The blobs of the tables -/

theorem blobs_held (m : Memory) (c : Category) : (m.held.get c).blobs = m.tables.get c := by
  rw [tables, ByCategory.get_map]

@[simp] theorem get_tables_empty (c : Category) : empty.tables.get c = [] := by
  rw [← blobs_held, empty, ByCategory.get_replicate, MemoryTable.blobs_empty]

@[simp] theorem tables_ofTables (tables : ByCategory (List Blob)) :
    (ofTables tables).tables = tables :=
  ByCategory.ext fun c => by
    rw [← blobs_held, ofTables, ByCategory.get_map, MemoryTable.blobs_ofBlobs]

theorem tables_push (m : Memory) (record : Record) :
    (m.push record).tables =
      ByCategory.ofFn fun c => (m.tables.get c).take m.frozen ++ [record.get c] :=
  ByCategory.ext fun c => by
    rw [← blobs_held, push, ByCategory.get_ofFn, ByCategory.get_ofFn, MemoryTable.blobs_push,
      MemoryTable.blobs_truncate, blobs_held]

theorem tables_cut (m : Memory) (target : Nat) :
    (m.cut target).tables = m.tables.map (List.take target) :=
  ByCategory.ext fun c => by
    rw [← blobs_held, cut, ByCategory.get_map, ByCategory.get_map, MemoryTable.blobs_truncate,
      blobs_held]

theorem size_eq_blobBytes (m : Memory) (c : Category) :
    m.size c = blobBytes ((m.tables.get c).take m.frozen) := by
  rw [size, MemoryTable.sizeAt_eq, blobs_held]

/-! ### Answers -/

/-- The answer of an open archive to a call that is let through, and the archive after it. -/
def answer (m : Memory) : Call → Outcome × Memory
  | .has _ number => (.ok (.truth (decide (number < m.frozen))), m)
  | .read c number => ((m.read c number).map .blob, m)
  | .count => (.ok (.number m.frozen), m)
  | .size c => (.ok (.number (m.size c)), m)
  | .append number record =>
    if number = m.frozen then (.ok .done, m.push record)
    else (.error (.outOfOrderAppend m.frozen number), m)
  | .truncate target =>
    if target ≤ m.frozen then (.ok .done, m.cut target)
    else (.error (.invalidTruncateTarget target m.frozen), m)
  | .sync => (.ok .done, m)
  | .close => (.ok .done, m.shut)

theorem perform_eq (hc : call ≠ .close) :
    m.perform now ctx call =
      match m.guarded now ctx with
      | .error e => (.error e, m)
      | .ok _ => m.answer call := by
  cases call <;> first | exact absurd rfl hc | rfl

theorem perform_close : m.perform now ctx .close = (.ok .done, m.shut) := rfl

theorem perform_of_check {e : StoreError} (h : ctx.check now = .error e) (hc : call ≠ .close) :
    m.perform now ctx call = (.error e, m) := by
  have hg : m.guarded now ctx = .error e := by rw [guarded, h]; rfl
  rw [perform_eq hc, hg]

theorem perform_of_closed (h : ctx.IsLive now) (hm : m.closed = true) (hc : call ≠ .close) :
    m.perform now ctx call = (.error .closed, m) := by
  have hg : m.guarded now ctx = .error .closed := by
    rw [guarded, show ctx.check now = .ok () from h, hm]
    rfl
  rw [perform_eq hc, hg]

theorem perform_of_live (h : ctx.IsLive now) (hm : m.closed = false) (hc : call ≠ .close) :
    m.perform now ctx call = m.answer call := by
  have hg : m.guarded now ctx = .ok () := by
    rw [guarded, show ctx.check now = .ok () from h, hm]
    rfl
  rw [perform_eq hc, hg]

/-- What an open archive answers to a call without changing. -/
theorem answer_unchanged (h : ¬ call.Changes ∨ ∃ e, (m.answer call).1 = .error e) :
    (m.answer call).2 = m := by
  cases call with
  | append number record =>
    rcases h with h | ⟨e, he⟩
    · exact absurd trivial h
    · rw [answer] at he ⊢
      split at he
      · cases he
      · next hn => rw [if_neg hn]
  | truncate target =>
    rcases h with h | ⟨e, he⟩
    · exact absurd trivial h
    · rw [answer] at he ⊢
      split at he
      · cases he
      · next ht => rw [if_neg ht]
  | close =>
    rcases h with h | ⟨e, he⟩
    · exact absurd trivial h
    · cases he
  | _ => rfl

theorem perform_unchanged (h : ¬ call.Changes ∨ ∃ e, (m.perform now ctx call).1 = .error e) :
    (m.perform now ctx call).2 = m := by
  by_cases hc : call = .close
  · subst hc
    rcases h with h | ⟨e, he⟩
    · exact absurd trivial h
    · cases he
  cases hk : ctx.check now with
  | error e => rw [perform_of_check hk hc]
  | ok _ =>
    cases hm : m.closed with
    | true => rw [perform_of_closed hk hm hc]
    | false =>
      rw [perform_of_live hk hm hc] at h ⊢
      exact answer_unchanged h

/-! ### A repair -/

theorem repair_of_closed (hm : m.closed = true) : m.repair = (.error .closed, m) := by
  rw [repair, if_pos hm]

theorem repair_of_open (hm : m.closed = false) :
    m.repair =
      (.ok ⟨(m.tables.map List.length).toList, leastCount (m.tables.map List.length).toList⟩,
        m.cut (leastCount (m.tables.map List.length).toList)) := by
  have hlengths : m.held.map (fun t => t.blobs.length) = m.tables.map List.length :=
    ByCategory.ext fun c => by rw [ByCategory.get_map, ByCategory.get_map, blobs_held]
  rw [repair, hm, if_neg Bool.false_ne_true, hlengths]

/-! ### An archive at hand -/

theorem isClosed_of_closed (hm : m.closed = true) : Archive.IsClosed m := by
  intro now ctx call h
  by_cases hc : call = .close
  · subst hc
    show m.perform now ctx .close = _
    rw [perform_close, shut, if_pos hm, if_pos rfl]
  · rw [if_neg hc]
    exact perform_of_closed h hm hc

theorem closed_shut (m : Memory) : m.shut.closed = true := by
  unfold shut
  split
  · assumption
  · rfl

theorem isLocal_answer (m : Memory) (call : Call) : Outcome.IsLocal call (m.answer call).1 := by
  cases call with
  | read c number =>
    unfold answer read
    simp only
    split
    · simp [Except.map, StoreError.IsLocal]
    · cases (m.held.get c).blobs[number]? <;> simp [Except.map, Reply.Suits, StoreError.IsLocal]
  | append number record =>
    unfold answer
    simp only
    split <;> simp [Reply.Suits, StoreError.IsLocal]
  | truncate target =>
    unfold answer
    simp only
    split <;> simp [Reply.Suits, StoreError.IsLocal]
  | _ => simp [answer, Reply.Suits]

instance : LocalArchive Memory where
  live := by
    intro m now now' ctx ctx' call h h'
    show m.perform now ctx call = m.perform now' ctx' call
    by_cases hc : call = .close
    · subst hc
      rfl
    cases hm : m.closed with
    | true => rw [perform_of_closed h hm hc, perform_of_closed h' hm hc]
    | false => rw [perform_of_live h hm hc, perform_of_live h' hm hc]
  stopped := fun _ _ _ _ _ hk hc => perform_of_check hk hc
  outcome := by
    intro m now ctx call
    show Outcome.IsLocal call (m.perform now ctx call).1
    by_cases hc : call = .close
    · subst hc
      simp [perform_close, Reply.Suits]
    cases hk : ctx.check now with
    | error e =>
      rw [perform_of_check hk hc]
      simpa using StoreError.isLocal_of_check hk
    | ok _ =>
      cases hm : m.closed with
      | true =>
        rw [perform_of_closed hk hm hc]
        simp [StoreError.IsLocal]
      | false =>
        rw [perform_of_live hk hm hc]
        exact m.isLocal_answer call
  close := fun m _ _ => ⟨rfl, isClosed_of_closed m.closed_shut⟩

/-! ### Archives whose tables are as long as the frozen count -/

variable (hl : ∀ c, (m.tables.get c).length = m.frozen)

include hl in
theorem read_eq (c : Category) (number : Nat) :
    m.read c number =
      match (m.tables.get c)[number]? with
      | some blob => .ok blob
      | none => .error (.notFound c number m.frozen) := by
  unfold read
  rw [blobs_held]
  simp only
  split
  · next h => rw [List.getElem?_eq_none (by rw [hl c]; exact h)]
  · cases (m.tables.get c)[number]? <;> rfl

include hl in
theorem size_eq (c : Category) : m.size c = blobBytes (m.tables.get c) := by
  rw [size_eq_blobBytes, ← hl c, List.take_length]

end Memory

end ColdArchive
