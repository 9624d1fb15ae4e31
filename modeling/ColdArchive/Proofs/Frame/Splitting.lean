import ColdArchive.Proofs.Frame
import Mathlib.Data.Nat.Find

/-!
# A stream is split exactly

What a read takes from the head of a stream and what it finds there, told by the bytes alone
(`Splits`). The limit is on the bytes before the newline, a carriage return among them. So a payload
as long as the limit is read if a bare newline ends it, and not if a carriage return comes before.

Reads that come one after the other, also behind a line that was too long, take the stream apart from
its head to its end, and each takes something while anything is left.
-/

namespace ColdArchive.Frame

variable {limit : Nat}

/-- What a read finds at the head of a stream, the bytes that it takes and those that it leaves. -/
inductive Splits (limit : Nat) : (stream : Bytes) → Found → (taken rest : Bytes) → Prop
  | finished : Splits limit [] .finished [] []
  /-- A line that a bare newline ends. -/
  | bare {payload rest : Bytes} (hline : newline ∉ payload)
      (hend : payload.getLast? ≠ some carriageReturn) (hlen : payload.length ≤ limit) :
      Splits limit (payload ++ newline :: rest) (.frame payload) (payload ++ [newline]) rest
  /-- A line with a carriage return before its newline, of which no more than this one is dropped. -/
  | returned {payload rest : Bytes} (hline : newline ∉ payload)
      (hlen : payload.length + 1 ≤ limit) :
      Splits limit (payload ++ carriageReturn :: newline :: rest) (.frame payload)
        (payload ++ [carriageReturn, newline]) rest
  | tooLong {taken rest : Bytes} (hline : newline ∉ taken) (hlen : taken.length = limit + 1) :
      Splits limit (taken ++ rest) .tooLong taken rest
  | torn {tail : Bytes} (hne : tail ≠ []) (hline : newline ∉ tail) (hlen : tail.length ≤ limit) :
      Splits limit tail .torn tail []

section Split

variable {stream taken rest : Bytes} {found : Found}

theorem Splits.append (h : Splits limit stream found taken rest) : taken ++ rest = stream := by
  cases h <;> simp

/-- Something is taken while anything is left. -/
theorem Splits.taken_ne_nil (h : Splits limit stream found taken rest) (hne : stream ≠ []) :
    taken ≠ [] := by
  cases h with
  | finished => exact absurd rfl hne
  | bare | returned => simp
  | tooLong _ hlen =>
    rintro rfl
    simp at hlen
  | torn => exact hne

theorem Splits.finished_iff (h : Splits limit stream found taken rest) :
    found = .finished ↔ stream = [] := by
  cases h with
  | finished => simp
  | bare | returned => simp
  | tooLong _ hlen =>
    have htaken := List.ne_nil_of_length_eq_add_one hlen
    simp [htaken]
  | torn hne => simp [hne]

/-- **Every stream is split.** -/
theorem exists_splits (limit : Nat) (stream : Bytes) :
    ∃ found taken rest, Splits limit stream found taken rest := by
  rcases exists_line_or_not_mem (limit + 1) stream with ⟨line, rest, rfl, hline, hlen⟩ | hnone
  · by_cases hend : line.getLast? = some carriageReturn
    · obtain ⟨payload, rfl⟩ := List.getLast?_eq_some_iff.mp hend
      rw [List.append_assoc]
      exact ⟨_, _, rest, .returned (fun h => hline (List.mem_append_left _ h))
        (by simpa using Nat.le_of_lt_succ hlen)⟩
    · exact ⟨_, _, rest, .bare hline hend (Nat.le_of_lt_succ hlen)⟩
  · by_cases hlong : limit < stream.length
    · rw [← List.take_append_drop (limit + 1) stream]
      exact ⟨_, _, _, .tooLong hnone (List.length_take_of_le hlong)⟩
    · rw [List.take_of_length_le (by omega)] at hnone
      by_cases hnil : stream = []
      · subst hnil
        exact ⟨_, _, _, .finished⟩
      · exact ⟨_, _, _, .torn hnil hnone (Nat.le_of_not_lt hlong)⟩

/-- A read finds what its stream is split into. -/
theorem read_of_splits (hlimit : limit + 1 < wordLimit)
    (h : Splits limit stream found taken rest) : read limit stream = (found, rest) := by
  have hwindow := window_eq hlimit
  cases h with
  | finished => exact read_nil hlimit
  | @bare payload _ hline hend hlen =>
    rw [read_line hline (by omega), stripTerminator_newline hend]
  | @returned payload _ hline hlen =>
    have hline' := newline_not_mem_returned hline
    have hlen' : (payload ++ [carriageReturn]).length < window limit := by
      rw [List.length_append, List.length_singleton]
      omega
    have hread := read_line hline' hlen' rest
    rwa [stripTerminator_returned, List.append_assoc] at hread
  | tooLong hline hlen =>
    have htake : (taken ++ rest).take (window limit) = taken := List.take_left' (by omega)
    have hdrop : (taken ++ rest).drop (window limit) = rest := List.drop_left' (by omega)
    have hne : taken ≠ [] := List.ne_nil_of_length_eq_add_one hlen
    rw [read_of_not_mem (by omega) (by rwa [htake]), htake, hdrop, if_neg hne, if_pos (by omega)]
  | torn hne hline hlen =>
    have htake : stream.take (window limit) = stream := List.take_of_length_le (by omega)
    have hdrop : stream.drop (window limit) = [] := List.drop_of_length_le (by omega)
    rw [read_of_not_mem (by omega) (by rwa [htake]), htake, hdrop, if_neg hne, if_neg (by omega)]

/-- **A read finds, takes and leaves what the bytes of its stream say.** -/
theorem splits_iff (hlimit : limit + 1 < wordLimit) :
    Splits limit stream found taken rest ↔
      read limit stream = (found, rest) ∧ taken ++ rest = stream := by
  constructor
  · intro h
    exact ⟨read_of_splits hlimit h, h.append⟩
  · rintro ⟨hread, htaken⟩
    obtain ⟨found', taken', rest', h⟩ := exists_splits limit stream
    obtain ⟨rfl, rfl⟩ := Prod.mk.inj ((read_of_splits hlimit h).symm.trans hread)
    obtain rfl := List.append_cancel_right (h.append.trans htaken.symm)
    exact h

end Split

/-! ### The two terminators -/

/-- **The newline does not count against the limit, and a carriage return before it does.** A
payload as long as the limit is read if a bare newline ends it. If a carriage return comes before,
the line is too long, and the newline is left in the stream. -/
theorem payload_read_to_limit (hlimit : limit + 1 < wordLimit) {payload : Bytes}
    (hline : newline ∉ payload) (hend : payload.getLast? ≠ some carriageReturn)
    (hlen : payload.length ≤ limit) (rest : Bytes) :
    read limit (payload ++ [newline] ++ rest) = (.frame payload, rest) ∧
      read limit (payload ++ [carriageReturn, newline] ++ rest) =
        if payload.length = limit then (.tooLong, newline :: rest) else (.frame payload, rest) := by
  simp only [List.append_assoc, List.cons_append, List.nil_append]
  refine ⟨read_of_splits hlimit (.bare hline hend hlen), ?_⟩
  split
  · next hfull =>
    have hline' := newline_not_mem_returned hline
    have hlong : (payload ++ [carriageReturn]).length = limit + 1 := by simp [hfull]
    have hread := read_of_splits hlimit (@Splits.tooLong limit _ (newline :: rest) hline' hlong)
    rwa [List.append_assoc] at hread
  · next hshort => exact read_of_splits hlimit (.returned hline (by omega))

/-- Four bytes before either terminator, with a limit of four bytes. -/
theorem payload_read_to_limit_of_four :
    4 + 1 < wordLimit ∧ newline ∉ utf8 "0123" ∧ (utf8 "0123").getLast? ≠ some carriageReturn ∧
      (utf8 "0123").length ≤ 4 ∧
      read 4 (utf8 "0123" ++ [newline] ++ utf8 "45") = (.frame (utf8 "0123"), utf8 "45") ∧
      read 4 (utf8 "0123" ++ [carriageReturn, newline] ++ utf8 "45") =
        if (utf8 "0123").length = 4 then (.tooLong, newline :: utf8 "45")
        else (.frame (utf8 "0123"), utf8 "45") := by
  have hline : newline ∉ utf8 "0123" := by decide
  have hend : (utf8 "0123").getLast? ≠ some carriageReturn := by decide
  have hlen : (utf8 "0123").length ≤ 4 := by decide
  exact ⟨by decide, hline, hend, hlen, payload_read_to_limit (by decide) hline hend hlen _⟩

/-- A payload that fits is not read behind every terminator that is accepted elsewhere. -/
theorem return_counts_against_limit :
    ¬ ∀ (limit : Nat) (payload terminator rest : Bytes), limit + 1 < wordLimit →
      newline ∉ payload → payload.getLast? ≠ some carriageReturn → payload.length ≤ limit →
      terminator = [newline] ∨ terminator = [carriageReturn, newline] →
      read limit (payload ++ terminator ++ rest) = (.frame payload, rest) := by
  intro h
  have hread := h 4 (utf8 "0123") [carriageReturn, newline] [] (by decide) (by decide) (by decide)
    (by decide) (.inr rfl)
  exact absurd hread (by decide)

/-! ### One read after the other -/

/-- What so many reads leave of a stream. -/
def leftAfter (limit : Nat) (stream : Bytes) : (reads : Nat) → Bytes
  | 0 => stream
  | reads + 1 => (read limit (leftAfter limit stream reads)).2

/-- What the next read finds after so many others. -/
def foundAfter (limit : Nat) (stream : Bytes) (reads : Nat) : Found :=
  (read limit (leftAfter limit stream reads)).1

/-- The bytes that the next read takes after so many others. -/
def takenAfter (limit : Nat) (stream : Bytes) (reads : Nat) : Bytes :=
  let left := leftAfter limit stream reads
  left.take (left.length - (leftAfter limit stream (reads + 1)).length)

/-- What a read takes and what it leaves make up its stream. -/
theorem takenAfter_append (stream : Bytes) (reads : Nat) :
    takenAfter limit stream reads ++ leftAfter limit stream (reads + 1) =
      leftAfter limit stream reads := by
  have cut {line rest left : Bytes} (h : line ++ rest = left) :
      left.take (left.length - rest.length) ++ rest = left := by
    subst h
    rw [List.take_left' (by simp)]
  have hline := splitLine_append [] (window limit) (leftAfter limit stream reads)
  rw [List.reverse_nil, List.nil_append, ← read_snd] at hline
  exact cut hline

/-- Nothing is lost, taken twice or taken out of its place. -/
theorem taken_append_leftAfter (stream : Bytes) (reads : Nat) :
    (List.range reads).flatMap (takenAfter limit stream) ++ leftAfter limit stream reads =
      stream := by
  induction reads with
  | zero => rfl
  | succ reads ih =>
    rw [List.range_succ, List.flatMap_append, List.flatMap_singleton, List.append_assoc,
      takenAfter_append, ih]

theorem read_nil_snd (limit : Nat) : (read limit []).2 = [] := by
  rw [read_snd, splitLine_nil]

/-- Nothing comes behind the end. -/
theorem leftAfter_eq_nil {stream : Bytes} {reads more : Nat}
    (h : leftAfter limit stream reads = []) (hle : reads ≤ more) :
    leftAfter limit stream more = [] := by
  induction more, hle using Nat.le_induction with
  | base => exact h
  | succ more _ ih => rw [leftAfter, ih, read_nil_snd]

section Reads

variable (hlimit : limit + 1 < wordLimit) (stream : Bytes)
include hlimit

theorem splits_leftAfter (reads : Nat) :
    Splits limit (leftAfter limit stream reads) (foundAfter limit stream reads)
      (takenAfter limit stream reads) (leftAfter limit stream (reads + 1)) :=
  (splits_iff hlimit).mpr ⟨rfl, takenAfter_append stream reads⟩

/-- Every read shortens the stream until nothing is left of it. -/
theorem length_leftAfter_le (reads : Nat) :
    (leftAfter limit stream reads).length ≤ stream.length - reads := by
  induction reads with
  | zero => exact Nat.le_refl _
  | succ reads ih =>
    have h := splits_leftAfter hlimit stream reads
    have hlen := congrArg List.length h.append
    rw [List.length_append] at hlen
    by_cases hnil : leftAfter limit stream reads = []
    · rw [hnil, List.length_nil] at hlen
      omega
    · have htaken := List.length_pos_iff.mpr (h.taken_ne_nil hnil)
      omega

/-- The first so many reads find something, and all that follow find the end. -/
theorem exists_end : ∃ last ≤ stream.length,
    ∀ reads, foundAfter limit stream reads = .finished ↔ last ≤ reads := by
  have hends : leftAfter limit stream stream.length = [] := by
    have hlen := length_leftAfter_le hlimit stream stream.length
    rw [Nat.sub_self] at hlen
    exact List.length_eq_zero_iff.mp (Nat.le_zero.mp hlen)
  have hex : ∃ reads, leftAfter limit stream reads = [] := ⟨_, hends⟩
  refine ⟨Nat.find hex, Nat.find_min' hex hends, fun reads => ?_⟩
  rw [(splits_leftAfter hlimit stream reads).finished_iff]
  exact ⟨fun h => Nat.find_min' hex h, leftAfter_eq_nil (Nat.find_spec hex)⟩

end Reads

/-- **Reads that come one after the other split a stream exactly.** Each finds and takes what the
bytes that are left say, the bytes that were taken are the stream up to those that are left, each
read takes something while anything is left, and no more reads than the stream has bytes come before
all that find its end. -/
theorem stream_taken_apart (hlimit : limit + 1 < wordLimit) (stream : Bytes) :
    (∀ reads, Splits limit (leftAfter limit stream reads) (foundAfter limit stream reads)
        (takenAfter limit stream reads) (leftAfter limit stream (reads + 1))) ∧
      (∀ reads, (List.range reads).flatMap (takenAfter limit stream) ++
        leftAfter limit stream reads = stream) ∧
      (∀ reads, leftAfter limit stream reads ≠ [] → takenAfter limit stream reads ≠ []) ∧
      ∃ last ≤ stream.length,
        ∀ reads, foundAfter limit stream reads = .finished ↔ last ≤ reads :=
  ⟨splits_leftAfter hlimit stream, taken_append_leftAfter stream,
    fun reads hne => (splits_leftAfter hlimit stream reads).taken_ne_nil hne,
    exists_end hlimit stream⟩

/-- A line with a carriage return, one that is too long and a torn one, with a limit of four bytes. -/
theorem stream_taken_apart_behind_long_line :
    4 + 1 < wordLimit ∧
      (List.range 6).map (foundAfter 4 (utf8 "abc\r\n0123456\nxy")) =
        [.frame (utf8 "abc"), .tooLong, .frame (utf8 "56"), .torn, .finished, .finished] ∧
      (List.range 3).flatMap (takenAfter 4 (utf8 "abc\r\n0123456\nxy")) ++ utf8 "xy" =
        utf8 "abc\r\n0123456\nxy" ∧
      ∃ last ≤ 15, ∀ reads, foundAfter 4 (utf8 "abc\r\n0123456\nxy") reads = .finished ↔
        last ≤ reads := by
  obtain ⟨-, hjoined, -, hend⟩ :=
    @stream_taken_apart 4 (by decide) (utf8 "abc\r\n0123456\nxy")
  exact ⟨by decide, by decide, hjoined 3, hend⟩

end ColdArchive.Frame
