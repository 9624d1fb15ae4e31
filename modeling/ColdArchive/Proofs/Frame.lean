import ColdArchive.Frame

/-!
# Frames read one after the other

A payload without a newline that does not end with a carriage return is read from its frame, however
close to the limit it comes, and the bytes behind the frame are left. So payloads that were sent one
after the other are read in their order, and then the stream is at its end.
-/

namespace ColdArchive.Frame

/-- The frames that are read from a stream, and what is found in the place of the next one. -/
def readAll (limit : Nat) (bs : Bytes) : List Bytes × Found :=
  match h : read limit bs with
  | (.frame payload, rest) =>
    have : rest.length < bs.length := length_lt_of_read h
    let (payloads, last) := readAll limit rest
    (payload :: payloads, last)
  | (found, _) => ([], found)
  termination_by bs.length

/-! ### One frame -/

/-- A line is split off at its newline. -/
theorem splitLine_line (taken : Bytes) {n : Nat} {line : Bytes} (hline : newline ∉ line)
    (hlen : line.length < n) (rest : Bytes) :
    splitLine taken n (line ++ newline :: rest) = (taken.reverse ++ line ++ [newline], rest) := by
  induction line generalizing taken n with
  | nil =>
    obtain ⟨n, rfl⟩ : ∃ k, n = k + 1 := ⟨n - 1, by simp at hlen; omega⟩
    simp [splitLine]
  | cons b line ih =>
    obtain ⟨n, rfl⟩ : ∃ k, n = k + 1 := ⟨n - 1, by simp at hlen; omega⟩
    have hb : b ≠ newline := fun h => hline (by simp [h])
    have hrest : newline ∉ line := fun h => hline (by simp [h])
    rw [List.cons_append, splitLine, if_neg hb, ih (b :: taken) hrest (by simp at hlen; omega)]
    simp

/-- Where no newline comes in time, a line is what can be looked at. -/
theorem splitLine_of_not_mem (taken : Bytes) {n : Nat} {bs : Bytes} (h : newline ∉ bs.take n) :
    splitLine taken n bs = (taken.reverse ++ bs.take n, bs.drop n) := by
  induction n generalizing taken bs with
  | zero => simp [splitLine]
  | succ n ih =>
    cases bs with
    | nil => simp [splitLine]
    | cons b bs =>
      rw [List.take_succ_cons, List.mem_cons, not_or] at h
      rw [splitLine, if_neg (Ne.symm h.1), ih (b :: taken) h.2]
      simp

theorem length_splitLine_le (taken : Bytes) (n : Nat) (bs : Bytes) :
    (splitLine taken n bs).1.length ≤ taken.length + n := by
  induction n generalizing taken bs with
  | zero => simp [splitLine]
  | succ n ih =>
    cases bs with
    | nil => simp [splitLine]
    | cons b bs =>
      unfold splitLine
      split
      · simp
      · have := ih (b :: taken) bs
        simp only [List.length_cons] at this
        omega

/-- What can be looked at has a line in it, or no newline. -/
theorem exists_line_or_not_mem (n : Nat) (bs : Bytes) :
    (∃ line rest, bs = line ++ newline :: rest ∧ newline ∉ line ∧ line.length < n) ∨
      newline ∉ bs.take n := by
  by_cases h : newline ∈ bs.take n
  · left
    obtain ⟨line, rest, hsplit, hline⟩ := List.eq_append_cons_of_mem h
    have hbs : bs = line ++ newline :: (rest ++ bs.drop n) := by
      rw [← List.cons_append, ← List.append_assoc, ← hsplit, List.take_append_drop]
    have hlen : line.length + 1 ≤ n := by
      have hall := congrArg List.length hsplit
      simp only [List.length_take, List.length_append, List.length_cons] at hall
      omega
    exact ⟨line, _, hbs, hline, hlen⟩
  · exact .inr h

theorem stripTerminator_newline {payload : Bytes}
    (hend : payload.getLast? ≠ some carriageReturn) :
    stripTerminator (payload ++ [newline]) = payload := by
  simp [stripTerminator, hend]

/-- Only one carriage return is dropped. -/
theorem stripTerminator_returned (payload : Bytes) :
    stripTerminator (payload ++ [carriageReturn] ++ [newline]) = payload := by
  simp [stripTerminator]

theorem newline_not_mem_returned {payload : Bytes} (hline : newline ∉ payload) :
    newline ∉ payload ++ [carriageReturn] := by
  simpa [hline] using (by decide : newline ≠ carriageReturn)

theorem window_eq {limit : Nat} (hlimit : limit + 1 < wordLimit) : window limit = limit + 1 := by
  simp [window, window?, hlimit]

theorem window_of_le {limit : Nat} (hlimit : wordLimit ≤ limit + 1) : window limit = 0 := by
  simp [window, window?, Nat.not_lt.mpr hlimit]

theorem window_le (limit : Nat) : window limit ≤ limit + 1 := by
  rcases Nat.lt_or_ge (limit + 1) wordLimit with hlimit | hlimit
  · exact Nat.le_of_eq (window_eq hlimit)
  · simp [window_of_le hlimit]

/-- What a read finds in the line that it splits off, and what it leaves. -/
theorem read_eq (limit : Nat) (bs : Bytes) :
    read limit bs =
      (if window limit = 0 then .uncountable
        else foundIn limit (splitLine [] (window limit) bs).1,
        (splitLine [] (window limit) bs).2) := by
  refine Prod.ext ?_ (read_snd limit bs)
  unfold read window window?
  by_cases hlimit : limit + 1 < wordLimit
  · simp [hlimit]
  · simp [hlimit]

/-- A read finds something in its line where it can count. -/
theorem read_eq_of_window_pos {limit : Nat} (hwindow : 0 < window limit) (bs : Bytes) :
    read limit bs = (foundIn limit (splitLine [] (window limit) bs).1,
      (splitLine [] (window limit) bs).2) := by
  rw [read_eq, if_neg (Nat.ne_of_gt hwindow)]

variable {limit : Nat}

/-- A line is read without what ends it. -/
theorem read_line {line : Bytes} (hline : newline ∉ line) (hlen : line.length < window limit)
    (rest : Bytes) : read limit (line ++ newline :: rest) =
      (.frame (stripTerminator (line ++ [newline])), rest) := by
  rw [read_eq_of_window_pos (Nat.zero_lt_of_lt hlen), splitLine_line [] hline hlen rest]
  simp [foundIn]

/-- A payload shorter than the window is read from its frame. -/
theorem read_encode_of_lt {payload : Bytes} (hline : newline ∉ payload)
    (hend : payload.getLast? ≠ some carriageReturn) (hlen : payload.length < window limit)
    (rest : Bytes) : read limit (encode payload ++ rest) = (.frame payload, rest) := by
  rw [encode, List.append_assoc, List.singleton_append, read_line hline hlen,
    stripTerminator_newline hend]

/-- **A payload is read from its frame**, also one that is as long as the limit. -/
theorem read_encode (hlimit : limit + 1 < wordLimit) {payload : Bytes}
    (hline : newline ∉ payload) (hend : payload.getLast? ≠ some carriageReturn)
    (hlen : payload.length ≤ limit) (rest : Bytes) :
    read limit (encode payload ++ rest) = (.frame payload, rest) :=
  read_encode_of_lt hline hend (by rw [window_eq hlimit]; omega) rest

theorem splitLine_nil (n : Nat) : splitLine [] n [] = ([], []) := by
  cases n <;> rfl

/-- A stream at its end is found to be so by a reader that can count. -/
theorem read_nil (hlimit : limit + 1 < wordLimit) : read limit [] = (.finished, []) := by
  rw [read_eq_of_window_pos (window_eq hlimit ▸ Nat.succ_pos limit), splitLine_nil]
  rfl

/-- A payload that is read from its frame is shorter than the window. -/
theorem lt_window_of_read {payload rest : Bytes}
    (h : read limit (encode payload ++ rest) = (.frame payload, rest)) :
    payload.length < window limit := by
  have hline := splitLine_append [] (window limit) (encode payload ++ rest)
  have hrest : (splitLine [] (window limit) (encode payload ++ rest)).2 = rest := by
    rw [← read_snd, h]
  rw [hrest, List.reverse_nil, List.nil_append] at hline
  have hlen := length_splitLine_le [] (window limit) (encode payload ++ rest)
  rw [List.append_cancel_right hline] at hlen
  simpa [encode, Nat.succ_le_iff] using hlen

/-! ### Frames that have not come yet -/

/-- Where no newline comes in time, there is no frame. -/
theorem read_of_not_mem {bs : Bytes} (hwindow : 0 < window limit)
    (h : newline ∉ bs.take (window limit)) :
    read limit bs =
      (if bs.take (window limit) = [] then .finished
        else if limit < (bs.take (window limit)).length then .tooLong else .torn,
        bs.drop (window limit)) := by
  have hlast : (bs.take (window limit)).getLast? ≠ some newline :=
    fun hl => h (List.mem_of_getLast? hl)
  rw [read_eq_of_window_pos hwindow, splitLine_of_not_mem [] h]
  simp [foundIn, hlast]

/-- What a reader waits for: a newline at the end of the line, or a line as long as the window. -/
theorem isReady_eq (limit : Nat) (bs : Bytes) :
    isReady limit bs = ((splitLine [] (window limit) bs).1.getLast? == some newline ||
      decide (window limit ≤ (splitLine [] (window limit) bs).1.length)) := by
  unfold isReady window
  cases window? limit with
  | none => simp
  | some n => rfl

/-- A reader waits while no newline has come and the window is not full. -/
theorem isReady_iff {bs : Bytes} :
    isReady limit bs = true ↔ newline ∈ bs.take (window limit) ∨ window limit ≤ bs.length := by
  rcases exists_line_or_not_mem (window limit) bs with ⟨line, rest, rfl, hline, hlen⟩ | h
  · refine iff_of_true ?_ (.inl ?_)
    · simp [isReady_eq, splitLine_line [] hline hlen rest]
    · rw [List.take_append, List.mem_append]
      obtain ⟨k, hk⟩ : ∃ k, window limit - line.length = k + 1 :=
        ⟨window limit - line.length - 1, by omega⟩
      simp [hk]
  · have hlast : (bs.take (window limit)).getLast? ≠ some newline :=
      fun hl => h (List.mem_of_getLast? hl)
    simp only [isReady_eq, splitLine_of_not_mem [] h, List.reverse_nil, List.nil_append,
      List.length_take, Bool.or_eq_true, beq_iff_eq, decide_eq_true_eq, hlast, h, false_or]
    omega

/-- **A frame that has come is found whatever comes behind it.** -/
theorem read_append_of_isReady {bs : Bytes} (h : isReady limit bs = true) (more : Bytes) :
    read limit (bs ++ more) = ((read limit bs).1, (read limit bs).2 ++ more) := by
  have hsplit : splitLine [] (window limit) (bs ++ more) =
      ((splitLine [] (window limit) bs).1, (splitLine [] (window limit) bs).2 ++ more) := by
    rcases exists_line_or_not_mem (window limit) bs with ⟨line, rest, rfl, hline, hlen⟩ | hnot
    · rw [List.append_assoc, List.cons_append, splitLine_line [] hline hlen,
        splitLine_line [] hline hlen]
    · have hfull : window limit ≤ bs.length := (isReady_iff.mp h).resolve_left hnot
      have htake : (bs ++ more).take (window limit) = bs.take (window limit) :=
        List.take_append_of_le_length hfull
      rw [splitLine_of_not_mem [] (htake ▸ hnot), splitLine_of_not_mem [] hnot, htake,
        List.drop_append_of_le_length hfull]
  rw [read_eq, read_eq, hsplit]

/-- A stream that ends while the reader waits ends between two frames or inside one. -/
theorem read_of_not_isReady {bs : Bytes} (h : isReady limit bs = false) :
    ((read limit bs).1 = .finished ∨ (read limit bs).1 = .torn) := by
  have hnot : ¬ (newline ∈ bs.take (window limit) ∨ window limit ≤ bs.length) := by
    rw [← isReady_iff, h]
    exact Bool.false_ne_true
  rw [not_or, Nat.not_le] at hnot
  have htake : bs.take (window limit) = bs := List.take_of_length_le (Nat.le_of_lt hnot.2)
  have hlimit : ¬ limit < bs.length := by
    have hw := window_le limit
    omega
  rw [read_of_not_mem (Nat.zero_lt_of_lt hnot.2) hnot.1, htake, if_neg hlimit]
  split
  · exact .inl rfl
  · exact .inr rfl

/-! ### Frames that come in pieces -/

/-- The only newline of a line is at its end. -/
theorem eq_of_append_newline (bs rest : Bytes) {payload : Bytes} (hline : newline ∉ payload)
    (h : bs ++ newline :: rest = encode payload) : bs = payload ∧ rest = [] := by
  rcases List.append_eq_append_iff.mp h with ⟨front, hpayload, htail⟩ | ⟨back, hbs, htail⟩
  · cases front with
    | nil => simpa using And.intro hpayload.symm htail
    | cons b front =>
      obtain ⟨rfl, -⟩ := List.cons.inj htail
      simp [hpayload] at hline
  · cases back with
    | nil => simpa using And.intro hbs htail.symm
    | cons b back =>
      have hlen := congrArg List.length htail
      simp at hlen

/-- From what has come of a line, a frame is read only if all of it has come, and then nothing is
left. -/
theorem read_of_line {limit : Nat} {box coming payload found rest : Bytes}
    (hline : newline ∉ payload) (hbox : box ++ coming = encode payload)
    (h : read limit box = (.frame found, rest)) :
    found = stripTerminator (encode payload) ∧ rest = [] ∧ coming = [] := by
  have hsplit := splitLine_append [] (window limit) box
  rw [read_eq] at h
  obtain ⟨hfound, rfl⟩ := Prod.mk.inj h
  split at hfound
  · cases hfound
  generalize (splitLine [] (window limit) box).1 = line at hfound hsplit
  generalize (splitLine [] (window limit) box).2 = rest at hsplit
  unfold foundIn at hfound
  split at hfound
  · cases hfound
  split at hfound
  · next hlast =>
    obtain ⟨front, rfl⟩ := List.getLast?_eq_some_iff.mp hlast
    obtain rfl : front ++ [newline] ++ rest = box := hsplit
    obtain ⟨rfl, hrest⟩ := eq_of_append_newline front (rest ++ coming) hline
      (by simpa using hbox)
    obtain ⟨rfl, rfl⟩ := List.append_eq_nil_iff.mp hrest
    exact ⟨(Found.frame.inj hfound).symm, rfl, rfl⟩
  · split at hfound <;> cases hfound

/-! ### All frames -/

theorem readAll_of_frame {bs payload rest : Bytes} (h : read limit bs = (.frame payload, rest)) :
    readAll limit bs = (payload :: (readAll limit rest).1, (readAll limit rest).2) := by
  rw [readAll]
  split
  · next payload' rest' h' =>
    obtain ⟨hp, rfl⟩ := Prod.mk.inj (h.symm.trans h')
    obtain rfl := Found.frame.inj hp
    rfl
  · next found rest' hne h' => exact absurd (Prod.mk.inj (h'.symm.trans h)).1 (hne payload)

theorem readAll_of_not_frame {bs : Bytes} (h : ∀ payload, (read limit bs).1 ≠ .frame payload) :
    readAll limit bs = ([], (read limit bs).1) := by
  rw [readAll]
  split
  · next payload rest hr =>
    rw [hr] at h
    exact absurd rfl (h payload)
  · next found rest _ hr => rw [hr]

theorem readAll_nil (hlimit : limit + 1 < wordLimit) : readAll limit [] = ([], .finished) := by
  have hnot : ∀ payload, (read limit []).1 ≠ .frame payload := by
    rw [read_nil hlimit]
    exact fun _ h => by cases h
  rw [readAll_of_not_frame hnot, read_nil hlimit]

/-- **Payloads are read in the order in which they were sent**, and then the stream is finished. -/
theorem readAll_flatMap_encode (hlimit : limit + 1 < wordLimit) {payloads : List Bytes}
    (h : ∀ payload ∈ payloads, newline ∉ payload ∧ payload.getLast? ≠ some carriageReturn ∧
      payload.length ≤ limit) :
    readAll limit (payloads.flatMap encode) = (payloads, .finished) := by
  induction payloads with
  | nil => exact readAll_nil hlimit
  | cons payload payloads ih =>
    obtain ⟨hline, hend, hlen⟩ := h payload (by simp)
    have ih := ih fun payload hp => h payload (by simp [hp])
    rw [List.flatMap_cons, readAll_of_frame (read_encode hlimit hline hend hlen _), ih]

end ColdArchive.Frame
