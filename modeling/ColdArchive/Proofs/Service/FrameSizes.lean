import ColdArchive.Memory
import ColdArchive.Proofs.Frame
import ColdArchive.Service.Connection

/-!
# The frame sizes that settings allow

Settings are accepted with any frame size but zero. With every size of 64 bits but the greatest, a
payload that is no longer than the size is read from its frame. One byte more than the greatest size
cannot be counted, so every read stops its program, and a connection is closed before anything on it
is looked at.
-/

namespace ColdArchive

open ColdArchive.Frame (newline carriageReturn window? read isReady)

/-- What settings are accepted. -/
theorem ServiceConfig.validate_eq_ok_iff (c : ServiceConfig) :
    c.validate = .ok () ↔ c.ns ≠ "" ∧ c.maxConnections ≠ 0 ∧ c.maxFrameSize ≠ 0 := by
  unfold ServiceConfig.validate
  by_cases hns : c.ns = ""
  · simp [hns]
  by_cases hcount : c.maxConnections = 0
  · simp [hns, hcount]
  by_cases hsize : c.maxFrameSize = 0 <;> simp [hns, hcount, hsize]

namespace Frame

variable {limit : Nat}

/-- What a read looks at cannot be counted from the greatest number of 64 bits on. -/
theorem window?_eq_none_iff : window? limit = none ↔ wordLimit ≤ limit + 1 := by
  unfold window?
  split
  · next h => exact iff_of_false (Option.some_ne_none _) (Nat.not_le.mpr h)
  · next h => exact iff_of_true rfl (Nat.le_of_not_lt h)

/-- A read that cannot count stops, whatever the stream is, and takes nothing from it. -/
theorem read_of_window?_eq_none (hwindow : window? limit = none) (stream : Bytes) :
    read limit stream = (.uncountable, stream) := by
  rw [read, hwindow]

/-- A read stops only where it cannot count. -/
theorem read_eq_uncountable_iff (stream : Bytes) :
    (read limit stream).1 = .uncountable ↔ window? limit = none := by
  cases hwindow : window? limit with
  | none => simp [read_of_window?_eq_none hwindow]
  | some n =>
    have hfound : ∀ line, foundIn limit line ≠ .uncountable := by
      intro line
      unfold foundIn
      repeat' split
      all_goals exact Found.noConfusion
    simp [read, hwindow, hfound]

end Frame

/-- A connection is closed at once where nothing can be read. -/
theorem Service.serve_of_window?_eq_none [Json.Wording] {σ : Type} [Archive σ] (s : Service)
    {limit : Nat} (hwindow : window? limit = none) (now : Instant) (token : Token) (ended : Bool)
    (arrived : Bytes) (a : σ) : s.serve limit now token ended arrived a = ([], .closed, a) := by
  have hread := Frame.read_of_window?_eq_none hwindow arrived
  have hready : isReady limit arrived = true := by rw [isReady, hwindow]
  rw [Service.serve]
  split
  · next hwait => simp [hready] at hwait
  · split
    · next frame rest h => cases hread.symm.trans h
    · next rest h => cases hread.symm.trans h
    all_goals rfl

/-- **With every frame size but the greatest, accepted settings can be served.** A payload no longer
than the size is then read from its frame, and no read stops. With the greatest size every read stops
with nothing taken from the stream, and every connection is closed with nothing answered. -/
theorem served_unless_greatest [Json.Wording] {σ : Type} [Archive σ] {c : ServiceConfig}
    (haccepted : c.validate = .ok ()) (hsize : c.maxFrameSize < wordLimit) :
    0 < c.maxFrameSize ∧
      (c.maxFrameSize + 1 ≠ wordLimit →
        (∀ payload rest : Bytes, newline ∉ payload → payload.getLast? ≠ some carriageReturn →
          payload.length ≤ c.maxFrameSize →
          read c.maxFrameSize (payload ++ [newline] ++ rest) = (.frame payload, rest)) ∧
        ∀ stream, (read c.maxFrameSize stream).1 ≠ .uncountable) ∧
      (c.maxFrameSize + 1 = wordLimit →
        (∀ stream, read c.maxFrameSize stream = (.uncountable, stream)) ∧
          ∀ (s : Service) (now : Instant) (token : Token) (ended : Bool) (arrived : Bytes) (a : σ),
            s.serve c.maxFrameSize now token ended arrived a = ([], .closed, a)) := by
  obtain ⟨-, -, hpos⟩ := c.validate_eq_ok_iff.mp haccepted
  refine ⟨Nat.pos_of_ne_zero hpos, ?_, ?_⟩
  · intro hsmall
    have hlimit : c.maxFrameSize + 1 < wordLimit := by omega
    refine ⟨fun payload rest hline hend hlen => Frame.read_encode hlimit hline hend hlen rest,
      fun stream hstops => ?_⟩
    have hnone := (Frame.read_eq_uncountable_iff stream).mp hstops
    exact absurd hlimit (Nat.not_lt.mpr (Frame.window?_eq_none_iff.mp hnone))
  · intro hgreatest
    have hwindow := Frame.window?_eq_none_iff.mpr (Nat.le_of_eq hgreatest.symm)
    exact ⟨Frame.read_of_window?_eq_none hwindow, fun s => s.serve_of_window?_eq_none hwindow⟩

/-- The greatest size but one, and a payload with nothing behind it. -/
theorem served_unless_greatest_by_one :
    ({ ServiceConfig.default with maxFrameSize := 18446744073709551614 }).validate = .ok () ∧
      18446744073709551614 < wordLimit ∧ 18446744073709551614 + 1 ≠ wordLimit ∧
      newline ∉ utf8 "{}" ∧ (utf8 "{}").getLast? ≠ some carriageReturn ∧
      read 18446744073709551614 (utf8 "{}" ++ [newline] ++ []) = (.frame (utf8 "{}"), []) := by
  have haccepted : ({ ServiceConfig.default with
      maxFrameSize := 18446744073709551614 }).validate = .ok () := rfl
  have hsmall : 18446744073709551614 + 1 ≠ wordLimit := by decide
  have hline : newline ∉ utf8 "{}" := by decide
  have hend : (utf8 "{}").getLast? ≠ some carriageReturn := by decide
  have hserved := served_unless_greatest (σ := Memory) haccepted (by decide)
  exact ⟨haccepted, by decide, hsmall, hline, hend,
    (hserved.2.1 hsmall).1 _ _ hline hend (by decide)⟩

/-- **The greatest frame size is accepted, and no frame is read with it.** -/
theorem greatest_size_reads_nothing :
    ∃ c : ServiceConfig, c.validate = .ok () ∧ c.maxFrameSize < wordLimit ∧
      ∃ payload : Bytes, newline ∉ payload ∧ payload.getLast? ≠ some carriageReturn ∧
        payload.length ≤ c.maxFrameSize ∧
        read c.maxFrameSize (payload ++ [newline]) = (.uncountable, payload ++ [newline]) :=
  ⟨{ ServiceConfig.default with maxFrameSize := 18446744073709551615 }, rfl, by decide, utf8 "x",
    by decide, by decide, by decide, by decide⟩

end ColdArchive
