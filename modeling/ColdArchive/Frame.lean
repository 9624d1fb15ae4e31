import ColdArchive.Bytes

/-!
Frames: messages in a stream of bytes, each ended by a newline.

A carriage return before the newline belongs to the terminator. A frame is looked for in the next
`window` bytes only, so that an endless line is given up after one byte more than the longest
frame. The reader counts them in 64 bits, and stops where these do not hold their number.
-/

namespace ColdArchive.Frame

def newline : UInt8 := 0x0a
def carriageReturn : UInt8 := 0x0d

/-- A frame as it is sent. -/
def encode (payload : Bytes) : Bytes := payload ++ [newline]

/-- What a reader finds in a stream. -/
inductive Found where
  | frame (payload : Bytes)
  /-- The stream ended between two frames. -/
  | finished
  /-- No newline came in time. -/
  | tooLong
  /-- The stream ended inside a frame. -/
  | torn
  /-- The bytes to look at cannot be counted, and the reader stops the program. -/
  | uncountable
  deriving DecidableEq, Repr

/-- The number of bytes in which a frame of at most `limit` bytes must end, if 64 bits hold it. -/
def window? (limit : Nat) : Option Nat := if limit + 1 < wordLimit then some (limit + 1) else none

/-- The number of bytes that a read looks at, none where it cannot be counted. -/
def window (limit : Nat) : Nat := (window? limit).getD 0

/-- The first `n` bytes, or those up to the first newline if it is among them, and the rest;
`taken` holds those taken before, the last one first. -/
def splitLine (taken : Bytes) : (n : Nat) → Bytes → Bytes × Bytes
  | 0, bs => (taken.reverse, bs)
  | _ + 1, [] => (taken.reverse, [])
  | n + 1, b :: bs =>
    if b = newline then ((b :: taken).reverse, bs) else splitLine (b :: taken) n bs

/-- A line without its terminator. -/
def stripTerminator (line : Bytes) : Bytes :=
  let payload := line.dropLast
  if payload.getLast? = some carriageReturn then payload.dropLast else payload

/-- What is found in a line that was split off. -/
def foundIn (limit : Nat) (line : Bytes) : Found :=
  if line = [] then .finished
  else if line.getLast? = some newline then .frame (stripTerminator line)
  else if limit < line.length then .tooLong
  else .torn

/-- Reads a frame of at most `limit` bytes from a stream that holds these bytes and no more. -/
def read (limit : Nat) (bs : Bytes) : Found × Bytes :=
  match window? limit with
  | none => (.uncountable, bs)
  | some n =>
    let (line, rest) := splitLine [] n bs
    (foundIn limit line, rest)

/-- The frame has come, or it cannot come any more: a reader need not wait for more bytes. -/
def isReady (limit : Nat) (arrived : Bytes) : Bool :=
  match window? limit with
  | none => true
  | some n =>
    let (line, _) := splitLine [] n arrived
    line.getLast? == some newline || decide (n ≤ line.length)

/-- The text of the refusal of a frame of more than `limit` bytes. -/
def tooLongText (limit : Nat) : String := s!"frame exceeds {limit} bytes"

/-- The text of a failure to read a frame. -/
def Found.failure? (limit : Nat) : Found → Option String
  | .tooLong => some (tooLongText limit)
  | .torn => some "stream closed mid-frame"
  | .uncountable => some "attempt to add with overflow"
  | .frame _ | .finished => none

/-! ### What a read consumes -/

/-- A split loses nothing. -/
theorem splitLine_append (taken : Bytes) (n : Nat) (bs : Bytes) :
    (splitLine taken n bs).1 ++ (splitLine taken n bs).2 = taken.reverse ++ bs := by
  induction n generalizing taken bs with
  | zero => simp [splitLine]
  | succ n ih =>
    cases bs with
    | nil => simp [splitLine]
    | cons b bs =>
      unfold splitLine
      split
      · simp
      · rw [ih]; simp

/-- Reading leaves the bytes behind the line it took. -/
theorem read_snd (limit : Nat) (bs : Bytes) :
    (read limit bs).2 = (splitLine [] (window limit) bs).2 := by
  unfold read window
  cases window? limit with
  | none => simp [splitLine]
  | some n => rfl

/-- A frame takes at least its newline from the stream. -/
theorem length_lt_of_read {limit : Nat} {bs rest payload : Bytes}
    (h : read limit bs = (.frame payload, rest)) : rest.length < bs.length := by
  unfold read at h
  cases hwindow : window? limit with
  | none =>
    rw [hwindow] at h
    cases h
  | some n =>
    rw [hwindow] at h
    obtain ⟨hfound, rfl⟩ := Prod.mk.inj h
    have hne : (splitLine [] n bs).1 ≠ [] := by
      intro he
      simp [foundIn, he] at hfound
    have hlen := congrArg List.length (splitLine_append [] n bs)
    have hpos := List.length_pos_iff.2 hne
    simp only [List.length_append, List.reverse_nil, List.nil_append] at hlen
    omega

end ColdArchive.Frame
