import ColdArchive.Bytes

/-!
The contents of a file: stretches of bytes, and holes between them that read as zeros.

A hole takes no room, so a file can be as long as its length says without anybody having written
that much. `Content.toBytes` is the view of a content; cutting, filling and writing are pinned down
by what they do to it (`toBytes_fit`, `toBytes_splice`).
-/

namespace ColdArchive

/-- `bs` cut or filled with zeros to `length` bytes. -/
def Bytes.fit (bs : Bytes) (length : Nat) : Bytes :=
  bs.take length ++ List.replicate (length - bs.length) 0

/-- `bs` with `new` in place of what stands at `offset`, zeros filling a gap before it. -/
def Bytes.splice (bs : Bytes) (offset : Nat) (new : Bytes) : Bytes :=
  if new = [] then bs else Bytes.fit bs offset ++ new ++ bs.drop (offset + new.length)

/-- The contents of a file. -/
inductive Content where
  | empty
  | bytes (bs : Bytes) (rest : Content)
  | hole (length : Nat) (rest : Content)
  deriving DecidableEq, Repr

namespace Content

/-- The bytes that a reader finds. -/
def toBytes : Content → Bytes
  | empty => []
  | bytes bs rest => bs ++ toBytes rest
  | hole n rest => List.replicate n 0 ++ toBytes rest

def length : Content → Nat
  | empty => 0
  | bytes bs rest => bs.length + length rest
  | hole n rest => n + length rest

/-- So many zeros that nobody has written. -/
def zeros (n : Nat) : Content := if n = 0 then empty else hole n empty

/-- One content behind another. -/
def append : Content → Content → Content
  | empty, d => d
  | bytes bs rest, d => bytes bs (append rest d)
  | hole n rest, d => hole n (append rest d)

/-- The first `count` bytes. -/
def take : (count : Nat) → Content → Content
  | _, empty => empty
  | count, bytes bs rest =>
    if count = 0 then empty
    else if count ≤ bs.length then bytes (bs.take count) empty
    else bytes bs (take (count - bs.length) rest)
  | count, hole n rest =>
    if count ≤ n then zeros count else hole n (take (count - n) rest)

/-- All but the first `count` bytes. -/
def drop : (count : Nat) → Content → Content
  | _, empty => empty
  | count, bytes bs rest =>
    if count < bs.length then bytes (bs.drop count) rest else drop (count - bs.length) rest
  | count, hole n rest =>
    if count < n then hole (n - count) rest else drop (count - n) rest

/-- A content cut or filled with zeros to a length. -/
def fit (c : Content) (length : Nat) : Content :=
  (c.take length).append (zeros (length - c.length))

/-- A content with `new` in place of what stands at `offset`. -/
def splice (c : Content) (offset : Nat) (new : Bytes) : Content :=
  if new = [] then c
  else (c.fit offset).append (bytes new (c.drop (offset + new.length)))

theorem length_toBytes (c : Content) : c.toBytes.length = c.length := by
  induction c with
  | empty => rfl
  | bytes bs rest ih => simp [toBytes, length, ih]
  | hole n rest ih => simp [toBytes, length, ih]

theorem toBytes_zeros (n : Nat) : (zeros n).toBytes = List.replicate n 0 := by
  by_cases h : n = 0 <;> simp [zeros, toBytes, h]

theorem toBytes_append (c d : Content) : (c.append d).toBytes = c.toBytes ++ d.toBytes := by
  induction c with
  | empty => rfl
  | bytes bs rest ih => simp [append, toBytes, ih]
  | hole n rest ih => simp [append, toBytes, ih]

theorem toBytes_take (count : Nat) (c : Content) :
    (c.take count).toBytes = c.toBytes.take count := by
  induction c generalizing count with
  | empty => simp [take, toBytes]
  | bytes bs rest ih =>
    by_cases hz : count = 0
    · simp [take, toBytes, hz]
    · by_cases h : count ≤ bs.length
      · simp [take, toBytes, hz, h, List.take_append_of_le_length h]
      · have hb : bs.take count = bs := List.take_of_length_le (by omega)
        simp [take, toBytes, hz, h, ih, List.take_append, hb]
  | hole n rest ih =>
    by_cases h : count ≤ n
    · have hlen : count ≤ (List.replicate n (0 : UInt8)).length := by simpa using h
      rw [toBytes, List.take_append_of_le_length hlen, List.take_replicate, Nat.min_eq_left h]
      simp [take, h, toBytes_zeros]
    · have hn : min count n = n := by omega
      simp [take, toBytes, h, ih, List.take_append, List.take_replicate, hn]

theorem toBytes_drop (count : Nat) (c : Content) :
    (c.drop count).toBytes = c.toBytes.drop count := by
  induction c generalizing count with
  | empty => simp [drop, toBytes]
  | bytes bs rest ih =>
    by_cases h : count < bs.length
    · have hz : count - bs.length = 0 := by omega
      simp [drop, toBytes, h, List.drop_append, hz]
    · have hb : bs.drop count = [] := List.drop_eq_nil_of_le (by omega)
      simp [drop, toBytes, h, ih, List.drop_append, hb]
  | hole n rest ih =>
    by_cases h : count < n
    · have hz : count - n = 0 := by omega
      simp [drop, toBytes, h, List.drop_append, hz]
    · have hn : n - count = 0 := by omega
      simp [drop, toBytes, h, ih, List.drop_append, hn]

theorem toBytes_fit (c : Content) (length : Nat) :
    (c.fit length).toBytes = Bytes.fit c.toBytes length := by
  simp [fit, Bytes.fit, toBytes_append, toBytes_take, toBytes_zeros, length_toBytes]

theorem toBytes_splice (c : Content) (offset : Nat) (new : Bytes) :
    (c.splice offset new).toBytes = Bytes.splice c.toBytes offset new := by
  by_cases h : new = []
  · simp [splice, Bytes.splice, h]
  · simp [splice, Bytes.splice, h, toBytes_append, toBytes_fit, toBytes_drop, toBytes]

end Content

end ColdArchive
