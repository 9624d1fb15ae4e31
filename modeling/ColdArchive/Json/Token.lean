import ColdArchive.Bytes
import ColdArchive.Hex
import ColdArchive.Json.Basic

/-!
Reading the tokens of JSON: blanks, words, strings and numbers.

A reader takes what it needs from the front of its input and returns the rest, or refuses. There
is a strict reader of strings and numbers, whose result counts, and a lenient one, which only
finds the end of a token in a part of a message that nobody looks at: it asks for no meaning of
bytes and escapes in a string, and for no range of a number.
-/

namespace ColdArchive.Json

/-- What a reader finds at the front of its input, and the rest. -/
abbrev Reader (α : Type) := Bytes → Option (α × Bytes)

def isBlank (b : UInt8) : Bool := b == 0x20 || b == 0x09 || b == 0x0a || b == 0x0d

def skipBlanks (bs : Bytes) : Bytes := bs.dropWhile isBlank

/-- The rest after a word. -/
def afterWord (word bs : Bytes) : Option Bytes :=
  if word.isPrefixOf bs then some (bs.drop word.length) else none

/-! ### Strings -/

/-- The number written by four hexadecimal digits. -/
def fourDigits (a b c d : UInt8) : Option Nat := do
  let a ← Hex.value? a
  let b ← Hex.value? b
  let c ← Hex.value? c
  let d ← Hex.value? d
  return ((a * 16 + b) * 16 + c) * 16 + d

/-- The byte an escape of one letter stands for. -/
def escapedByte (b : UInt8) : Option UInt8 :=
  if b = 0x22 ∨ b = 0x5c ∨ b = 0x2f then some b
  else if b = 0x62 then some 0x08
  else if b = 0x66 then some 0x0c
  else if b = 0x6e then some 0x0a
  else if b = 0x72 then some 0x0d
  else if b = 0x74 then some 0x09
  else none

/-- The first half of a pair that stands for a character above `0xffff`. -/
def isLeading (n : Nat) : Bool := decide (0xd800 ≤ n ∧ n < 0xdc00)

/-- The second half of such a pair. -/
def isTrailing (n : Nat) : Bool := decide (0xdc00 ≤ n ∧ n < 0xe000)

/-- The bytes of the character of a number. -/
def characterBytes (n : Nat) : Bytes := String.utf8EncodeChar (Char.ofNat n)

/-- The bytes of a string after its opening quote; `done` holds those read so far, the last one
first. -/
def stringBytes (done : Bytes) : Reader Bytes
  | [] => none
  | b :: rest =>
    if b = 0x22 then some (done.reverse, rest)
    else if b < 0x20 then none
    else if b = 0x5c then
      match rest with
      | [] => none
      | e :: rest =>
        if e = 0x75 then
          match rest with
          | h₁ :: h₂ :: h₃ :: h₄ :: rest =>
            match fourDigits h₁ h₂ h₃ h₄ with
            | none => none
            | some n =>
              if isTrailing n then none
              else if isLeading n then
                match rest with
                | b₁ :: b₂ :: l₁ :: l₂ :: l₃ :: l₄ :: rest =>
                  if b₁ = 0x5c ∧ b₂ = 0x75 then
                    match fourDigits l₁ l₂ l₃ l₄ with
                    | none => none
                    | some m =>
                      if isTrailing m then
                        let c := 0x10000 + (n - 0xd800) * 0x400 + (m - 0xdc00)
                        stringBytes ((characterBytes c).reverse ++ done) rest
                      else none
                  else none
                | _ => none
              else stringBytes ((characterBytes n).reverse ++ done) rest
          | _ => none
        else
          match escapedByte e with
          | some c => stringBytes (c :: done) rest
          | none => none
    else stringBytes (b :: done) rest

/-- A string after its opening quote. -/
def readString : Reader String := fun bs => do
  let (content, rest) ← stringBytes [] bs
  return (← ofUtf8? content, rest)

/-- The rest after a string whose opening quote is gone, whatever the string holds. -/
def afterString : Bytes → Option Bytes
  | [] => none
  | b :: rest =>
    if b = 0x22 then some rest
    else if b < 0x20 then none
    else if b = 0x5c then
      match rest with
      | [] => none
      | e :: rest =>
        if e = 0x75 then
          match rest with
          | h₁ :: h₂ :: h₃ :: h₄ :: rest =>
            if (fourDigits h₁ h₂ h₃ h₄).isSome then afterString rest else none
          | _ => none
        else if (escapedByte e).isSome then afterString rest
        else none
    else afterString rest

/-! ### Numbers -/

/-- The parts of a written number. Digits are given by their values. -/
structure NumberParts where
  negative : Bool
  whole : List Nat
  /-- The digits after the point, if there is one. -/
  fraction : Option (List Nat)
  /-- The exponent, if there is one: whether it is negative, and its digits. -/
  exponent : Option (Bool × List Nat)
  deriving DecidableEq, Repr

def isDigit (b : UInt8) : Bool := decide (0x30 ≤ b ∧ b ≤ 0x39)

/-- The digits at the front. -/
def digits (bs : Bytes) : List Nat × Bytes :=
  ((bs.takeWhile isDigit).map fun b => b.toNat - 0x30, bs.dropWhile isDigit)

/-- The digits before the point: a zero stands alone. -/
def readWhole : Reader (List Nat) := fun bs =>
  match digits bs with
  | ([], _) => none
  | (0 :: _ :: _, _) => none
  | found => some found

/-- The point and the digits after it, if there is a point. -/
def readFraction : Reader (Option (List Nat)) := fun bs =>
  match bs with
  | 0x2e :: rest =>
    match digits rest with
    | ([], _) => none
    | (found, rest) => some (some found, rest)
  | _ => some (none, bs)

/-- The exponent, if there is one. -/
def readExponent : Reader (Option (Bool × List Nat)) := fun bs =>
  match bs with
  | b :: rest =>
    if b = 0x65 ∨ b = 0x45 then
      let (negative, rest) :=
        match rest with
        | 0x2b :: rest => (false, rest)
        | 0x2d :: rest => (true, rest)
        | _ => (false, rest)
      match digits rest with
      | ([], _) => none
      | (found, rest) => some (some (negative, found), rest)
    else some (none, bs)
  | [] => some (none, bs)

/-- The parts of the number at the front. -/
def readParts : Reader NumberParts := fun bs => do
  let (negative, bs) := match bs with
    | 0x2d :: rest => (true, rest)
    | _ => (false, bs)
  let (whole, bs) ← readWhole bs
  let (fraction, bs) ← readFraction bs
  let (exponent, bs) ← readExponent bs
  return (⟨negative, whole, fraction, exponent⟩, bs)

/-- The number of the digits of a list, as far as it stays below `2 ^ 64`, and how many digits were
left out after that. -/
def significand (ds : List Nat) : Nat × Nat :=
  ds.foldl (fun (n, left) d =>
    if left = 0 ∧ n * 10 + d < wordLimit then (n * 10 + d, 0) else (n, left + 1)) (0, 0)

/-- Adds digits to a number as long as it stays below `2 ^ 64`, and counts them. -/
def addDigits (n count : Nat) : List Nat → Nat × Nat
  | [] => (n, count)
  | d :: ds => if n * 10 + d < wordLimit then addDigits (n * 10 + d) (count + 1) ds else (n, count)

/-- The number of the digits of a list. -/
def digitsValue (ds : List Nat) : Nat := ds.foldl (fun n d => n * 10 + d) 0

/-- No written exponent may exceed this. -/
def exponentLimit : Nat := 2147483647

/-- The parts are those of an integer whose digits have all been kept. -/
def NumberParts.isInteger (p : NumberParts) (left : Nat) : Bool :=
  p.fraction.isNone && p.exponent.isNone && left == 0

/-- The number that the parts stand for, if it is in range. Digits beyond the first that fit 64 bits
only count for the exponent. -/
def NumberParts.value (p : NumberParts) : Option Number :=
  let (n, left) := significand p.whole
  if p.isInteger left && !p.negative then some (.natural (UInt64.ofNat n))
  else if p.isInteger left && decide (0 < n) && decide (n ≤ negativeLimit) then
    some (.ofNegSucc (n - 1))
  else
    let (n, taken) := addDigits n 0 (p.fraction.getD [])
    let (down, written) := p.exponent.getD (false, [])
    let size := digitsValue written
    let shift : Int := if down then -(size : Int) else (size : Int)
    let magnitude :=
      if exponentLimit < size then
        if n ≠ 0 ∧ down = false then none else some Magnitude.zero
      else Magnitude.ofDecimal? n ((left : Int) - (taken : Int) + shift)
    magnitude.map fun m => .float ⟨p.negative, m⟩

/-- A number whose value counts. -/
def readNumber : Reader Number := fun bs => do
  let (parts, rest) ← readParts bs
  return (← parts.value, rest)

end ColdArchive.Json
