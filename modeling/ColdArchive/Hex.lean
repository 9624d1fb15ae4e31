import ColdArchive.Bytes

/-!
Hexadecimal digits as bytes.
-/

namespace ColdArchive.Hex

/-- The value of a digit of either case. -/
def value? (b : UInt8) : Option Nat :=
  if 0x30 ≤ b ∧ b ≤ 0x39 then some (b.toNat - 0x30)
  else if 0x61 ≤ b ∧ b ≤ 0x66 then some (b.toNat - 0x61 + 10)
  else if 0x41 ≤ b ∧ b ≤ 0x46 then some (b.toNat - 0x41 + 10)
  else none

/-- The lowercase digit of a value below sixteen. -/
def digit (n : Nat) : UInt8 :=
  if n < 10 then UInt8.ofNat (0x30 + n) else UInt8.ofNat (0x61 + (n - 10))

/-- The same digit as a character. -/
def digitChar (n : Nat) : Char := Char.ofNat (digit n).toNat

theorem value?_digit {n : Nat} (h : n < 16) : value? (digit n) = some n := by
  have : ∀ m : Fin 16, value? (digit m) = some m.1 := by decide
  exact this ⟨n, h⟩

/-- A digit is written as one byte. -/
theorem utf8EncodeChar_digitChar {n : Nat} (h : n < 16) :
    String.utf8EncodeChar (digitChar n) = [digit n] := by
  have : ∀ m : Fin 16, String.utf8EncodeChar (digitChar m) = [digit m] := by decide
  exact this ⟨n, h⟩

theorem value?_lt {b : UInt8} {n : Nat} (h : value? b = some n) : n < 16 := by
  have all : ∀ b : UInt8, ∀ n ∈ value? b, n < 16 := by
    intro b n hn
    unfold value? at hn
    split at hn
    · next hb => simp at hn; have := UInt8.le_iff_toNat_le.1 hb.2; simp at this; omega
    · split at hn
      · next hb => simp at hn; have := UInt8.le_iff_toNat_le.1 hb.2; simp at this; omega
      · split at hn
        · next hb => simp at hn; have := UInt8.le_iff_toNat_le.1 hb.2; simp at this; omega
        · simp at hn
  exact all b n h

end ColdArchive.Hex
