import ColdArchive.Envelope

/-!
# Envelopes opened
-/

namespace ColdArchive.Envelope

/-- The bytes of the two digits of a byte. -/
theorem utf8_byteDigits (b : UInt8) :
    (byteDigits b).flatMap String.utf8EncodeChar =
      [Hex.digit (b.toNat / 16), Hex.digit (b.toNat % 16)] := by
  have hb := b.toNat_lt
  simp [byteDigits, Hex.utf8EncodeChar_digitChar (show b.toNat / 16 < 16 by omega),
    Hex.utf8EncodeChar_digitChar (show b.toNat % 16 < 16 by omega)]

theorem utf8_encode (blob : Blob) :
    utf8 (encode blob) = 0x30 :: 0x78 ::
      blob.flatMap fun b => [Hex.digit (b.toNat / 16), Hex.digit (b.toNat % 16)] := by
  have hz : String.utf8EncodeChar '0' = [0x30] := by decide
  have hx : String.utf8EncodeChar 'x' = [0x78] := by decide
  rw [encode, utf8_ofList]
  simp [hz, hx, List.flatMap_assoc, utf8_byteDigits]

theorem pairs_digits (blob : Blob) (position : Nat) :
    pairs position (blob.flatMap fun b => [Hex.digit (b.toNat / 16), Hex.digit (b.toNat % 16)]) =
      .ok blob := by
  induction blob generalizing position with
  | nil => rfl
  | cons b blob ih =>
    have hb := b.toNat_lt
    have hsplit : b.toNat / 16 * 16 + b.toNat % 16 = b.toNat := by omega
    simp [pairs, Hex.value?_digit (show b.toNat / 16 < 16 by omega),
      Hex.value?_digit (show b.toNat % 16 < 16 by omega), ih, hsplit]

/-- **A blob is read back from its envelope.** -/
theorem decode_encode (blob : Blob) : decode (encode blob) = .ok blob := by
  have heven : (blob.flatMap fun b =>
      [Hex.digit (b.toNat / 16), Hex.digit (b.toNat % 16)]).length % 2 = 0 := by
    induction blob with
    | nil => rfl
    | cons b blob ih =>
      rw [List.flatMap_cons, List.length_append]
      simp only [List.length_cons, List.length_nil]
      omega
  rw [decode, utf8_encode]
  simp only [afterPrefix?, true_or, if_true, heven, pairs_digits]
  rfl

/-! ### Case -/

/-- A byte with a capital letter made small. -/
def lowered (b : UInt8) : UInt8 := if 0x41 ≤ b ∧ b ≤ 0x5a then b + 0x20 else b

theorem digit_of_value? {b : UInt8} {n : Nat} (h : Hex.value? b = some n) :
    Hex.digit n = lowered b := by
  have all : ∀ k < 256, (Hex.value? (UInt8.ofNat k)).all
      (fun n => Hex.digit n == lowered (UInt8.ofNat k)) = true := by decide +kernel
  have hb := all b.toNat b.toNat_lt
  rw [UInt8.ofNat_toNat, h] at hb
  simpa using hb

theorem even_of_pair {high low : UInt8} {rest : Bytes}
    (heven : (high :: low :: rest).length % 2 = 0) : rest.length % 2 = 0 := by
  simp only [List.length_cons] at heven
  omega

/-- The digits of the bytes of pairs of digits are those digits in small letters. -/
theorem digits_of_pairs {position : Nat} {bs : Bytes} {blob : Blob}
    (heven : bs.length % 2 = 0) (h : pairs position bs = .ok blob) :
    (blob.flatMap fun b => [Hex.digit (b.toNat / 16), Hex.digit (b.toNat % 16)]) =
      bs.map lowered := by
  fun_induction pairs position bs generalizing blob with
  | case1 => cases h; rfl
  | case2 => simp at heven
  | case3 | case4 => cases h
  | case5 position high low rest hi hhi lo hlo blob' hrest ih =>
    cases h
    have hi16 := Hex.value?_lt hhi
    have lo16 := Hex.value?_lt hlo
    have hlt : hi * 16 + lo < 256 := by omega
    have hbyte : (UInt8.ofNat (hi * 16 + lo)).toNat = hi * 16 + lo :=
      UInt8.toNat_ofNat_of_lt' hlt
    have hdiv : (hi * 16 + lo) / 16 = hi := by omega
    have hmod : (hi * 16 + lo) % 16 = lo := by omega
    rw [List.flatMap_cons, ih (even_of_pair heven) hrest, hbyte, hdiv, hmod, digit_of_value? hhi,
      digit_of_value? hlo]
    rfl
  | case6 => cases h

/-- **The envelope of a blob is the text that it was read from**, in small letters. -/
theorem utf8_encode_of_decode {text : String} {blob : Blob} (h : decode text = .ok blob) :
    utf8 (encode blob) = (utf8 text).map lowered := by
  unfold decode at h
  split at h
  · cases h
  · next digits hprefix =>
    split at h
    · cases h
    · next heven =>
      rw [utf8_encode, digits_of_pairs (by omega) h]
      unfold afterPrefix? at hprefix
      split at hprefix
      · next x rest htext =>
        split at hprefix
        · next hx =>
          cases hprefix
          rw [htext]
          rcases hx with rfl | rfl <;> rfl
        · cases hprefix
      · cases hprefix

end ColdArchive.Envelope
