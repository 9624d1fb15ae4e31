/-!
Byte strings and the UTF-8 form of a text.
-/

namespace ColdArchive

/-- A string of bytes. -/
abbrev Bytes := List UInt8

/-- The UTF-8 form of a text. -/
def utf8 (s : String) : Bytes := s.toByteArray.data.toList

/-- The text whose UTF-8 form is `bs`, if `bs` is well formed. -/
def ofUtf8? (bs : Bytes) : Option String := String.fromUTF8? ⟨bs.toArray⟩

theorem ofUtf8?_utf8 (s : String) : ofUtf8? (utf8 s) = some s := by
  have h : (⟨(utf8 s).toArray⟩ : ByteArray) = s.toByteArray := by simp [utf8]
  simp only [ofUtf8?, String.fromUTF8?, h]
  rw [dif_pos s.isValidUTF8]
  rfl

theorem utf8_append (s t : String) : utf8 (s ++ t) = utf8 s ++ utf8 t := by
  simp [utf8, String.toByteArray_append]

theorem utf8_ofList (cs : List Char) :
    utf8 (String.ofList cs) = cs.flatMap String.utf8EncodeChar := by
  simp [utf8, String.toByteArray_ofList, List.utf8Encode]

theorem utf8_eq_flatMap (s : String) : utf8 s = s.toList.flatMap String.utf8EncodeChar := by
  rw [← utf8_ofList, String.ofList_toList]

/-- A text is fixed by its UTF-8 form. -/
theorem utf8_injective {s t : String} (h : utf8 s = utf8 t) : s = t := by
  have := congrArg ofUtf8? h
  simpa [ofUtf8?_utf8] using this

/-- One more than the greatest number of 64 bits. -/
def wordLimit : Nat := 18446744073709551616

/-- So many bytes of a number, the lowest first. -/
def lowBytes : (count : Nat) → Nat → Bytes
  | 0, _ => []
  | count + 1, n => UInt8.ofNat n :: lowBytes count (n / 256)

/-- The eight bytes of a number of 64 bits, the lowest first. -/
def littleEndian (n : Nat) : Bytes := lowBytes 8 n

/-- The number whose bytes, lowest first, are `bs`. -/
def ofLittleEndian : Bytes → Nat
  | [] => 0
  | b :: bs => b.toNat + 256 * ofLittleEndian bs

theorem length_lowBytes (count n : Nat) : (lowBytes count n).length = count := by
  induction count generalizing n with
  | zero => rfl
  | succ count ih => simp [lowBytes, ih]

theorem littleEndian_length (n : Nat) : (littleEndian n).length = 8 := length_lowBytes 8 n

theorem ofLittleEndian_littleEndian {n : Nat} (h : n < wordLimit) :
    ofLittleEndian (littleEndian n) = n := by
  simp only [wordLimit] at h
  simp only [littleEndian, lowBytes, ofLittleEndian, UInt8.toNat_ofNat']
  omega

end ColdArchive
