import ColdArchive.Proofs.Envelope
import ColdArchive.Proofs.Utf8

/-!
# Which texts are envelopes

The texts that are read as envelopes are one of the two prefixes with digits of either case behind
it, an even number of them. The envelope of what was read is the text in small letters, so two texts
are read alike if and only if they differ in the case of their letters at most. A text that is not
read is refused for the first of three reasons that it gives: no prefix, an odd number of bytes behind
it, or a byte that is no digit, of which the first is named.
-/

namespace ColdArchive.Envelope

/-! ### Small letters -/

theorem lowered_of_high {b : UInt8} (h : 128 ≤ b.toNat) : lowered b = b := by
  refine if_neg fun hb => ?_
  have hle : b.toNat ≤ 90 := UInt8.le_iff_toNat_le.mp hb.2
  omega

theorem toLower_of_high {c : Char} (h : 128 ≤ c.toNat) : c.toLower = c := by
  refine dif_neg fun hc => ?_
  have hle : c.toNat ≤ 90 := UInt32.le_iff_toNat_le.mp hc.2
  omega

theorem toList_toLower (s : String) : s.toLower.toList = s.toList.map Char.toLower :=
  String.toList_map

/-- A text in small letters has the bytes of the text, with their capital letters made small. -/
theorem utf8_toLower (s : String) : utf8 s.toLower = (utf8 s).map lowered := by
  have ascii : ∀ k < 128, String.utf8EncodeChar (Char.ofNat k).toLower =
      (String.utf8EncodeChar (Char.ofNat k)).map lowered := by decide +kernel
  have each (c : Char) : String.utf8EncodeChar c.toLower =
      (String.utf8EncodeChar c).map lowered := by
    -- Above 128 neither side changes anything, so only the characters below are looked through.
    rcases utf8EncodeChar_cases c with ⟨hc, -⟩ | ⟨hc, hhigh⟩
    · have hascii := ascii c.toNat hc
      rwa [Char.ofNat_toNat] at hascii
    · rw [toLower_of_high hc, List.map_congr_left fun b hb => lowered_of_high (hhigh b hb),
        List.map_id']
  rw [utf8_eq_flatMap, utf8_eq_flatMap, toList_toLower, List.flatMap_map, List.map_flatMap]
  simp only [each]

/-- **The envelope of what was read is the text in small letters.** -/
theorem encode_of_decode {text : String} {blob : Blob} (h : decode text = .ok blob) :
    encode blob = text.toLower := by
  refine utf8_injective ?_
  rw [utf8_encode_of_decode h, utf8_toLower]

/-! ### Digits -/

/-- A hexadecimal digit of either case. -/
def IsDigit (c : Char) : Prop :=
  ('0' ≤ c ∧ c ≤ '9') ∨ ('a' ≤ c ∧ c ≤ 'f') ∨ ('A' ≤ c ∧ c ≤ 'F')

instance (c : Char) : Decidable (IsDigit c) := inferInstanceAs (Decidable (_ ∨ _))

/-- A byte that is a digit as a character. -/
def IsDigitByte (b : UInt8) : Prop := IsDigit (Char.ofNat b.toNat)

instance (b : UInt8) : Decidable (IsDigitByte b) := inferInstanceAs (Decidable (IsDigit _))

theorem isSome_value?_iff (b : UInt8) : (Hex.value? b).isSome = true ↔ IsDigitByte b := by
  have all : ∀ k < 256, ((Hex.value? (UInt8.ofNat k)).isSome = true ↔
      IsDigitByte (UInt8.ofNat k)) := by decide +kernel
  have hb := all b.toNat b.toNat_lt
  rwa [UInt8.ofNat_toNat] at hb

theorem lt_of_isDigit {c : Char} (h : IsDigit c) : c.toNat < 128 := by
  have below {last : Char} (hle : c ≤ last) (hlast : last.toNat < 128) : c.toNat < 128 :=
    Nat.lt_of_le_of_lt (UInt32.le_iff_toNat_le.mp hle) hlast
  rcases h with ⟨-, h⟩ | ⟨-, h⟩ | ⟨-, h⟩ <;> exact below h (by decide)

theorem lt_of_isDigitByte {b : UInt8} (h : IsDigitByte b) : b.toNat < 128 := by
  have hb := lt_of_isDigit h
  have hvalid : b.toNat.isValidChar := .inl (by have := b.toNat_lt; omega)
  rwa [Char.ofNat, dif_pos hvalid] at hb

/-- A text of digits is a text whose bytes are digits. -/
theorem isDigitByte_utf8_iff (s : String) :
    (∀ b ∈ utf8 s, IsDigitByte b) ↔ ∀ c ∈ s.toList, IsDigit c := by
  have single {c : Char} (hc : c.toNat < 128) :
      IsDigitByte (UInt8.ofNat c.toNat) ↔ IsDigit c := by
    have hbyte : (UInt8.ofNat c.toNat).toNat = c.toNat :=
      UInt8.toNat_ofNat_of_lt' (Nat.lt_trans hc (by decide))
    rw [IsDigitByte, hbyte, Char.ofNat_toNat]
  simp only [utf8_eq_flatMap, List.mem_flatMap]
  constructor
  · intro h c hc
    rcases utf8EncodeChar_cases c with ⟨hlt, hone⟩ | ⟨-, hhigh⟩
    · exact (single hlt).mp (h _ ⟨c, hc, by simp [hone]⟩)
    · obtain ⟨b, hb⟩ := List.exists_mem_of_ne_nil _ (String.utf8EncodeChar_ne_nil (c := c))
      have hlow := lt_of_isDigitByte (h b ⟨c, hc, hb⟩)
      have hhigh := hhigh b hb
      omega
  · rintro h b ⟨c, hc, hb⟩
    rcases utf8EncodeChar_cases c with ⟨hlt, hone⟩ | ⟨hge, -⟩
    · rw [hone, List.mem_singleton] at hb
      exact hb ▸ (single hlt).mpr (h c hc)
    · have hlt := lt_of_isDigit (h c hc)
      omega

/-- A text of digits has as many bytes as characters. -/
theorem utf8ByteSize_of_digits {s : String} (h : ∀ c ∈ s.toList, IsDigit c) :
    s.utf8ByteSize = s.length := by
  have each : ∀ cs : List Char, (∀ c ∈ cs, IsDigit c) →
      (cs.flatMap String.utf8EncodeChar).length = cs.length := by
    intro cs hcs
    induction cs with
    | nil => rfl
    | cons c cs ih =>
      rcases utf8EncodeChar_cases c with ⟨-, hone⟩ | ⟨hge, -⟩
      · rw [List.flatMap_cons, hone, List.length_append, ih fun d hd => hcs d (by simp [hd])]
        simp [Nat.add_comm]
      · have hlt := lt_of_isDigit (hcs c (by simp))
        omega
  rw [← length_utf8, utf8_eq_flatMap, each _ h, String.length_toList]

/-- The first byte that is no digit, and how many bytes come before it. -/
inductive FirstStray : Bytes → UInt8 → Nat → Prop
  | here {b : UInt8} {bs : Bytes} (h : ¬ IsDigitByte b) : FirstStray (b :: bs) b 0
  | later {digit b : UInt8} {bs : Bytes} {i : Nat} (h : IsDigitByte digit)
      (hstray : FirstStray bs b i) : FirstStray (digit :: bs) b (i + 1)

theorem digits_or_stray (bs : Bytes) :
    (∀ b ∈ bs, IsDigitByte b) ∨ ∃ b i, FirstStray bs b i := by
  induction bs with
  | nil => exact .inl (by simp)
  | cons b bs ih =>
    by_cases hb : IsDigitByte b
    · rcases ih with hall | ⟨c, i, hstray⟩
      · exact .inl (by simpa [hb] using hall)
      · exact .inr ⟨c, i + 1, .later hb hstray⟩
    · exact .inr ⟨b, 0, .here hb⟩

/-- No digit is the first byte that is none. -/
theorem FirstStray.of_digit {digit b : UInt8} {bs : Bytes} {i : Nat}
    (h : FirstStray (digit :: bs) b i) (hdigit : IsDigitByte digit) :
    ∃ j, i = j + 1 ∧ FirstStray bs b j := by
  cases h with
  | here hb => exact absurd hdigit hb
  | later _ hstray => exact ⟨_, rfl, hstray⟩

theorem FirstStray.of_pair {high low b : UInt8} {rest : Bytes} {i : Nat}
    (h : FirstStray (high :: low :: rest) b i) (hhigh : IsDigitByte high)
    (hlow : IsDigitByte low) : ∃ j, i = j + 2 ∧ FirstStray rest b j := by
  obtain ⟨j, rfl, hbehind⟩ := h.of_digit hhigh
  obtain ⟨k, rfl, hstray⟩ := hbehind.of_digit hlow
  exact ⟨k, rfl, hstray⟩

theorem not_isDigitByte_of_value? {b : UInt8} (h : Hex.value? b = none) : ¬ IsDigitByte b := by
  rw [← isSome_value?_iff, h]
  exact Bool.false_ne_true

theorem isDigitByte_of_value? {b : UInt8} {n : Nat} (h : Hex.value? b = some n) :
    IsDigitByte b := by
  rw [← isSome_value?_iff, h]
  rfl

/-- An even number of digits is read. -/
theorem exists_pairs_eq_ok {position : Nat} {bs : Bytes} (heven : bs.length % 2 = 0)
    (h : ∀ b ∈ bs, IsDigitByte b) : ∃ blob, pairs position bs = .ok blob := by
  fun_induction pairs position bs with
  | case1 | case2 | case5 => exact ⟨_, rfl⟩
  | case3 _ high _ _ hhigh => exact absurd (h high (by simp)) (not_isDigitByte_of_value? hhigh)
  | case4 _ _ low _ _ _ hlow => exact absurd (h low (by simp)) (not_isDigitByte_of_value? hlow)
  | case6 position high low rest _ _ _ _ d hrest ih =>
    obtain ⟨blob, hblob⟩ := ih (even_of_pair heven) fun b hb => h b (by simp [hb])
    rw [hrest] at hblob
    cases hblob

/-- The first byte that is no digit is the one that is blamed. -/
theorem pairs_of_stray {position : Nat} {bs : Bytes} {b : UInt8} {i : Nat}
    (heven : bs.length % 2 = 0) (h : FirstStray bs b i) :
    pairs position bs = .error (.invalidDigit b (position + i)) := by
  fun_induction pairs position bs generalizing i with
  | case1 => cases h
  | case2 => simp at heven
  | case3 _ high _ _ hhigh =>
    cases h with
    | here => rfl
    | later hdigit => exact absurd hdigit (not_isDigitByte_of_value? hhigh)
  | case4 _ high low _ _ hhigh hlow =>
    obtain ⟨j, rfl, hbehind⟩ := h.of_digit (isDigitByte_of_value? hhigh)
    cases hbehind with
    | here => rfl
    | later hdigit => exact absurd hdigit (not_isDigitByte_of_value? hlow)
  | case5 _ high low rest _ hhigh _ hlow _ hrest ih =>
    obtain ⟨j, rfl, hstray⟩ := h.of_pair (isDigitByte_of_value? hhigh) (isDigitByte_of_value? hlow)
    rw [ih (even_of_pair heven) hstray] at hrest
    cases hrest
  | case6 position high low rest _ hhigh _ hlow d hrest ih =>
    obtain ⟨j, rfl, hstray⟩ := h.of_pair (isDigitByte_of_value? hhigh) (isDigitByte_of_value? hlow)
    rw [ih (even_of_pair heven) hstray] at hrest
    cases hrest
    rw [Nat.add_assoc, Nat.add_comm 2]

/-! ### Texts -/

/-- A text that starts with one of the two prefixes, and what stands behind it. -/
inductive Prefixed : (text digits : String) → Prop
  | small (digits : String) : Prefixed ("0x" ++ digits) digits
  | capital (digits : String) : Prefixed ("0X" ++ digits) digits

theorem Prefixed.toLower {text digits : String} (h : Prefixed text digits) :
    text.toLower = "0x" ++ digits.toLower := by
  have hsmall : "0x".toList.map Char.toLower = "0x".toList := by decide
  have hcapital : "0X".toList.map Char.toLower = "0x".toList := by decide
  refine String.toList_inj.mp ?_
  cases h with
  | small =>
    rw [toList_toLower, String.toList_append, List.map_append, hsmall, String.toList_append,
      toList_toLower]
  | capital =>
    rw [toList_toLower, String.toList_append, List.map_append, hcapital, String.toList_append,
      toList_toLower]

theorem afterPrefix?_eq_some_iff {text : String} {bs : Bytes} :
    afterPrefix? (utf8 text) = some bs ↔ ∃ digits, Prefixed text digits ∧ utf8 digits = bs := by
  constructor
  · intro h
    unfold afterPrefix? at h
    split at h
    · next x rest htext =>
      split at h
      · next hx =>
        cases h
        obtain ⟨tail, rfl, htail⟩ := exists_cons_of_utf8 htext (by decide)
        have hlt : x.toNat < 128 := by rcases hx with rfl | rfl <;> decide
        obtain ⟨digits, rfl, hdigits⟩ := exists_cons_of_utf8 htail hlt
        refine ⟨digits, ?_, hdigits⟩
        rw [← String.append_assoc]
        rcases hx with rfl | rfl
        · exact .small digits
        · exact .capital digits
      · cases h
    · cases h
  · rintro ⟨digits, h | h, rfl⟩
    · rw [utf8_append]
      rfl
    · rw [utf8_append]
      rfl

/-- What is read behind the prefix. -/
theorem decode_of_prefixed {text digits : String} (h : Prefixed text digits) :
    decode text = if digits.utf8ByteSize % 2 = 1 then .error (.oddLength digits.utf8ByteSize)
      else pairs 0 (utf8 digits) := by
  rw [decode, afterPrefix?_eq_some_iff.mpr ⟨digits, h, rfl⟩, ← length_utf8]

theorem decode_of_not_prefixed {text : String} (h : ∀ digits, ¬ Prefixed text digits) :
    decode text = .error .missingPrefix := by
  have hnone : afterPrefix? (utf8 text) = none := by
    refine Option.eq_none_iff_forall_ne_some.mpr fun bs hbs => ?_
    obtain ⟨digits, hprefixed, -⟩ := afterPrefix?_eq_some_iff.mp hbs
    exact h digits hprefixed
  rw [decode, hnone]

/-- What makes a text read as it is. -/
inductive Verdict (text : String) : Except Defect Blob → Prop
  | missing (h : ∀ digits, ¬ Prefixed text digits) : Verdict text (.error .missingPrefix)
  | odd {digits : String} (h : Prefixed text digits) (hodd : digits.utf8ByteSize % 2 = 1) :
      Verdict text (.error (.oddLength digits.utf8ByteSize))
  | stray {digits : String} {b : UInt8} {i : Nat} (h : Prefixed text digits)
      (heven : digits.utf8ByteSize % 2 = 0) (hstray : FirstStray (utf8 digits) b i) :
      Verdict text (.error (.invalidDigit b i))
  | read {digits : String} {blob : Blob} (h : Prefixed text digits)
      (heven : digits.utf8ByteSize % 2 = 0) (hdigits : ∀ c ∈ digits.toList, IsDigit c) :
      Verdict text (.ok blob)

theorem decode_of_stray {text digits : String} (h : Prefixed text digits)
    (heven : digits.utf8ByteSize % 2 = 0) {b : UInt8} {i : Nat}
    (hstray : FirstStray (utf8 digits) b i) : decode text = .error (.invalidDigit b i) := by
  rw [decode_of_prefixed h, if_neg (by omega), pairs_of_stray (length_utf8 _ ▸ heven) hstray,
    Nat.zero_add]

theorem exists_decode_of_digits {text digits : String} (h : Prefixed text digits)
    (heven : digits.utf8ByteSize % 2 = 0) (hdigits : ∀ c ∈ digits.toList, IsDigit c) :
    ∃ blob, decode text = .ok blob := by
  rw [decode_of_prefixed h, if_neg (by omega)]
  exact exists_pairs_eq_ok (length_utf8 _ ▸ heven) ((isDigitByte_utf8_iff _).mpr hdigits)

/-- Every text is read as it is for one of these reasons. -/
theorem verdict_decode (text : String) : Verdict text (decode text) := by
  by_cases hprefixed : ∃ digits, Prefixed text digits
  · obtain ⟨digits, h⟩ := hprefixed
    rcases Nat.mod_two_eq_zero_or_one digits.utf8ByteSize with heven | hodd
    · rcases digits_or_stray (utf8 digits) with hall | ⟨b, i, hstray⟩
      · have hdigits := (isDigitByte_utf8_iff digits).mp hall
        obtain ⟨blob, hblob⟩ := exists_decode_of_digits h heven hdigits
        rw [hblob]
        exact .read h heven hdigits
      · rw [decode_of_stray h heven hstray]
        exact .stray h heven hstray
    · rw [decode_of_prefixed h, if_pos hodd]
      exact .odd h hodd
  · have hnone : ∀ digits, ¬ Prefixed text digits := fun digits h => hprefixed ⟨digits, h⟩
    rw [decode_of_not_prefixed hnone]
    exact .missing hnone

theorem verdict_of_decode {text : String} {r : Except Defect Blob} (h : decode text = r) :
    Verdict text r :=
  h ▸ verdict_decode text

/-- Two blobs with one envelope are one blob. -/
theorem encode_injective {blob other : Blob} (h : encode blob = encode other) : blob = other := by
  have hblob := decode_encode blob
  rw [h, decode_encode] at hblob
  exact (Except.ok.inj hblob).symm

/-- **Envelopes are read exactly.** A blob is read back from its envelope. A text is read if and only
if it is a prefix with an even number of digits behind it, and the envelope of what was read is the
small prefix with those digits in small letters. Else it has no prefix, or an odd number of bytes
behind it, or a first byte that is no digit, and is refused for that. Two texts that are read have the
same blob if and only if they are the same in small letters. -/
theorem read_exactly :
    (∀ blob, decode (encode blob) = .ok blob) ∧
      (∀ text, (∃ blob, decode text = .ok blob) ↔ ∃ digits, Prefixed text digits ∧
        digits.length % 2 = 0 ∧ ∀ c ∈ digits.toList, IsDigit c) ∧
      (∀ text digits blob, Prefixed text digits → decode text = .ok blob →
        encode blob = "0x" ++ digits.toLower) ∧
      (∀ text, decode text = .error .missingPrefix ↔ ∀ digits, ¬ Prefixed text digits) ∧
      (∀ text n, decode text = .error (.oddLength n) ↔ ∃ digits, Prefixed text digits ∧
        digits.utf8ByteSize = n ∧ n % 2 = 1) ∧
      (∀ text b i, decode text = .error (.invalidDigit b i) ↔ ∃ digits, Prefixed text digits ∧
        digits.utf8ByteSize % 2 = 0 ∧ FirstStray (utf8 digits) b i) ∧
      ∀ text other blob blob', decode text = .ok blob → decode other = .ok blob' →
        (blob = blob' ↔ text.toLower = other.toLower) := by
  refine ⟨decode_encode, fun text => ⟨?_, ?_⟩, ?_, fun text => ⟨?_, decode_of_not_prefixed⟩,
    fun text n => ⟨?_, ?_⟩, fun text b i => ⟨?_, ?_⟩, ?_⟩
  · rintro ⟨blob, hblob⟩
    cases verdict_of_decode hblob with
    | read h heven hdigits => exact ⟨_, h, utf8ByteSize_of_digits hdigits ▸ heven, hdigits⟩
  · rintro ⟨digits, h, heven, hdigits⟩
    exact exists_decode_of_digits h (utf8ByteSize_of_digits hdigits ▸ heven) hdigits
  · intro text digits blob h hblob
    rw [encode_of_decode hblob, h.toLower]
  · intro herror
    cases verdict_of_decode herror with
    | missing h => exact h
  · intro herror
    cases verdict_of_decode herror with
    | odd h hodd => exact ⟨_, h, rfl, hodd⟩
  · rintro ⟨digits, h, rfl, hodd⟩
    rw [decode_of_prefixed h, if_pos hodd]
  · intro herror
    cases verdict_of_decode herror with
    | stray h heven hstray => exact ⟨_, h, heven, hstray⟩
  · rintro ⟨digits, h, heven, hstray⟩
    exact decode_of_stray h heven hstray
  · intro text other blob blob' hblob hother
    rw [← encode_of_decode hblob, ← encode_of_decode hother]
    exact ⟨congrArg encode, encode_injective⟩

/-- A character of two bytes is an even number of them, one of three is not. -/
example : decode "0xé" = .error (.invalidDigit 0xc3 0) ∧ decode "0x€" = .error (.oddLength 3) :=
  ⟨rfl, rfl⟩

end ColdArchive.Envelope
