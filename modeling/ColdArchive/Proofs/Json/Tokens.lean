import ColdArchive.Json.Parser
import ColdArchive.Json.Printer
import ColdArchive.Proofs.Utf8

/-!
# Strings and integers read back

The text of a string or of an integer is read as that string or integer, and the bytes behind it
are left. Behind an integer these bytes must not go on with a number.
-/

namespace ColdArchive

namespace Json

/-! ### Strings -/

/-- The byte stands for itself in a string. -/
def IsPlain (b : UInt8) : Prop := b ≠ 0x22 ∧ ¬ b < 0x20 ∧ b ≠ 0x5c

theorem isPlain_ofNat {n : Nat} (hlt : n < 256) (h : 0x20 ≤ n) (hq : n ≠ 0x22) (hb : n ≠ 0x5c) :
    IsPlain (UInt8.ofNat n) := by
  have ht : (UInt8.ofNat n).toNat = n := by simp; omega
  refine ⟨fun he => hq ?_, ?_, fun he => hb ?_⟩
  · simpa [ht] using congrArg UInt8.toNat he
  · intro he
    rw [UInt8.lt_iff_toNat_lt, ht] at he
    simp at he
    omega
  · simpa [ht] using congrArg UInt8.toNat he

/-- Only quotes, backslashes and controls do not stand for themselves. -/
theorem isPlain_of_mem {c : Char} (hq : c ≠ '"') (hb : c ≠ '\\') (h : 0x20 ≤ c.toNat) {b : UInt8}
    (hm : b ∈ String.utf8EncodeChar c) : IsPlain b := by
  rcases utf8EncodeChar_cases c with ⟨hlow, hone⟩ | ⟨-, hhigh⟩
  · rw [hone, List.mem_singleton] at hm
    subst hm
    exact isPlain_ofNat (by omega) h (fun he => hq (Char.toNat_inj.mp he))
      (fun he => hb (Char.toNat_inj.mp he))
  · have hhigh := hhigh b hm
    have hplain := isPlain_ofNat b.toNat_lt (by omega) (by omega) (by omega)
    rwa [UInt8.ofNat_toNat] at hplain

theorem stringBytes_plain {bs : Bytes} (h : ∀ b ∈ bs, IsPlain b) (done rest : Bytes) :
    stringBytes done (bs ++ rest) = stringBytes (bs.reverse ++ done) rest := by
  induction bs generalizing done with
  | nil => rfl
  | cons b bs ih =>
    obtain ⟨hq, hc, hb⟩ := h b (by simp)
    have ih := ih fun b hb => h b (by simp [hb])
    rw [List.cons_append, stringBytes.eq_def]
    simp [hq, hc, hb, ih]

/-- An escape of one letter. -/
theorem stringBytes_letter {e b : UInt8} (he : e ≠ 0x75) (hb : escapedByte e = some b)
    (done rest : Bytes) : stringBytes done (0x5c :: e :: rest) = stringBytes (b :: done) rest := by
  rw [stringBytes.eq_def]
  simp [he, hb]

/-- An escape of a number below that of the first character that can stand for itself. -/
theorem stringBytes_control {n : Nat} (h : n < 0x20) (done rest : Bytes) :
    stringBytes done (0x5c :: 0x75 :: 0x30 :: 0x30 :: Hex.digit (n / 16) :: Hex.digit (n % 16)
      :: rest) = stringBytes ((characterBytes n).reverse ++ done) rest := by
  have hd : fourDigits 0x30 0x30 (Hex.digit (n / 16)) (Hex.digit (n % 16)) = some n := by
    have hz : Hex.value? 0x30 = some 0 := by decide
    simp only [fourDigits, hz, Hex.value?_digit (show n / 16 < 16 by omega),
      Hex.value?_digit (show n % 16 < 16 by omega), Option.bind_eq_bind, Option.bind_some]
    exact congrArg some (by omega)
  have ht : isTrailing n = false := by simp [isTrailing]; omega
  have hl : isLeading n = false := by simp [isLeading]; omega
  rw [stringBytes.eq_def]
  simp [hd, ht, hl]

/-- **A character inside a string** is read as its bytes. -/
theorem stringBytes_escape (c : Char) (done rest : Bytes) :
    stringBytes done (utf8 (escape c) ++ rest) =
      stringBytes ((String.utf8EncodeChar c).reverse ++ done) rest := by
  unfold escape
  by_cases h1 : c = '"'
  · subst h1
    exact stringBytes_letter (by decide) (by decide) done rest
  by_cases h2 : c = '\\'
  · subst h2
    exact stringBytes_letter (by decide) (by decide) done rest
  by_cases h3 : c = '\x08'
  · subst h3
    exact stringBytes_letter (by decide) (by decide) done rest
  by_cases h4 : c = '\t'
  · subst h4
    exact stringBytes_letter (by decide) (by decide) done rest
  by_cases h5 : c = '\n'
  · subst h5
    exact stringBytes_letter (by decide) (by decide) done rest
  by_cases h6 : c = '\x0c'
  · subst h6
    exact stringBytes_letter (by decide) (by decide) done rest
  by_cases h7 : c = '\r'
  · subst h7
    exact stringBytes_letter (by decide) (by decide) done rest
  rw [if_neg h1, if_neg h2, if_neg h3, if_neg h4, if_neg h5, if_neg h6, if_neg h7]
  by_cases h8 : c.toNat < 0x20
  · have hu : utf8 "\\u00" = [0x5c, 0x75, 0x30, 0x30] := by decide
    have hc : characterBytes c.toNat = String.utf8EncodeChar c := by
      rw [characterBytes, Char.ofNat_toNat]
    rw [if_pos h8, utf8_append, hu, utf8_ofList, ← hc, ← stringBytes_control h8]
    simp [Hex.utf8EncodeChar_digitChar (show c.toNat / 16 < 16 by omega),
      Hex.utf8EncodeChar_digitChar (show c.toNat % 16 < 16 by omega)]
  · rw [if_neg h8, utf8_ofList, List.flatMap_singleton]
    exact stringBytes_plain (fun b hb => isPlain_of_mem h1 h2 (by omega) hb) done rest

theorem stringBytes_content (cs : List Char) (done rest : Bytes) :
    stringBytes done (cs.flatMap (fun c => utf8 (escape c)) ++ 0x22 :: rest) =
      some (done.reverse ++ cs.flatMap String.utf8EncodeChar, rest) := by
  induction cs generalizing done with
  | nil =>
    rw [List.flatMap_nil, List.nil_append, stringBytes.eq_def]
    simp
  | cons c cs ih =>
    rw [List.flatMap_cons, List.append_assoc, stringBytes_escape, ih]
    simp

/-- The text of a string between its quotes. -/
def content (s : String) : Bytes := s.toList.flatMap fun c => utf8 (escape c)

theorem utf8_stringText (s : String) : utf8 (stringText s) = 0x22 :: content s ++ [0x22] := by
  have hq : utf8 "\"" = [0x22] := by decide
  simp [stringText, utf8_append, utf8_join, hq, content, List.flatMap_map]

/-- **A string is read back.** -/
theorem readString_content (s : String) (rest : Bytes) :
    readString (content s ++ 0x22 :: rest) = some (s, rest) := by
  simp [readString, content, stringBytes_content, ← utf8_eq_flatMap, ofUtf8?_utf8]

/-! ### Integers -/

/-- The digits of a number. -/
def decimals (n : Nat) : List Nat :=
  if n < 10 then [n] else decimals (n / 10) ++ [n % 10]

/-- The text of a number. -/
def decimalBytes (n : Nat) : Bytes := (decimals n).map fun d => UInt8.ofNat (0x30 + d)

theorem decimals_of_lt {n : Nat} (h : n < 10) : decimals n = [n] := by
  rw [decimals, if_pos h]

theorem decimals_of_le {n : Nat} (h : 10 ≤ n) : decimals n = decimals (n / 10) ++ [n % 10] := by
  rw [decimals, if_neg (by omega)]

theorem utf8_repr (n : Nat) : utf8 n.repr = decimalBytes n := by
  induction n using Nat.strongRecOn with
  | _ n ih =>
    have digit : ∀ d < 10, utf8 (String.singleton d.digitChar) = [UInt8.ofNat (0x30 + d)] := by
      decide
    by_cases h : n < 10
    · rw [Nat.repr_of_lt h, digit n h, decimalBytes, decimals_of_lt h]
      rfl
    · have h : 10 ≤ n := by omega
      rw [Nat.repr_of_ge h, utf8_append, ih (n / 10) (by omega), digit (n % 10) (by omega)]
      simp [decimalBytes, decimals_of_le h]

theorem decimals_lt {n d : Nat} (h : d ∈ decimals n) : d < 10 := by
  induction n using Nat.strongRecOn with
  | _ n ih =>
    by_cases hn : n < 10
    · rw [decimals_of_lt hn, List.mem_singleton] at h
      omega
    · rw [decimals_of_le (by omega), List.mem_append, List.mem_singleton] at h
      rcases h with h | h
      · exact ih (n / 10) (by omega) h
      · omega

/-- The first digit is no zero, unless it is the only one. -/
theorem decimals_cons (n : Nat) :
    ∃ d ds, decimals n = d :: ds ∧ (d = 0 → n = 0 ∧ ds = []) := by
  induction n using Nat.strongRecOn with
  | _ n ih =>
    by_cases h : n < 10
    · exact ⟨n, [], decimals_of_lt h, fun h0 => ⟨h0, rfl⟩⟩
    · obtain ⟨d, ds, hd, h0⟩ := ih (n / 10) (by omega)
      refine ⟨d, ds ++ [n % 10], by rw [decimals_of_le (by omega), hd, List.cons_append], ?_⟩
      intro hz
      have := (h0 hz).1
      omega

/-- All digits of a number below the limit are kept. -/
theorem significand_decimals {n : Nat} (h : n < wordLimit) : significand (decimals n) = (n, 0) := by
  induction n using Nat.strongRecOn with
  | _ n ih =>
    by_cases hn : n < 10
    · rw [decimals_of_lt hn]
      simp [significand, h]
    · have hq := ih (n / 10) (by omega) (by omega)
      have hs : n / 10 * 10 + n % 10 = n := by omega
      rw [significand] at hq
      rw [decimals_of_le (by omega), significand, List.foldl_append, hq]
      simp [hs, h]

theorem isDigit_ofNat {d : Nat} (h : d < 10) :
    isDigit (UInt8.ofNat (0x30 + d)) = true ∧ (UInt8.ofNat (0x30 + d)).toNat - 0x30 = d := by
  have : ∀ d < 10, isDigit (UInt8.ofNat (0x30 + d)) = true ∧
      (UInt8.ofNat (0x30 + d)).toNat - 0x30 = d := by decide
  exact this d h

/-- No number goes on with these bytes. -/
def Stops (bs : Bytes) : Prop :=
  ∀ b, bs.head? = some b → isDigit b = false ∧ b ≠ 0x2e ∧ b ≠ 0x65 ∧ b ≠ 0x45

@[simp] theorem stops_nil : Stops [] := by simp [Stops]

@[simp] theorem stops_comma (bs : Bytes) : Stops (0x2c :: bs) := by simp [Stops, isDigit]

@[simp] theorem stops_bracket (bs : Bytes) : Stops (0x5d :: bs) := by simp [Stops, isDigit]

@[simp] theorem stops_brace (bs : Bytes) : Stops (0x7d :: bs) := by simp [Stops, isDigit]

theorem digits_append {ds : List Nat} (h : ∀ d ∈ ds, d < 10) {rest : Bytes} (hs : Stops rest) :
    digits (ds.map (fun d => UInt8.ofNat (0x30 + d)) ++ rest) = (ds, rest) := by
  induction ds with
  | nil =>
    cases rest with
    | nil => rfl
    | cons b rest => simp [digits, (hs b rfl).1]
  | cons d ds ih =>
    have ih := ih fun d hd => h d (by simp [hd])
    obtain ⟨hd, hv⟩ := isDigit_ofNat (h d (by simp))
    simp only [digits, Prod.mk.injEq] at ih
    simp only [digits, List.map_cons, List.cons_append, List.takeWhile_cons, List.dropWhile_cons,
      hd,
      if_true, hv, ih.1, ih.2]

theorem readWhole_decimal (n : Nat) {rest : Bytes} (hs : Stops rest) :
    readWhole (decimalBytes n ++ rest) = some (decimals n, rest) := by
  have hd := digits_append (fun d hd => decimals_lt (n := n) hd) hs
  obtain ⟨d, ds, hn, h0⟩ := decimals_cons n
  rw [readWhole, decimalBytes, hd, hn]
  cases d with
  | zero =>
    obtain ⟨-, rfl⟩ := h0 rfl
    rfl
  | succ d => rfl

theorem readFraction_of_stops {rest : Bytes} (hs : Stops rest) :
    readFraction rest = some (none, rest) := by
  unfold readFraction
  split
  · exact absurd rfl (hs _ rfl).2.1
  · rfl

theorem readExponent_of_stops {rest : Bytes} (hs : Stops rest) :
    readExponent rest = some (none, rest) := by
  unfold readExponent
  split
  · rename_i b rest
    have h := hs b rfl
    rw [if_neg (by simp [h.2.2.1, h.2.2.2])]
  · rfl

end Json

/-- The number is an integer. -/
def Number.IsInteger : Number → Prop
  | float _ => False
  | _ => True

namespace Json

theorem utf8_natural (n : UInt64) : utf8 (Number.text (.natural n)) = decimalBytes n.toNat :=
  utf8_repr n.toNat

theorem utf8_negative (m : Fin negativeLimit) :
    utf8 (Number.text (.negative m)) = 0x2d :: decimalBytes (m.val + 1) := by
  have hm : utf8 "-" = [0x2d] := by decide
  rw [Number.text, utf8_append, hm, ← utf8_repr]
  rfl

theorem decimalBytes_cons (n : Nat) :
    ∃ b bs, decimalBytes n = b :: bs ∧ 0x30 ≤ b ∧ b ≤ 0x39 := by
  obtain ⟨d, ds, hd, -⟩ := decimals_cons n
  have hlt : d < 10 := decimals_lt (n := n) (by simp [hd])
  refine ⟨UInt8.ofNat (0x30 + d), ds.map fun d => UInt8.ofNat (0x30 + d), ?_, ?_⟩
  · simp [decimalBytes, hd]
  · simpa [isDigit] using (isDigit_ofNat hlt).1

theorem readParts_natural (n : Nat) {rest : Bytes} (hs : Stops rest) :
    readParts (decimalBytes n ++ rest) = some (⟨false, decimals n, none, none⟩, rest) := by
  have hw := readWhole_decimal n hs
  obtain ⟨b, bs, hb, hlo, -⟩ := decimalBytes_cons n
  have hm : b ≠ 0x2d := by
    rintro rfl
    exact absurd hlo (by decide)
  rw [hb, List.cons_append] at hw ⊢
  unfold readParts
  split
  · rename_i negative bs' he
    split at he
    · rename_i h
      exact absurd (List.cons.inj h).1 hm
    · cases he
      simp [hw, readFraction_of_stops hs, readExponent_of_stops hs]

theorem readParts_negative (n : Nat) {rest : Bytes} (hs : Stops rest) :
    readParts (0x2d :: decimalBytes n ++ rest) = some (⟨true, decimals n, none, none⟩, rest) := by
  simp [readParts, readWhole_decimal n hs, readFraction_of_stops hs, readExponent_of_stops hs]

/-- **An integer is read back.** -/
theorem readNumber_text {n : Number} (h : n.IsInteger) {rest : Bytes} (hs : Stops rest) :
    readNumber (utf8 n.text ++ rest) = some (n, rest) := by
  cases n with
  | natural n =>
    have hv := significand_decimals (show n.toNat < wordLimit from n.toNat_lt)
    rw [utf8_natural, readNumber]
    simp [readParts_natural n.toNat hs, NumberParts.value, hv, NumberParts.isInteger]
  | negative m =>
    have hle : m.val + 1 ≤ negativeLimit := m.isLt
    have hv := significand_decimals (show m.val + 1 < wordLimit by
      simp only [negativeLimit, wordLimit] at hle ⊢
      omega)
    rw [utf8_negative, readNumber]
    simp only [readParts_negative (m.val + 1) hs, Option.bind_eq_bind, Option.bind_some,
      NumberParts.value, hv, NumberParts.isInteger]
    simp [hle, Number.ofNegSucc]
  | float x => exact h.elim

end Json

end ColdArchive
