import ColdArchive.Bytes

/-!
# The UTF-8 form of a text

A byte below 128 is a character of its own, and no such byte is in the form of any other character.
-/

namespace ColdArchive

/-- A character is one byte below 128, or all its bytes are above. -/
theorem utf8EncodeChar_cases (c : Char) :
    (c.toNat < 128 ∧ String.utf8EncodeChar c = [UInt8.ofNat c.toNat]) ∨
      (128 ≤ c.toNat ∧ ∀ b ∈ String.utf8EncodeChar c, 128 ≤ b.toNat) := by
  have hc : c.val.toNat = c.toNat := rfl
  simp only [String.utf8EncodeChar, hc]
  generalize c.toNat = n
  by_cases h1 : n ≤ 127
  · exact .inl ⟨by omega, if_pos h1⟩
  refine .inr ⟨by omega, fun b hb => ?_⟩
  rw [if_neg h1] at hb
  by_cases h2 : n ≤ 2047
  · rw [if_pos h2] at hb
    simp only [List.mem_cons, List.not_mem_nil, or_false] at hb
    rcases hb with rfl | rfl <;> rw [UInt8.toNat_ofNat'] <;> omega
  by_cases h3 : n ≤ 65535
  · rw [if_neg h2, if_pos h3] at hb
    simp only [List.mem_cons, List.not_mem_nil, or_false] at hb
    rcases hb with rfl | rfl | rfl <;> rw [UInt8.toNat_ofNat'] <;> omega
  · rw [if_neg h2, if_neg h3] at hb
    simp only [List.mem_cons, List.not_mem_nil, or_false] at hb
    rcases hb with rfl | rfl | rfl | rfl <;> rw [UInt8.toNat_ofNat'] <;> omega

theorem length_utf8 (s : String) : (utf8 s).length = s.utf8ByteSize := by
  simp [utf8]

/-- A byte below 128 at the head of a text is its first character. -/
theorem exists_cons_of_utf8 {s : String} {b : UInt8} {bs : Bytes} (h : utf8 s = b :: bs)
    (hb : b.toNat < 128) :
    ∃ tail, s = String.ofList [Char.ofNat b.toNat] ++ tail ∧ utf8 tail = bs := by
  rw [utf8_eq_flatMap] at h
  cases hs : s.toList with
  | nil => simp [hs] at h
  | cons c cs =>
    rw [hs, List.flatMap_cons] at h
    rcases utf8EncodeChar_cases c with ⟨hc, hone⟩ | ⟨-, hhigh⟩
    · rw [hone, List.singleton_append] at h
      obtain ⟨rfl, hrest⟩ := List.cons.inj h
      have hbyte : (UInt8.ofNat c.toNat).toNat = c.toNat :=
        UInt8.toNat_ofNat_of_lt' (Nat.lt_trans hc (by decide))
      refine ⟨String.ofList cs, ?_, by rw [utf8_ofList, hrest]⟩
      rw [hbyte, Char.ofNat_toNat, ← String.ofList_append, List.singleton_append, ← hs,
        String.ofList_toList]
    · obtain ⟨first, more, hfirst⟩ := List.exists_cons_of_ne_nil
        (String.utf8EncodeChar_ne_nil (c := c))
      rw [hfirst, List.cons_append] at h
      obtain ⟨rfl, -⟩ := List.cons.inj h
      have hfirst := hhigh first (by simp [hfirst])
      omega

theorem utf8_join (l : List String) : utf8 (String.join l) = l.flatMap utf8 := by
  induction l with
  | nil => rfl
  | cons s l ih => rw [String.join_cons, utf8_append, ih, List.flatMap_cons]

end ColdArchive
