import ColdArchive.Proofs.Json.Values

/-!
# The text of a value is one line

Inside strings the controls are escaped, and nothing else in the text of a value stands for one. So
the text has no newline in it and does not end with a carriage return.
-/

namespace ColdArchive

/-- There is no control among the bytes. -/
def Printable (bs : Bytes) : Prop := ∀ b ∈ bs, 0x20 ≤ b

instance (bs : Bytes) : Decidable (Printable bs) := List.decidableBAll _ bs

namespace Printable

theorem append {bs cs : Bytes} (hb : Printable bs) (hc : Printable cs) : Printable (bs ++ cs) := by
  intro b h
  rcases List.mem_append.mp h with h | h
  · exact hb b h
  · exact hc b h

theorem cons {b : UInt8} {bs : Bytes} (hb : 0x20 ≤ b) (h : Printable bs) : Printable (b :: bs) := by
  intro c hc
  rcases List.mem_cons.mp hc with rfl | hc
  · exact hb
  · exact h c hc

theorem nil : Printable [] := fun _ hb => (List.not_mem_nil hb).elim

theorem not_mem {bs : Bytes} (h : Printable bs) {b : UInt8} (hb : b < 0x20) : b ∉ bs :=
  fun hm => absurd (h b hm) (UInt8.not_le.mpr hb)

theorem getLast?_ne {bs : Bytes} (h : Printable bs) {b : UInt8} (hb : b < 0x20) :
    bs.getLast? ≠ some b :=
  fun hl => h.not_mem hb (List.mem_of_getLast? hl)

end Printable

namespace Json

/-! ### Strings and numbers -/

theorem printable_digit {n : Nat} (h : n < 16) : Printable [Hex.digit n] := by
  have all : ∀ m : Fin 16, 0x20 ≤ Hex.digit m := by decide
  exact .cons (all ⟨n, h⟩) .nil

theorem printable_escape (c : Char) : Printable (utf8 (escape c)) := by
  by_cases hletter : c ∈ ['"', '\\', '\x08', '\t', '\n', '\x0c', '\r']
  · simp only [List.mem_cons, List.not_mem_nil, or_false] at hletter
    rcases hletter with rfl | rfl | rfl | rfl | rfl | rfl | rfl <;> decide
  · simp only [List.mem_cons, List.not_mem_nil, or_false, not_or] at hletter
    obtain ⟨h1, h2, h3, h4, h5, h6, h7⟩ := hletter
    rw [escape, if_neg h1, if_neg h2, if_neg h3, if_neg h4, if_neg h5, if_neg h6, if_neg h7]
    by_cases hcontrol : c.toNat < 0x20
    · have hu : utf8 "\\u00" = [0x5c, 0x75, 0x30, 0x30] := by decide
      have hbegin : Printable [0x5c, 0x75, 0x30, 0x30] := by decide
      rw [if_pos hcontrol, utf8_append, hu, utf8_ofList]
      refine hbegin.append ?_
      simpa [Hex.utf8EncodeChar_digitChar (show c.toNat / 16 < 16 by omega),
        Hex.utf8EncodeChar_digitChar (show c.toNat % 16 < 16 by omega)] using
        (printable_digit (show c.toNat / 16 < 16 by omega)).append
          (printable_digit (show c.toNat % 16 < 16 by omega))
    · rw [if_neg hcontrol, utf8_ofList, List.flatMap_singleton]
      intro b hb
      exact UInt8.not_lt.mp (isPlain_of_mem h1 h2 (by omega) hb).2.1

theorem printable_content (s : String) : Printable (content s) := by
  intro b hb
  obtain ⟨c, -, hc⟩ := List.mem_flatMap.mp hb
  exact printable_escape c b hc

theorem printable_decimalBytes (n : Nat) : Printable (decimalBytes n) := by
  have digit : ∀ d < 10, 0x20 ≤ UInt8.ofNat (0x30 + d) := by decide
  intro b hb
  obtain ⟨d, hd, rfl⟩ := List.mem_map.mp hb
  exact digit d (decimals_lt hd)

theorem printable_number {n : Number} (h : n.IsInteger) : Printable (utf8 n.text) := by
  cases n with
  | natural n =>
    rw [utf8_natural]
    exact printable_decimalBytes n.toNat
  | negative m =>
    rw [utf8_negative]
    exact .cons (by decide) (printable_decimalBytes (m.val + 1))
  | float x => exact h.elim

/-! ### Arrays and objects -/

theorem printable_itemsText {items : List Json} (h : ∀ j ∈ items, Printable (encode j)) :
    Printable (utf8 (itemsText items)) := by
  induction items with
  | nil => exact .nil
  | cons j items ih =>
    rw [utf8_itemsText]
    refine (h j (by simp)).append ?_
    split
    · exact .nil
    · exact .cons (by decide) (ih fun j hj => h j (by simp [hj]))

theorem printable_array {items : List Json} (h : ∀ j ∈ items, Printable (encode j)) :
    Printable (encode (array items)) := by
  rw [encode_array]
  exact .append (.cons (by decide) (printable_itemsText h)) (.cons (by decide) .nil)

theorem printable_membersText {members : List (String × Json)}
    (h : ∀ m ∈ members, Printable (encode m.2)) : Printable (utf8 (membersText members)) := by
  induction members with
  | nil => exact .nil
  | cons m members ih =>
    obtain ⟨name, j⟩ := m
    rw [utf8_membersText]
    have hname : Printable (0x22 :: content name) := .cons (by decide) (printable_content name)
    have hvalue : Printable (0x22 :: 0x3a :: encode j) :=
      .cons (by decide) (.cons (by decide) (h (name, j) (by simp)))
    refine (hname.append hvalue).append ?_
    split
    · exact .nil
    · exact .cons (by decide) (ih fun m hm => h m (by simp [hm]))

theorem printable_object {members : List (String × Json)}
    (h : ∀ m ∈ members, Printable (encode m.2)) : Printable (encode (object members)) := by
  rw [encode_object]
  exact .append (.cons (by decide) (printable_membersText h)) (.cons (by decide) .nil)

/-! ### Values -/

/-- **The text of a plain value is one line.** -/
theorem Plain.printable {depth : Nat} {j : Json} (h : Plain depth j) : Printable (encode j) := by
  have scalar : ∀ k : Json, Plain 0 k → Printable (encode k) := by
    intro k hk
    cases k with
    | null =>
      rw [encode_null]
      decide
    | bool b =>
      cases b with
      | false =>
        rw [encode_false]
        decide
      | true =>
        rw [encode_true]
        decide
    | number n => exact printable_number hk
    | string s =>
      rw [encode_string]
      exact .append (.cons (by decide) (printable_content s)) (.cons (by decide) .nil)
    | array items => exact hk.elim
    | object members => exact hk.elim
  induction depth generalizing j with
  | zero => exact scalar j h
  | succ depth ih =>
    cases j with
    | array items => exact printable_array fun j hj => ih (h j hj)
    | object members => exact printable_object fun m hm => ih (h.2 m hm)
    | null => exact scalar null trivial
    | bool b => exact scalar (bool b) trivial
    | number n => exact scalar (number n) h
    | string s => exact scalar (string s) trivial

/-! ### Numbers of double precision -/

/-- Characters of a text that is printable are printable in any other text. -/
theorem printable_ofList {cs ds : List Char} (h : Printable (utf8 (String.ofList ds)))
    (hsub : cs ⊆ ds) : Printable (utf8 (String.ofList cs)) := by
  rw [utf8_ofList] at h ⊢
  intro b hb
  obtain ⟨c, hc, hb⟩ := List.mem_flatMap.mp hb
  exact h b (List.mem_flatMap.mpr ⟨c, hsub hc, hb⟩)

theorem printable_zeros (n : Nat) : Printable (utf8 (String.ofList (List.replicate n '0'))) := by
  have hone : Printable (utf8 (String.ofList ['0'])) := by decide
  refine printable_ofList hone fun c hc => ?_
  rw [List.eq_of_mem_replicate hc]
  exact List.mem_singleton_self _

theorem printable_toDigits (n : Nat) : Printable (utf8 (String.ofList (Nat.toDigits 10 n))) := by
  have h := printable_decimalBytes n
  rwa [← utf8_repr] at h

theorem printable_styleText {style : Decimal.Style} (hplus : Printable (utf8 style.plus))
    (x : Binary64) : Printable (utf8 (style.text x)) := by
  have hzero : Printable (utf8 "0.0") := by decide
  have hpoint : Printable (utf8 ".") := by decide
  have hbefore : Printable (utf8 "0.") := by decide
  have hbehind : Printable (utf8 ".0") := by decide
  have hempty : Printable (utf8 "") := by decide
  have hminus : Printable (utf8 "-") := by decide
  have hexp : Printable (utf8 "e") := by decide
  have hnegative : Printable (utf8 "e-") := by decide
  have hsign : Printable (utf8 (if x.negative then "-" else "")) := by
    split
    · exact hminus
    · exact hempty
  have hdigits := printable_toDigits (Decimal.shortest x.magnitude).digits
  simp only [Decimal.Style.text]
  generalize (if x.negative then "-" else "") = sign at hsign ⊢
  generalize Nat.toDigits 10 (Decimal.shortest x.magnitude).digits = digits at hdigits ⊢
  generalize Decimal.shortest x.magnitude = d
  have htake : ∀ n, Printable (utf8 (String.ofList (digits.take n))) := fun n =>
    printable_ofList hdigits (List.take_subset n digits)
  have hdrop : ∀ n, Printable (utf8 (String.ofList (digits.drop n))) := fun n =>
    printable_ofList hdigits (List.drop_subset n digits)
  split
  · rw [utf8_append]
    exact hsign.append hzero
  split
  · split
    · rw [utf8_append, utf8_append, String.ofList_append, utf8_append]
      exact (hsign.append (hdigits.append (printable_zeros _))).append hbehind
    split
    · rw [utf8_append, utf8_append, utf8_append]
      exact ((hsign.append (htake _)).append hpoint).append (hdrop _)
    · rw [utf8_append, utf8_append, String.ofList_append, utf8_append]
      exact (hsign.append hbefore).append ((printable_zeros _).append hdigits)
  · have hfraction : Printable (utf8 (if digits.length = 1 then "" else
        "." ++ String.ofList (digits.drop 1))) := by
      split
      · exact hempty
      · rw [utf8_append]
        exact hpoint.append (hdrop 1)
    have hmark : Printable (utf8 (if (digits.length : Int) - 1 + d.exponent < 0 then "e-"
        else "e" ++ style.plus)) := by
      split
      · exact hnegative
      · rw [utf8_append]
        exact hexp.append hplus
    rw [utf8_append, utf8_append, utf8_append, utf8_append]
    exact (((hsign.append (htake _)).append hfraction).append hmark).append (printable_toDigits _)

/-! ### All values -/

/-- **The text of any value is one line.** -/
theorem printable_encode : ∀ j : Json, Printable (encode j)
  | null => (show Plain 0 null from trivial).printable
  | bool b => (show Plain 0 (bool b) from trivial).printable
  | string s => (show Plain 0 (string s) from trivial).printable
  | number (.natural n) => printable_number (n := .natural n) trivial
  | number (.negative m) => printable_number (n := .negative m) trivial
  | number (.float x) => printable_styleText (by decide) x
  | array items => printable_array fun j hj => printable_encode j
  | object members => printable_object fun m hm =>
    have : sizeOf m.2 < sizeOf members := by
      have hlt := List.sizeOf_lt_of_mem hm
      obtain ⟨name, j⟩ := m
      simp only [Prod.mk.sizeOf_spec] at hlt ⊢
      omega
    printable_encode m.2

end Json

end ColdArchive
