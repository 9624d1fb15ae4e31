import ColdArchive.Proofs.Json.Tokens

/-!
# Values read back

A value without double precision numbers, whose objects are sorted and which is not nested too deep,
is read from its text as it was. A message is read from the text of its members, in the order in
which they were written.
-/

namespace ColdArchive

namespace Json

/-! ### The bytes of a value -/

theorem encode_null : encode null = [0x6e, 0x75, 0x6c, 0x6c] := by decide

theorem encode_true : encode (bool true) = [0x74, 0x72, 0x75, 0x65] := by decide

theorem encode_false : encode (bool false) = [0x66, 0x61, 0x6c, 0x73, 0x65] := by decide

theorem encode_number (n : Number) : encode (number n) = utf8 n.text := rfl

theorem encode_string (s : String) : encode (string s) = 0x22 :: content s ++ [0x22] :=
  utf8_stringText s

theorem encode_array (items : List Json) :
    encode (array items) = 0x5b :: utf8 (itemsText items) ++ [0x5d] := by
  have ho : utf8 "[" = [0x5b] := by decide
  have hc : utf8 "]" = [0x5d] := by decide
  simp [encode, text, utf8_append, ho, hc]

theorem encode_object (members : List (String × Json)) :
    encode (object members) = 0x7b :: utf8 (membersText members) ++ [0x7d] := by
  have ho : utf8 "\x7b" = [0x7b] := by decide
  have hc : utf8 "\x7d" = [0x7d] := by decide
  simp [encode, text, utf8_append, ho, hc]

theorem utf8_comma : utf8 "," = [0x2c] := by decide

theorem utf8_itemsText (j : Json) (items : List Json) :
    utf8 (itemsText (j :: items)) =
      encode j ++ if items = [] then [] else 0x2c :: utf8 (itemsText items) := by
  cases items with
  | nil => simp [itemsText, encode]
  | cons k items => simp [itemsText, encode, utf8_append, utf8_comma]

theorem utf8_membersText (name : String) (j : Json) (members : List (String × Json)) :
    utf8 (membersText ((name, j) :: members)) =
      0x22 :: content name ++ 0x22 :: 0x3a :: encode j ++
        if members = [] then [] else 0x2c :: utf8 (membersText members) := by
  have hc : utf8 ":" = [0x3a] := by decide
  cases members with
  | nil => simp [membersText, encode, utf8_append, utf8_stringText, hc]
  | cons m members => simp [membersText, encode, utf8_append, utf8_stringText, hc, utf8_comma]

theorem length_itemsText (items : List Json) :
    items.length ≤ (utf8 (itemsText items)).length + 1 := by
  induction items with
  | nil => simp
  | cons j items ih =>
    rw [utf8_itemsText]
    cases items with
    | nil => simp
    | cons k items => simp at ih ⊢; omega

theorem length_membersText (members : List (String × Json)) :
    members.length ≤ (utf8 (membersText members)).length := by
  induction members with
  | nil => simp
  | cons m members ih =>
    obtain ⟨name, j⟩ := m
    rw [utf8_membersText]
    cases members with
    | nil => simp
    | cons k members => simp at ih ⊢; omega

/-! ### Plain values -/

/-- No number of the value is of double precision, the members of every object are sorted by name,
and arrays and objects are nested at most `depth` deep. -/
def Plain : (depth : Nat) → Json → Prop
  | _, null => True
  | _, bool _ => True
  | _, number n => n.IsInteger
  | _, string _ => True
  | 0, array _ => False
  | 0, object _ => False
  | depth + 1, array items => ∀ j ∈ items, Plain depth j
  | depth + 1, object members =>
    (members.map Prod.fst).Pairwise (· < ·) ∧ ∀ m ∈ members, Plain depth m.2

theorem Plain.mono {depth depth' : Nat} {j : Json} (h : Plain depth j) (hd : depth ≤ depth') :
    Plain depth' j := by
  induction depth generalizing depth' j with
  | zero =>
    cases j with
    | array items => exact h.elim
    | object members => exact h.elim
    | _ => cases depth' <;> exact h
  | succ depth ih =>
    obtain ⟨depth', rfl⟩ : ∃ d, depth' = d + 1 := ⟨depth' - 1, by omega⟩
    have hd : depth ≤ depth' := by omega
    cases j with
    | array items =>
      intro j hj
      exact ih (h j hj) hd
    | object members => exact ⟨h.1, fun m hm => ih (h.2 m hm) hd⟩
    | _ => exact h

/-- The text of the value starts with a byte that is no blank and closes nothing. -/
def Starts (j : Json) : Prop :=
  ∃ b bs, encode j = b :: bs ∧ isBlank b = false ∧ b ≠ 0x5d ∧ b ≠ 0x7d

theorem number_cons {n : Number} (h : n.IsInteger) :
    ∃ b bs, utf8 n.text = b :: bs ∧ (b = 0x2d ∨ 0x30 ≤ b ∧ b ≤ 0x39) := by
  cases n with
  | natural n =>
    obtain ⟨b, bs, hb, hd⟩ := decimalBytes_cons n.toNat
    exact ⟨b, bs, by rw [utf8_natural, hb], .inr hd⟩
  | negative m => exact ⟨_, _, utf8_negative m, .inl rfl⟩
  | float x => exact h.elim

/-- A byte that a number starts with. -/
theorem ne_of_numeral {b c : UInt8} (h : b = 0x2d ∨ 0x30 ≤ b ∧ b ≤ 0x39)
    (hc : c ≠ 0x2d ∧ ¬ (0x30 ≤ c ∧ c ≤ 0x39)) : b ≠ c := by
  rintro rfl
  rcases h with h | h
  · exact hc.1 h
  · exact hc.2 h

theorem Plain.starts {depth : Nat} {j : Json} (h : Plain depth j) : Starts j := by
  cases j with
  | null => exact ⟨_, _, encode_null, by decide⟩
  | bool b =>
    cases b with
    | false => exact ⟨_, _, encode_false, by decide⟩
    | true => exact ⟨_, _, encode_true, by decide⟩
  | number n =>
    have hn : n.IsInteger := by cases depth <;> exact h
    obtain ⟨b, bs, hb, hd⟩ := number_cons hn
    refine ⟨b, bs, hb, ?_, ne_of_numeral hd (by decide), ne_of_numeral hd (by decide)⟩
    simp [isBlank, ne_of_numeral hd (c := 0x20) (by decide),
      ne_of_numeral hd (c := 0x09) (by decide), ne_of_numeral hd (c := 0x0a) (by decide),
      ne_of_numeral hd (c := 0x0d) (by decide)]
  | string s => exact ⟨_, _, encode_string s, by decide⟩
  | array items => exact ⟨_, _, encode_array items, by decide⟩
  | object members => exact ⟨_, _, encode_object members, by decide⟩

theorem skipBlanks_cons {b : UInt8} (h : isBlank b = false) (bs : Bytes) :
    skipBlanks (b :: bs) = b :: bs := by
  simp [skipBlanks, h]

theorem Starts.skipBlanks {j : Json} (h : Starts j) (rest : Bytes) :
    skipBlanks (encode j ++ rest) = encode j ++ rest := by
  obtain ⟨b, bs, hb, hn, -⟩ := h
  rw [hb, List.cons_append, skipBlanks_cons hn]

/-! ### Items and members -/

/-- The reader takes the value from its text, whatever stands behind it. -/
def Recovers (reader : Reader Json) (j : Json) : Prop :=
  ∀ rest, Stops rest → reader (encode j ++ rest) = some (j, rest)

theorem readItems_text {item : Nat → Reader Json} {items : List Json} (hne : items ≠ [])
    (hs : ∀ j ∈ items, Starts j) (hi : ∀ n, ∀ j ∈ items, Recovers (item n) j) (fuel : Nat)
    (hf : items.length ≤ fuel) (n : Nat) (done : List Json) (rest : Bytes) :
    readItems item fuel n done (utf8 (itemsText items) ++ 0x5d :: rest) =
      some (done.reverse ++ items, rest) := by
  induction items generalizing fuel n done with
  | nil => exact absurd rfl hne
  | cons j items ih =>
    obtain ⟨fuel, rfl⟩ : ∃ f, fuel = f + 1 := ⟨fuel - 1, by simp at hf; omega⟩
    have hj := hi n j (by simp)
    have hb := (hs j (by simp)).skipBlanks
    cases items with
    | nil =>
      have hr := hj (0x5d :: rest) (by simp)
      simp [utf8_itemsText, readItems, hb, hr,
        skipBlanks_cons (show isBlank 0x5d = false by decide)]
    | cons k items =>
      have hr := hj (0x2c :: utf8 (itemsText (k :: items)) ++ 0x5d :: rest) (by simp)
      have ih := ih (by simp) (fun j hj => hs j (by simp [hj]))
        (fun n j hj => hi n j (by simp [hj])) fuel (by simp at hf ⊢; omega) (n + 1) (j :: done)
      rw [utf8_itemsText, if_neg (by simp), List.append_assoc, readItems, hb, hr]
      simp [skipBlanks_cons (show isBlank 0x2c = false by decide), ih]

/-- **An array is read back** if its items are. -/
theorem readArray_text (item : Nat → Reader Json) {items : List Json} (hs : ∀ j ∈ items, Starts j)
    (hi : ∀ n, ∀ j ∈ items, Recovers (item n) j) (rest : Bytes) :
    readArray item (utf8 (itemsText items) ++ 0x5d :: rest) = some (items, rest) := by
  cases items with
  | nil => simp [readArray, itemsText, utf8, skipBlanks_cons (show isBlank 0x5d = false by decide)]
  | cons j items =>
    obtain ⟨b, bs, hb, hn, hc, -⟩ := hs j (by simp)
    have hlen := length_itemsText (j :: items)
    have hr := readItems_text (by simp) hs hi (utf8 (itemsText (j :: items)) ++ 0x5d :: rest).length
      (by simp at hlen ⊢; omega) 0 [] rest
    rw [readArray]
    generalize hbs : utf8 (itemsText (j :: items)) ++ 0x5d :: rest = bs' at hr ⊢
    obtain ⟨more, rfl⟩ : ∃ more, bs' = b :: more := by
      rw [← hbs, utf8_itemsText, hb]
      simp
    rw [skipBlanks_cons hn]
    split
    · rename_i h
      exact absurd (List.cons.inj h).1 hc
    · exact hr

theorem readMembers_text {value : String → Reader (Option Json)} {members : List (String × Json)}
    (hne : members ≠ []) (hs : ∀ m ∈ members, Starts m.2)
    (hv : ∀ m ∈ members, ∀ rest, Stops rest →
      value m.1 (encode m.2 ++ rest) = some (some m.2, rest)) (fuel : Nat)
    (hf : members.length ≤ fuel) (done : List (String × Json)) (rest : Bytes) :
    readMembers readString value fuel done (utf8 (membersText members) ++ 0x7d :: rest) =
      some (done.reverse ++ members, rest) := by
  induction members generalizing fuel done with
  | nil => exact absurd rfl hne
  | cons m members ih =>
    obtain ⟨name, j⟩ := m
    obtain ⟨fuel, rfl⟩ : ∃ f, fuel = f + 1 := ⟨fuel - 1, by simp at hf; omega⟩
    have hj := hv (name, j) (by simp)
    have hb := (hs (name, j) (by simp)).skipBlanks
    have hq : ∀ bs, skipBlanks (0x22 :: bs) = 0x22 :: bs := skipBlanks_cons (by decide)
    have hc : ∀ bs, skipBlanks (0x3a :: bs) = 0x3a :: bs := skipBlanks_cons (by decide)
    cases members with
    | nil =>
      have hr := hj (0x7d :: rest) (by simp)
      simp [utf8_membersText, readMembers, hq, readString_content, hc, hb, hr,
        skipBlanks_cons (show isBlank 0x7d = false by decide)]
    | cons k members =>
      have hr := hj (0x2c :: utf8 (membersText (k :: members)) ++ 0x7d :: rest) (by simp)
      have ih := ih (by simp) (fun m hm => hs m (by simp [hm])) (fun m hm => hv m (by simp [hm]))
        fuel (by simp at hf ⊢; omega) ((name, j) :: done)
      simp only [List.cons_append] at hr hb
      simp [utf8_membersText name, readMembers, hq, readString_content, hc, hb, hr,
        skipBlanks_cons (show isBlank 0x2c = false by decide), ih]

/-- **An object is read back**, its members in the order in which they were written. -/
theorem readObject_text (value : String → Reader (Option Json)) {members : List (String × Json)}
    (hs : ∀ m ∈ members, Starts m.2)
    (hv : ∀ m ∈ members, ∀ rest, Stops rest →
      value m.1 (encode m.2 ++ rest) = some (some m.2, rest)) (rest : Bytes) :
    readObject readString value (utf8 (membersText members) ++ 0x7d :: rest) =
      some (members, rest) := by
  cases members with
  | nil =>
    simp [readObject, membersText, utf8, skipBlanks_cons (show isBlank 0x7d = false by decide)]
  | cons m members =>
    obtain ⟨name, j⟩ := m
    have hlen := length_membersText ((name, j) :: members)
    have hr := readMembers_text (by simp) hs hv
      (utf8 (membersText ((name, j) :: members)) ++ 0x7d :: rest).length
      (by simp at hlen ⊢; omega) [] rest
    rw [readObject]
    generalize hbs : utf8 (membersText ((name, j) :: members)) ++ 0x7d :: rest = bs at hr ⊢
    obtain ⟨more, rfl⟩ : ∃ more, bs = 0x22 :: more := by
      rw [← hbs, utf8_membersText]
      simp
    rw [skipBlanks_cons (by decide)]
    exact hr

/-! ### Sorted members -/

theorem insertMember_of_lt {name : String} {j : Json} {members : List (String × Json)}
    (h : ∀ m ∈ members, m.1 < name) : insertMember name j members = members ++ [(name, j)] := by
  induction members with
  | nil => rfl
  | cons m members ih =>
    have hm : m.1 < name := h m (by simp)
    have hne : name ≠ m.1 := by
      rintro rfl
      exact String.lt_irrefl _ hm
    rw [insertMember, if_neg hne, if_neg (String.lt_asymm hm), ih fun m hm => h m (by simp [hm])]
    rfl

theorem sortMembers_eq (members : List (String × Json)) :
    sortMembers members = members.foldl (fun sorted m => insertMember m.1 m.2 sorted) [] := rfl

/-- Sorted members stay as they are. -/
theorem sortMembers_of_sorted {members : List (String × Json)}
    (h : members.Pairwise fun m n => m.1 < n.1) : sortMembers members = members := by
  have general : ∀ done : List (String × Json), (done ++ members).Pairwise (fun m n => m.1 < n.1) →
      members.foldl (fun sorted m => insertMember m.1 m.2 sorted) done = done ++ members := by
    clear h
    induction members with
    | nil => simp
    | cons m members ih =>
      intro done h
      have hlt : ∀ d ∈ done, d.1 < m.1 := fun d hd =>
        (List.pairwise_append.mp h).2.2 d hd m (by simp)
      rw [List.foldl_cons, insertMember_of_lt hlt, ih _ (by simpa using h)]
      simp
  rw [sortMembers_eq, general [] h, List.nil_append]

/-! ### Values -/

/-- A value that is no array and no object is read back. -/
theorem readScalar_encode {j : Json} (h : Plain 0 j) : Recovers (readScalar .strict) j := by
  intro rest hs
  cases j with
  | null => simp [encode_null, readScalar, afterWord, show utf8 "null" = _ from encode_null]
  | bool b =>
    cases b with
    | false => simp [encode_false, readScalar, afterWord, show utf8 "false" = _ from encode_false]
    | true => simp [encode_true, readScalar, afterWord, show utf8 "true" = _ from encode_true]
  | number n =>
    have hn := readNumber_text h hs
    obtain ⟨b, bs, hb, hd⟩ := number_cons h
    rw [hb, List.cons_append] at hn
    rw [encode_number, hb, List.cons_append]
    simp [readScalar, Lexicon.strict, hn, ne_of_numeral hd (c := 0x22) (by decide),
      ne_of_numeral hd (c := 0x6e) (by decide), ne_of_numeral hd (c := 0x74) (by decide),
      ne_of_numeral hd (c := 0x66) (by decide)]
  | string s =>
    simp [encode_string, readScalar, Lexicon.strict, readString_content]
  | array items => exact h.elim
  | object members => exact h.elim

/-- The text of a value opens an array or an object only if the value is one. -/
theorem readValue_scalar {j : Json} (h : Plain 0 j) (depth : Nat) (rest : Bytes) :
    readValue .strict depth (encode j ++ rest) = readScalar .strict (encode j ++ rest) := by
  obtain ⟨b, bs, hb, hne⟩ : ∃ b bs, encode j = b :: bs ∧ b ≠ 0x5b ∧ b ≠ 0x7b := by
    cases j with
    | null => exact ⟨_, _, encode_null, by decide⟩
    | bool b =>
      cases b with
      | false => exact ⟨_, _, encode_false, by decide⟩
      | true => exact ⟨_, _, encode_true, by decide⟩
    | number n =>
      obtain ⟨b, bs, hb, hd⟩ := number_cons h
      exact ⟨b, bs, hb, ne_of_numeral hd (by decide), ne_of_numeral hd (by decide)⟩
    | string s => exact ⟨_, _, encode_string s, by decide⟩
    | array items => exact h.elim
    | object members => exact h.elim
  rw [hb, List.cons_append]
  have ha : ∀ bs', b :: (bs ++ rest) ≠ 0x5b :: bs' := fun _ h => hne.1 (List.cons.inj h).1
  have ho : ∀ bs', b :: (bs ++ rest) ≠ 0x7b :: bs' := fun _ h => hne.2 (List.cons.inj h).1
  cases depth with
  | zero => rw [readValue] <;> assumption
  | succ depth => rw [readValue] <;> assumption

/-- The members of an object are read back sorted. -/
theorem readValue_object {depth : Nat} {members : List (String × Json)}
    (hs : ∀ m ∈ members, Starts m.2) (hm : ∀ m ∈ members, Recovers (readValue .strict depth) m.2)
    (rest : Bytes) :
    readValue .strict (depth + 1) (encode (object members) ++ rest) =
      some (object (sortMembers members), rest) := by
  have hr := fun value hv => readObject_text value hs hv rest
  rw [encode_object, List.cons_append, List.cons_append, List.append_assoc, List.singleton_append,
    readValue, show Lexicon.strict.string = readString from rfl, hr]
  · rfl
  · intro m h rest hrest
    simp [hm m h rest hrest]

/-- **A plain value is read back.** -/
theorem Plain.recovers {depth : Nat} {j : Json} (h : Plain depth j) :
    Recovers (readValue .strict depth) j := by
  induction depth generalizing j with
  | zero =>
    intro rest hs
    rw [readValue_scalar h, readScalar_encode h rest hs]
  | succ depth ih =>
    intro rest hs
    have scalar : ∀ k, Plain 0 k →
        readValue .strict (depth + 1) (encode k ++ rest) = some (k, rest) := by
      intro k hk
      rw [readValue_scalar hk, readScalar_encode hk rest hs]
    cases j with
    | null => exact scalar null trivial
    | bool b => exact scalar (bool b) trivial
    | number n => exact scalar (number n) h
    | string s => exact scalar (string s) trivial
    | array items =>
      have hr := readArray_text (fun _ => readValue .strict depth)
        (fun j hj => (h j hj).starts) (fun _ j hj => ih (h j hj)) rest
      rw [encode_array, List.cons_append, List.cons_append, List.append_assoc,
        List.singleton_append, readValue]
      simp only [hr, Option.map_some]
    | object members =>
      obtain ⟨hsorted, hm⟩ := h
      rw [readValue_object (fun m h => (hm m h).starts) (fun m h => ih (hm m h)),
        sortMembers_of_sorted (List.pairwise_map.mp hsorted)]

/-! ### Messages -/

theorem Plain.recovers_whole {depth : Nat} {j : Json} (h : Plain depth j) :
    Recovers (readShape depth .whole) j := by
  cases depth with
  | zero => exact h.recovers
  | succ depth => exact h.recovers

/-- How a member of a message is read. -/
def memberReader (depth : Nat) (known : List (String × Shape)) (name : String) :
    Reader (Option Json) := fun bs =>
  match known.lookup name with
  | some shape => (readShape depth shape bs).map fun (j, rest) => (some j, rest)
  | none => skipValue bs

theorem readShape_brace (depth : Nat) (known : List (String × Shape)) (bs : Bytes) :
    readShape (depth + 1) (.message known) (0x7b :: bs) =
      (readObject readString (memberReader depth known) bs).map fun (found, rest) =>
        (.object found, rest) := rfl

/-- The members of a message are read back in their order if all of them are known. -/
theorem readShape_object {depth : Nat} {known : List (String × Shape)}
    {members : List (String × Json)} (hm : ∀ m ∈ members, Starts m.2 ∧
      ∃ shape, known.lookup m.1 = some shape ∧ Recovers (readShape depth shape) m.2) :
    Recovers (readShape (depth + 1) (.message known)) (object members) := by
  intro rest _
  have hr := readObject_text (memberReader depth known) (fun m h => (hm m h).1)
    (fun m h rest hr => by
      obtain ⟨-, shape, hl, hrec⟩ := hm m h
      simp [memberReader, hl, hrec rest hr]) rest
  rw [encode_object, List.cons_append, List.cons_append, List.append_assoc, List.singleton_append,
    readShape_brace, hr]
  rfl

theorem ofMessage?_encode {shape : Shape} {j k : Json} (hs : Starts j)
    (hr : readShape depthLimit shape (encode j) = some (k, [])) :
    ofMessage? shape (encode j) = some k := by
  have hb := hs.skipBlanks []
  rw [List.append_nil] at hb
  rw [ofMessage?, hb, hr]
  rfl

end Json

end ColdArchive
