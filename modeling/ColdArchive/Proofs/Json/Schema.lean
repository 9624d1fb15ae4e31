import ColdArchive.Json.Schema
import ColdArchive.Proofs.Json.Values

/-!
# Messages read from their members

An object whose members have distinct names, are of their kinds and leave out no field that must be
there is a message of the schema, and its values are those members.
-/

namespace ColdArchive

namespace Json

/-- A member that may be null, as it is received. -/
def received? : Option Json → Option Json
  | some null => none
  | j => j

theorem plain_null (depth : Nat) : Plain depth null := by
  cases depth <;> trivial

theorem plain_string (s : String) (depth : Nat) : Plain depth (string s) := by
  cases depth <;> trivial

theorem plain_natural (n : UInt64) (depth : Nat) : Plain depth (number (.natural n)) := by
  cases depth <;> trivial

theorem plain_ofInt (i : Int) (depth : Nat) : Plain depth (ofInt i) := by
  cases i <;> cases depth <;> trivial

/-- An integer of 64 bits is read from its value. -/
theorem asInteger?_ofInt (i : Int64) : (ofInt i.toInt).asInteger? = some i := by
  have hi : Int64.ofInt i.toInt = i := Int64.ofInt_toInt i
  have hlt := i.toInt_lt
  have hle := i.le_toInt
  cases hc : i.toInt with
  | ofNat n =>
    rw [hc, Int.ofNat_eq_natCast] at hi hlt
    have hn : (UInt64.ofNat n).toNat = n := by
      rw [UInt64.toNat_ofNat']
      omega
    have hb : n < negativeLimit := by
      simp only [negativeLimit]
      omega
    rw [ofInt, asInteger?, hn, if_pos hb, ← hi]
    rfl
  | negSucc m =>
    rw [hc] at hi hle
    have hm : (Fin.ofNat negativeLimit m).val = m := by
      simp only [negativeLimit, Fin.val_ofNat]
      omega
    rw [ofInt, Number.ofNegSucc, asInteger?, hm, hi]

end Json

theorem Field.value?_of_nullable {f : Field} (h : f.nullable = true) (j : Option Json) :
    f.value? j = Json.received? j := by
  unfold Field.value? Json.received?
  rw [h]
  cases j with
  | none => rfl
  | some j => cases j <;> rfl

theorem Field.value?_of_required {f : Field} (h : f.nullable = false) (j : Option Json) :
    f.value? j = j := by
  unfold Field.value?
  rw [h]

namespace Kind

@[simp] theorem check_any (j : Json) : any.check j = .ok () := by
  simp [check]

@[simp] theorem check_text (s : String) : text.check (.string s) = .ok () := by
  simp [check, Json.asString?]

@[simp] theorem check_list (items : List Json) : list.check (.array items) = .ok () := by
  simp [check, Json.asArray?]

@[simp] theorem check_natural (n : UInt64) : natural.check (.number (.natural n)) = .ok () := by
  simp [check]

@[simp] theorem check_integer (i : Int64) : integer.check (.ofInt i.toInt) = .ok () := by
  have hi := Json.asInteger?_ofInt i
  cases hc : i.toInt with
  | ofNat n =>
    rw [hc, Json.ofInt] at hi
    simp only [Json.ofInt, check, hi, Option.isSome_some, if_true]
  | negSucc m =>
    rw [hc, Json.ofInt, Number.ofNegSucc] at hi
    simp only [Json.ofInt, Number.ofNegSucc, check, hi, Option.isSome_some, if_true]

end Kind

namespace Field

theorem check_of_kind {kind : Kind} {j : Json} (h : kind.check j = .ok ()) (name : String)
    (nullable defaulted : Bool) : check ⟨name, kind, nullable, defaulted⟩ j = .ok () := by
  unfold check
  split
  · rfl
  · exact h

@[simp] theorem check_null (name : String) (kind : Kind) (defaulted : Bool) :
    check ⟨name, kind, true, defaulted⟩ .null = .ok () := rfl

end Field

namespace Schema

theorem checkMembers_eq_ok {fields : List Field} {members : List (String × Json)}
    (hd : (members.map Prod.fst).Nodup)
    (hc : ∀ m ∈ members, ∀ f ∈ fields, f.name = m.1 → f.check m.2 = .ok ()) {seen : List String}
    (hs : ∀ m ∈ members, m.1 ∉ seen) : checkMembers fields seen members = .ok () := by
  induction members generalizing seen with
  | nil => rfl
  | cons m members ih =>
    obtain ⟨name, j⟩ := m
    rw [List.map_cons, List.nodup_cons] at hd
    have hc' : ∀ m ∈ members, ∀ f ∈ fields, f.name = m.1 → f.check m.2 = .ok () :=
      fun m hm => hc m (by simp [hm])
    rw [checkMembers]
    cases hf : fields.find? fun f => f.name = name with
    | none => exact ih hd.2 hc' fun m hm => hs m (by simp [hm])
    | some f =>
      have hname : f.name = name := by simpa using List.find?_some hf
      have hj := hc (name, j) (by simp) f (List.mem_of_find?_eq_some hf) hname
      simp only [hs (name, j) (by simp), if_false, hj]
      refine ih hd.2 hc' ?_
      intro m hm hin
      rcases List.mem_cons.mp hin with he | hin
      · exact hd.1 (List.mem_map.mpr ⟨m, hm, he⟩)
      · exact hs m (by simp [hm]) hin

/-- **A message is read from its members.** -/
theorem read_object {s : Schema} {members : List (String × Json)}
    (hd : (members.map Prod.fst).Nodup)
    (hc : ∀ m ∈ members, ∀ f ∈ s.fields, f.name = m.1 → f.check m.2 = .ok ())
    (hm : firstMissing? s.fields members = none) :
    s.read (.object members) = .ok (s.fields.map fun f => f.value? (members.lookup f.name)) := by
  have hk : checkMembers s.fields [] members = .ok () :=
    checkMembers_eq_ok hd hc fun _ _ => List.not_mem_nil
  simp [read, hk, hm]

end Schema

end ColdArchive
