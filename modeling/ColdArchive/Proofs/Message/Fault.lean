import ColdArchive.Message.Fault
import ColdArchive.Proofs.Json.Schema

/-!
# Error objects read back

An error object is read from its text as it was, except that data which are null are none. An error
whose fields travel in the data comes out of it as it was put in, and any other by its wording.
-/

namespace ColdArchive

namespace Fault

/-- An error object as it is received. -/
def received (f : Fault) : Fault := { f with data := Json.received? f.data }

theorem read_toJson (f : Fault) :
    schema.read f.toJson =
      .ok [some (.ofInt f.code.toInt), some (.string f.message), Json.received? f.data] := by
  obtain ⟨code, message, data⟩ := f
  cases data with
  | none =>
    rw [toJson, Schema.read_object (by simp)]
    · simp [schema, List.lookup_cons, Field.value?_of_required, Field.value?_of_nullable]
    · simp [schema, Field.check_of_kind]
    · simp [schema, Schema.firstMissing?, List.lookup_cons]
  | some data =>
    rw [toJson, Schema.read_object (by simp)]
    · simp [schema, List.lookup_cons, Field.value?_of_required, Field.value?_of_nullable]
    · simp [schema, Field.check_of_kind]
    · simp [schema, Schema.firstMissing?, List.lookup_cons]

theorem ofJson?_toJson (f : Fault) : ofJson? f.toJson = some f.received := by
  have hc := Json.asInteger?_ofInt f.code
  rw [ofJson?, read_toJson]
  simp [integerAt, textAt, valueAt?, hc, Json.asString?, received]

theorem starts_toJson (f : Fault) : f.toJson.Starts :=
  ⟨_, _, Json.encode_object _, by decide⟩

/-- The reader finds an error object in its text, with any plain data. -/
theorem recovers_toJson {f : Fault} {depth : Nat}
    (h : ∀ data, f.data = some data → data.Plain depth) :
    Json.Recovers (Json.readShape (depth + 1) shape) f.toJson := by
  obtain ⟨code, message, data⟩ := f
  have hc := Json.plain_ofInt code.toInt depth
  have hm := Json.plain_string message depth
  apply Json.readShape_object
  intro m hmem
  rcases List.mem_append.mp hmem with hmem | hmem
  · simp at hmem
    rcases hmem with rfl | rfl
    · exact ⟨hc.starts, .whole, rfl, hc.recovers_whole⟩
    · exact ⟨hm.starts, .whole, rfl, hm.recovers_whole⟩
  · cases data with
    | none => cases hmem
    | some data =>
      have hd := h data rfl
      simp at hmem
      subst hmem
      exact ⟨hd.starts, .whole, rfl, hd.recovers_whole⟩

/-- **The text of an error object is read back.** -/
theorem decode?_encode {f : Fault} (h : ∀ data, f.data = some data → data.Plain 126) :
    decode? f.encode = some f.received := by
  have hr := recovers_toJson h [] (by simp)
  rw [List.append_nil] at hr
  rw [decode?, encode, Json.ofMessage?_encode f.starts_toJson hr, Option.bind_some, ofJson?_toJson]

end Fault

/-! ### The error in an error object -/

namespace StoreError

/-- The numbers of the error fit 64 bits. -/
def Fits : StoreError → Prop
  | notFound _ number frozen => number < wordLimit ∧ frozen < wordLimit
  | outOfOrderAppend expected got => expected < wordLimit ∧ got < wordLimit
  | invalidTruncateTarget target frozen => target < wordLimit ∧ frozen < wordLimit
  | _ => True

/-- The error has a form of its own on the wire. -/
def isTyped : StoreError → Bool
  | locked _ | transport _ | protocol _ | versionMismatch .. | corrupted _ | io _ => false
  | _ => true

end StoreError

theorem Json.asNatural?_ofNat (n : Nat) : (Json.ofNat n).asNatural? = some (UInt64.ofNat n) := rfl

theorem toNat_ofNat {n : Nat} (h : n < wordLimit) : (UInt64.ofNat n).toNat = n := by
  rw [UInt64.toNat_ofNat']
  exact Nat.mod_eq_of_lt h

namespace Fault

theorem read_notFoundData (category : String) (number frozen : Nat) :
    notFoundData.read (.object [("category", .string category), ("frozen", .ofNat frozen),
      ("number", .ofNat number)]) =
      .ok [some (.string category), some (.ofNat number), some (.ofNat frozen)] := by
  rw [Schema.read_object (by simp)]
  · simp [notFoundData, List.lookup_cons, Field.value?_of_required]
  · simp [notFoundData, Field.check_of_kind, Json.ofNat]
  · simp [notFoundData, Schema.firstMissing?, List.lookup_cons]

theorem read_outOfOrderData (expected got : Nat) :
    outOfOrderData.read (.object [("expected", .ofNat expected), ("got", .ofNat got)]) =
      .ok [some (.ofNat expected), some (.ofNat got)] := by
  rw [Schema.read_object (by simp)]
  · simp [outOfOrderData, List.lookup_cons, Field.value?_of_required]
  · simp [outOfOrderData, Field.check_of_kind, Json.ofNat]
  · simp [outOfOrderData, Schema.firstMissing?, List.lookup_cons]

theorem read_truncateData (target frozen : Nat) :
    truncateData.read (.object [("frozen", .ofNat frozen), ("target", .ofNat target)]) =
      .ok [some (.ofNat target), some (.ofNat frozen)] := by
  rw [Schema.read_object (by simp)]
  · simp [truncateData, List.lookup_cons, Field.value?_of_required]
  · simp [truncateData, Field.check_of_kind, Json.ofNat]
  · simp [truncateData, Schema.firstMissing?, List.lookup_cons]

theorem read_reasonData (reason : String) :
    reasonData.read (.object [("reason", .string reason)]) = .ok [some (.string reason)] := by
  rw [Schema.read_object (by simp)]
  · simp [reasonData, List.lookup_cons, Field.value?_of_required]
  · simp [reasonData, Field.check_of_kind]
  · simp [reasonData, Schema.firstMissing?, List.lookup_cons]

/-- The error is the same whether data that are null are there or not. -/
theorem toError_received (f : Fault) : f.received.toError = f.toError := by
  have hd : f.received.data.getD .null = f.data.getD .null := by
    obtain ⟨code, message, data⟩ := f
    cases data with
    | none => rfl
    | some data => cases data <;> rfl
  simp only [toError, typedError?, dataBy?, hd]
  rfl

theorem plain_ofError (e : StoreError) {data : Json} (h : (ofError e).data = some data) :
    data.Plain 1 := by
  have three : ["category", "frozen", "number"].Pairwise (· < ·) := by decide
  have order : ["expected", "got"].Pairwise (· < ·) := by decide
  have target : ["frozen", "target"].Pairwise (· < ·) := by decide
  have reason : ["reason"].Pairwise (· < ·) := by decide
  cases e <;> cases h
  case notFound => exact ⟨three, by simp [Json.Plain, Json.ofNat, Number.IsInteger]⟩
  case outOfOrderAppend => exact ⟨order, by simp [Json.Plain, Json.ofNat, Number.IsInteger]⟩
  case invalidTruncateTarget => exact ⟨target, by simp [Json.Plain, Json.ofNat, Number.IsInteger]⟩
  all_goals exact ⟨reason, by simp [Json.Plain]⟩

/-- **What becomes of a store error on the wire.** -/
theorem toError_ofError {e : StoreError} (h : e.Fits) :
    (ofError e).toError = if e.isTyped then e else .engine e.message := by
  cases e with
  | notFound category number frozen =>
    have hn := toNat_ofNat h.1
    have hf := toNat_ofNat h.2
    simp [ofError, withData, toError, typedError?, dataBy?, read_notFoundData, Except.toOption,
      textAt, Json.asString?, naturalAt, naturalAt?, Json.asNatural?_ofNat, hn, hf,
      StoreError.isTyped]
  | outOfOrderAppend expected got =>
    have he := toNat_ofNat h.1
    have hg := toNat_ofNat h.2
    simp [ofError, withData, toError, typedError?, dataBy?, read_outOfOrderData, Except.toOption,
      naturalAt, naturalAt?, Json.asNatural?_ofNat, he, hg, StoreError.isTyped, notFoundCode,
      outOfOrderAppendCode]
  | invalidTruncateTarget target frozen =>
    have ht := toNat_ofNat h.1
    have hf := toNat_ofNat h.2
    simp [ofError, withData, toError, typedError?, dataBy?, read_truncateData, Except.toOption,
      naturalAt, naturalAt?, Json.asNatural?_ofNat, ht, hf, StoreError.isTyped, notFoundCode,
      outOfOrderAppendCode, invalidTruncateTargetCode]
  | malformedEnvelope reason =>
    simp [ofError, withData, toError, typedError?, dataBy?, read_reasonData, Except.toOption,
      textAt, Json.asString?, StoreError.isTyped, notFoundCode, outOfOrderAppendCode,
      invalidTruncateTargetCode, malformedEnvelopeCode]
  | unknownCategory name =>
    simp [ofError, withData, toError, typedError?, dataBy?, read_reasonData, Except.toOption,
      textAt, Json.asString?, StoreError.isTyped, notFoundCode, outOfOrderAppendCode,
      invalidTruncateTargetCode, malformedEnvelopeCode, unknownCategoryCode]
  | _ => rfl

end Fault

/-! ### The error on its way -/

namespace StoreError

/-- The error that is found in the text of the error object. -/
def carried (e : StoreError) : Option StoreError :=
  (Fault.decode? (Fault.ofError e).encode).map Fault.toError

theorem carried_eq {e : StoreError} (h : e.Fits) :
    e.carried = some (if e.isTyped then e else .engine e.message) := by
  have hd : Fault.decode? (Fault.ofError e).encode = some (Fault.ofError e).received :=
    Fault.decode?_encode fun data hdata => (Fault.plain_ofError e hdata).mono (by omega)
  rw [carried, hd, Option.map_some, Fault.toError_received, Fault.toError_ofError h]

theorem carried_of_isTyped {e : StoreError} (h : e.Fits) (ht : e.isTyped = true) :
    e.carried = some e := by
  rw [carried_eq h, if_pos ht]

theorem carried_of_not_isTyped {e : StoreError} (h : e.Fits) (ht : e.isTyped = false) :
    e.carried = some (.engine e.message) := by
  rw [carried_eq h, if_neg (by simp [ht])]

/-- **Store errors survive the wire.** An error with a form of its own comes out of its text as it
was, with any numbers of 64 bits and any texts, and every other one as its wording. So a second trip
changes nothing, errors with forms of their own stay apart, and no error comes back as a breach of
the protocol. -/
theorem survives_wire {e : StoreError} (h : e.Fits) :
    e.carried = some (if e.isTyped then e else .engine e.message) ∧
      e.carried.bind carried = e.carried ∧
      (∀ e' : StoreError, e'.Fits → e.isTyped = true → e'.isTyped = true →
        e.carried = e'.carried → e = e') ∧
      ∀ reason, e.carried ≠ some (.protocol reason) := by
  refine ⟨carried_eq h, ?_, ?_, ?_⟩
  · cases ht : e.isTyped with
    | true => rw [carried_of_isTyped h ht, Option.bind_some, carried_of_isTyped h ht]
    | false =>
      -- the wording travels as an error that has a form of its own
      have hw : (StoreError.engine e.message).carried = some (.engine e.message) :=
        carried_of_isTyped trivial rfl
      rw [carried_of_not_isTyped h ht, Option.bind_some, hw]
  · intro e' h' ht ht' heq
    rw [carried_of_isTyped h ht, carried_of_isTyped h' ht'] at heq
    exact Option.some.inj heq
  · intro reason hp
    cases ht : e.isTyped with
    | true =>
      rw [carried_of_isTyped h ht] at hp
      obtain rfl := Option.some.inj hp
      cases ht
    | false =>
      rw [carried_of_not_isTyped h ht] at hp
      cases Option.some.inj hp

/-- The greatest number comes back in the field it was put in. -/
theorem survives_wire_of_greatest :
    (StoreError.notFound .receipts 18446744073709551615 2).Fits ∧
      (StoreError.notFound .receipts 18446744073709551615 2).carried =
        some (.notFound .receipts 18446744073709551615 2) :=
  have fits : (StoreError.notFound .receipts 18446744073709551615 2).Fits := by
    simp [Fits, wordLimit]
  ⟨fits, (survives_wire fits).1⟩

end StoreError

end ColdArchive
