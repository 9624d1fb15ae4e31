import ColdArchive.Message.Request
import ColdArchive.Message.Response
import ColdArchive.Proofs.Message.Fault

/-!
# Requests and responses read back

A request is read from its text as it was, with any plain parameters. A response is read back with
any plain result, except that a result which is null is none, and its outcome is the same.
-/

namespace ColdArchive

namespace Request

/-- The members of a request, sorted by name. -/
def sorted (r : Request) : List (String × Json) :=
  (match r.deadlineMillis with
    | some n => [("deadline_ms", .number (.natural n))]
    | none => [])
  ++ [("id", .number (.natural r.id)), ("jsonrpc", .string r.rpcVersion),
    ("method", .string r.method), ("params", .array r.params)]

/-- A request is made of its members, as it writes them or sorted. -/
theorem ofJson_object {r : Request} {members : List (String × Json)}
    (h : Json.object members = r.toJson ∨ members = r.sorted) :
    ofJson (.object members) = .ok r := by
  obtain ⟨version, id, method, params, deadline⟩ := r
  have hread : schema.read (.object members) =
      .ok [some (.string version), some (.number (.natural id)), some (.string method),
        some (.array params), deadline.map fun n => .number (.natural n)] := by
    rw [toJson, Json.object.injEq, sorted] at h
    cases deadline <;> rcases h with rfl | rfl <;>
    · rw [Schema.read_object (by simp)]
      · simp [schema, List.lookup_cons, Field.value?_of_required, Field.value?_of_nullable,
          Json.received?]
      · simp [schema, Field.check_of_kind]
      · simp [schema, Schema.firstMissing?, List.lookup_cons]
  rw [ofJson, hread]
  cases deadline <;> rfl

theorem ofJson_sorted (r : Request) : ofJson (.object r.sorted) = .ok r := ofJson_object (.inr rfl)

theorem ofJson_toJson (r : Request) : ofJson r.toJson = .ok r := ofJson_object (.inl rfl)

theorem sortMembers_toJson (r : Request) : ∃ members, r.toJson = .object members ∧
    (∀ m ∈ members, m ∈ r.sorted) ∧ Json.sortMembers members = r.sorted := by
  obtain ⟨version, id, method, params, deadline⟩ := r
  cases deadline with
  | none => exact ⟨_, rfl, by simp [sorted], rfl⟩
  | some n => exact ⟨_, rfl, by simp [sorted], rfl⟩

theorem plain_sorted {r : Request} {depth : Nat} (h : ∀ j ∈ r.params, j.Plain depth)
    {m : String × Json} (hm : m ∈ r.sorted) : m.2.Plain (depth + 1) := by
  obtain ⟨version, id, method, params, deadline⟩ := r
  have hp : (Json.array params).Plain (depth + 1) := h
  cases deadline <;> simp [sorted] at hm <;> rcases hm with rfl | rfl | rfl | rfl | rfl <;>
    first | exact hp | trivial

/-- **The text of a request is read back**, its members sorted. -/
theorem ofBytes?_encode {r : Request} (h : ∀ j ∈ r.params, j.Plain 125) :
    Json.ofBytes? r.encode = some (.object r.sorted) := by
  obtain ⟨members, hr, hsub, hsort⟩ := r.sortMembers_toJson
  have hp : ∀ m ∈ members, m.2.Plain 126 := fun m hm => plain_sorted h (hsub m hm)
  have hv := Json.readValue_object (fun m hm => (hp m hm).starts)
    (fun m hm => (hp m hm).recovers) []
  rw [List.append_nil, hsort] at hv
  rw [encode, hr]
  exact Json.ofMessage?_encode ⟨_, _, Json.encode_object _, by decide⟩ hv

theorem recovers_toJson {r : Request} (h : ∀ j ∈ r.params, j.Plain 125) :
    Json.Recovers (Json.readShape Json.depthLimit shape) r.toJson := by
  obtain ⟨members, hr, hsub, -⟩ := r.sortMembers_toJson
  rw [hr]
  apply Json.readShape_object
  intro m hm
  have hp : m.2.Plain 126 := plain_sorted h (hsub m hm)
  refine ⟨hp.starts, .whole, ?_, hp.recovers_whole⟩
  have hname : m.1 = "deadline_ms" ∨ m.1 = "id" ∨ m.1 = "jsonrpc" ∨ m.1 = "method" ∨
      m.1 = "params" := by
    have hs := hsub m hm
    obtain ⟨version, id, method, params, deadline⟩ := r
    cases deadline <;> simp [sorted] at hs <;> rcases hs with rfl | rfl | rfl | rfl | rfl <;> simp
  rcases hname with hn | hn | hn | hn | hn <;> rw [hn] <;> rfl

/-- **The text of a request is read back** by a reader that knows what a request is. -/
theorem decode?_encode {r : Request} (h : ∀ j ∈ r.params, j.Plain 125) :
    decode? r.encode = some r := by
  have hstarts : r.toJson.Starts := ⟨_, _, Json.encode_object _, by decide⟩
  have hr := recovers_toJson h [] (by simp)
  rw [List.append_nil] at hr
  rw [decode?, encode, Json.ofMessage?_encode hstarts hr, Option.bind_some, ofJson_toJson]
  rfl

end Request

namespace Response

/-- A response as it is received. -/
def received (r : Response) : Response :=
  { r with result := Json.received? r.result, error := r.error.map Fault.received }

theorem outcome_received (r : Response) : r.received.outcome = r.outcome := by
  obtain ⟨version, id, result, error⟩ := r
  cases error with
  | none =>
    cases result with
    | none => rfl
    | some j => cases j <;> rfl
  | some fault => simp [outcome, received, Fault.toError_received]

/-- The result and the data of the error can be read back. -/
structure Plain (r : Response) : Prop where
  result : ∀ j, r.result = some j → j.Plain 126
  data : ∀ fault, r.error = some fault → ∀ data, fault.data = some data → data.Plain 125

theorem read_toJson (r : Response) :
    schema.read r.toJson = .ok [some (.string r.rpcVersion), r.id.map fun n => .number (.natural n),
      Json.received? r.result, r.error.map Fault.toJson] := by
  obtain ⟨version, id, result, error⟩ := r
  cases id <;> cases result <;> cases error <;>
  · rw [toJson, Schema.read_object (by simp)]
    · simp [schema, List.lookup_cons, Field.value?_of_required, Field.value?_of_nullable,
        Json.received?,
        Fault.toJson]
    · simp [schema, Field.check_of_kind]
    · simp [schema, Schema.firstMissing?, List.lookup_cons]

theorem ofJson?_toJson (r : Response) : ofJson? r.toJson = some r.received := by
  rw [ofJson?, read_toJson]
  obtain ⟨version, id, result, error⟩ := r
  cases id <;> cases error <;>
  simp [valueAt?, textAt, naturalAt?, Json.asString?, Json.asNatural?, received,
    Fault.ofJson?_toJson]

theorem starts_toJson (r : Response) : r.toJson.Starts :=
  ⟨_, _, Json.encode_object _, by decide⟩

theorem recovers_toJson {r : Response} (h : r.Plain) :
    Json.Recovers (Json.readShape Json.depthLimit shape) r.toJson := by
  obtain ⟨version, id, result, error⟩ := r
  have hv := Json.plain_string version 126
  have hid : (match id with
      | some n => Json.number (.natural n)
      | none => .null).Plain 126 := by
    cases id <;> trivial
  apply Json.readShape_object
  intro m hm
  rcases List.mem_append.mp hm with hm | hm
  · rcases List.mem_append.mp hm with hm | hm
    · simp at hm
      rcases hm with rfl | rfl
      · exact ⟨hv.starts, .whole, rfl, hv.recovers_whole⟩
      · exact ⟨hid.starts, .whole, rfl, hid.recovers_whole⟩
    · cases result with
      | none => cases hm
      | some j =>
        have hj := h.result j rfl
        simp at hm
        subst hm
        exact ⟨hj.starts, .whole, rfl, hj.recovers_whole⟩
  · cases error with
    | none => cases hm
    | some fault =>
      simp at hm
      subst hm
      exact ⟨fault.starts_toJson, Fault.shape, rfl, Fault.recovers_toJson (h.data fault rfl)⟩

/-- **The text of a response is read back.** -/
theorem decode_encode [Json.Wording] {r : Response} (h : r.Plain) :
    decode r.encode = .ok r.received := by
  have hr := recovers_toJson h [] (by simp)
  rw [List.append_nil] at hr
  rw [decode, encode, Json.ofMessage?_encode r.starts_toJson hr, Option.bind_some, ofJson?_toJson]

end Response

end ColdArchive
