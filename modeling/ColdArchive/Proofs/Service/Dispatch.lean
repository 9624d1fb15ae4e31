import ColdArchive.Proofs.Service.Calls

/-!
# Requests answered

The line of a request is handled as the request itself. A line is decided at one of five stages, and
only a request for a method reaches the archive. Within its time, a request for a call is answered
with what the archive answers to the call.
-/

namespace ColdArchive

section Results

variable {ε ε' α β : Type} {x : Except ε α}

theorem Except.map_eq_ok_iff {f : α → β} {b : β} : x.map f = .ok b ↔ ∃ a, x = .ok a ∧ f a = b := by
  cases x <;> simp [Except.map]

theorem Except.map_eq_error_iff {f : α → β} {e : ε} : x.map f = .error e ↔ x = .error e := by
  cases x <;> simp [Except.map]

theorem Except.mapError_eq_ok_iff {f : ε → ε'} {a : α} : x.mapError f = .ok a ↔ x = .ok a := by
  cases x <;> constructor <;> intro h <;> cases h <;> rfl

theorem Except.mapError_eq_error_iff {f : ε → ε'} {e' : ε'} :
    x.mapError f = .error e' ↔ ∃ e, x = .error e ∧ f e = e' := by
  cases x with
  | ok a => exact ⟨fun h => (by cases h), fun ⟨_, h, _⟩ => (by cases h)⟩
  | error e =>
    refine ⟨fun h => ⟨e, rfl, Except.error.inj h⟩, ?_⟩
    rintro ⟨_, h, rfl⟩
    cases h
    rfl

end Results

namespace Service

variable {σ : Type} [Archive σ]

theorem handleLine_encode [Json.Wording] (s : Service) (now : Readings) (token : Token)
    {r : Request} (h : ∀ j ∈ r.params, j.Plain 125) (a : σ) :
    s.handleLine now token r.encode a = s.handleRequest now token r a := by
  simp only [handleLine, Request.ofBytes?_encode h, Request.ofJson_sorted]

/-- The response with an answer. -/
def respond (id : UInt64) (m : Method) : Except Fault Json → Response
  | .ok result => .success id result
  | .error fault => .failure (some id) fault m.placeholder?

theorem id_respond (id : UInt64) (m : Method) (answer : Except Fault Json) :
    (respond id m answer).id = some id := by
  cases answer <;> rfl

theorem outcome_respond (id : UInt64) (m : Method) (answer : Except Fault Json) :
    (respond id m answer).outcome = answer.mapError Fault.toError := by
  cases answer <;> rfl

theorem plain_respond_ok (id : UInt64) (m : Method) {j : Json} (h : j.Plain 0) :
    (respond id m (.ok j)).Plain := by
  refine ⟨?_, fun fault hf => by cases hf⟩
  intro j' hj
  cases hj
  exact h.mono (Nat.zero_le _)

theorem plain_respond_error (id : UInt64) (m : Method) (e : StoreError) :
    (respond id m (.error (.ofError e))).Plain := by
  constructor
  · intro j hj
    cases m <;> cases hj
    trivial
  · intro fault hf data hd
    cases hf
    exact (Fault.plain_ofError e hd).mono (by omega)

/-- A request for a method is answered as the method is dispatched. -/
theorem handleRequest_qualified (s : Service) (now : Readings) (token : Token) {r : Request}
    {m : Method} (hv : r.rpcVersion = protocol.rpcVersion) (hm : r.method = m.qualified s.ns)
    (a : σ) :
    s.handleRequest now token r a =
      (respond r.id m (dispatch now (s.contextFor now.started token r) m r.params a).1,
        (dispatch now (s.contextFor now.started token r) m r.params a).2) := by
  rw [handleRequest, if_neg (by simp [hv]), hm, Method.resolve?_qualified]
  simp only
  generalize dispatch now (s.contextFor now.started token r) m r.params a = answered
  obtain ⟨answer, a'⟩ := answered
  cases answer <;> rfl

/-- A request that allows some time goes on at once. -/
theorem isLive_contextFor {s : Service} (hs : 0 < s.requestTimeout) (now : Instant) {r : Request}
    {n : UInt64} (hr : r.deadlineMillis = some n) (hn : 0 < n.toNat) :
    (s.contextFor now Token.live r).IsLive now := by
  have hb : 0 < min s.requestTimeout (Duration.ofMillis n.toNat) :=
    Nat.lt_min.mpr ⟨hs, Nat.mul_pos hn (by decide)⟩
  rw [Context.isLive_iff, contextFor, budgetFor, hr]
  refine ⟨rfl, ?_⟩
  simp only [Context.isExpired, Context.withToken, Context.withTimeout, decide_eq_false_iff_not]
  exact Nat.not_le.mpr (Nat.lt_add_of_pos_right hb)

/-! ### Stages of a line -/

/-- The request on a line, if there is one. -/
def requestOf? (line : Bytes) : Option Request :=
  (Json.ofBytes? line).bind fun j => (Request.ofJson j).toOption

theorem requestOf?_encode {r : Request} (h : ∀ j ∈ r.params, j.Plain 125) :
    requestOf? r.encode = some r := by
  simp [requestOf?, Request.ofBytes?_encode h, Request.ofJson_sorted, Except.toOption]

/-- The line asks for a method: it is a request of the version in use, and its method has the name
of that one in the namespace of the service. -/
structure AsksFor (s : Service) (line : Bytes) (r : Request) (m : Method) : Prop where
  request : requestOf? line = some r
  version : r.rpcVersion = protocol.rpcVersion
  method : r.method = m.qualified s.ns

theorem AsksFor.unique {s : Service} {line : Bytes} {r r' : Request} {m m' : Method}
    (h : s.AsksFor line r m) (h' : s.AsksFor line r' m') : r = r' ∧ m = m' := by
  obtain rfl : r = r' := Option.some.inj (h.request.symm.trans h'.request)
  exact ⟨rfl, (Method.qualified_injective (h.method.symm.trans h'.method)).2⟩

/-- The stage at which a line is decided, and the response and the state that it leads to there. -/
inductive Decided (s : Service) (line : Bytes) (a : σ)
    (answer : Request → Method → Except Fault Json × σ) : Response → σ → Prop where
  | noJson (text : String) (h : Json.ofBytes? line = none) :
      Decided s line a answer (.failure none (.parseError text) none) a
  | noRequest {j : Json} (text : String) (hj : Json.ofBytes? line = some j)
      (h : requestOf? line = none) :
      Decided s line a answer
        (.failure ((j.member? "id").bind Json.asNatural?) (.invalidRequest text) none) a
  | otherVersion {r : Request} (text : String) (hr : requestOf? line = some r)
      (h : r.rpcVersion ≠ protocol.rpcVersion) :
      Decided s line a answer (.failure (some r.id) (.invalidRequest text) none) a
  | noMethod {r : Request} (hr : requestOf? line = some r)
      (hv : r.rpcVersion = protocol.rpcVersion) (h : ∀ m : Method, r.method ≠ m.qualified s.ns) :
      Decided s line a answer (.failure (some r.id) (.methodNotFound r.method) none) a
  | dispatched {r : Request} {m : Method} (h : s.AsksFor line r m) :
      Decided s line a answer (respond r.id m (answer r m).1) (answer r m).2

/-- **Every line is decided at one of the stages.** -/
theorem decided_handleLine [Json.Wording] (s : Service) (now : Readings) (token : Token)
    (line : Bytes) (a : σ) :
    s.Decided line a (fun r m => dispatch now (s.contextFor now.started token r) m r.params a)
      (s.handleLine now token line a).1 (s.handleLine now token line a).2 := by
  cases hj : Json.ofBytes? line with
  | none =>
    simp only [handleLine, hj]
    exact .noJson _ hj
  | some j =>
  cases hr : Request.ofJson j with
  | error e =>
    simp only [handleLine, hj, hr]
    exact .noRequest _ hj (by simp [requestOf?, hj, hr, Except.toOption])
  | ok r =>
  have hrequest : requestOf? line = some r := by simp [requestOf?, hj, hr, Except.toOption]
  simp only [handleLine, hj, hr]
  by_cases hv : r.rpcVersion = protocol.rpcVersion
  case neg =>
    rw [handleRequest, if_pos hv]
    exact .otherVersion _ hrequest hv
  cases hm : Method.resolve? s.ns r.method with
  | none =>
    simp only [handleRequest, if_neg (not_not_intro hv), hm]
    exact .noMethod hrequest hv (Method.resolve?_eq_none_iff.mp hm)
  | some m =>
    have hm := Method.resolve?_eq_some_iff.mp hm
    rw [s.handleRequest_qualified now token hv hm]
    exact .dispatched ⟨hrequest, hv, hm⟩

/-! ### Answers -/

/-- **A request for a call is answered as the call.** -/
theorem dispatch_call {now : Readings} {ctx : Context} (hl : ctx.IsLive now.checked) {call : Call}
    (hf : call.Fits) (a : σ) :
    dispatch now ctx call.method call.params a =
      (((Archive.perform a now.performed ctx call).1.map Reply.toJson).mapError Fault.ofError,
        (Archive.perform a now.performed ctx call).2) := by
  rw [dispatch, if_neg (by simp [call.length_params]), show ctx.check now.checked = .ok () from hl]
  simp only [call.ofParams_params hf, WireCall.perform, call.toCall?_onWire]

theorem dispatch_pingVersion {now : Readings} {ctx : Context} (hl : ctx.IsLive now.checked)
    (a : σ) : dispatch now ctx .pingVersion [] a = (.ok (.string protocol.version), a) := by
  rw [dispatch, if_neg (by simp [Method.arity]), show ctx.check now.checked = .ok () from hl]
  rfl

end Service

end ColdArchive
