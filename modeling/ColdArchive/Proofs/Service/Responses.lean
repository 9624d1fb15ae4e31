import ColdArchive.Proofs.Service.Refusals

/-!
# What a response tells

Whatever stands on a line, its response can be read, and tells by its id which request it answers, by
its code at which stage that was refused, and by its members what became of it. A refusal of the
parameters or of the archive is never taken for one of the request itself.
-/

namespace ColdArchive

theorem Json.asNatural?_eq_some_iff {j : Json} {n : UInt64} :
    j.asNatural? = some n ↔ j = .number (.natural n) := by
  constructor
  · intro h
    unfold asNatural? at h
    split at h
    · rw [Option.some.inj h]
    · cases h
  · rintro rfl
    rfl

/-- The code of the error in a response. -/
def Response.code? (r : Response) : Option Int64 := r.error.map Fault.code

/-! ### Codes of calls -/

namespace Fault

theorem code_ofError (e : StoreError) :
    (ofError e).code ∈ [engineCode, notFoundCode, outOfOrderAppendCode, invalidTruncateTargetCode,
      malformedEnvelopeCode, unknownCategoryCode, closedCode, deadlineExceededCode,
      canceledCode] := by
  cases e <;> simp [ofError, withData, plain]

/-- The error object of a call that was understood. -/
inductive OfCall : Fault → Prop where
  | params (text : String) : OfCall (invalidParams text)
  | archive (e : StoreError) : OfCall (ofError e)

/-- The codes of requests that are not understood are kept for these. -/
theorem OfCall.code_ne {f : Fault} (h : f.OfCall) :
    f.code ≠ parseErrorCode ∧ f.code ≠ invalidRequestCode ∧ f.code ≠ methodNotFoundCode := by
  cases h with
  | params text => exact (by decide : invalidParamsCode ≠ parseErrorCode ∧
      invalidParamsCode ≠ invalidRequestCode ∧ invalidParamsCode ≠ methodNotFoundCode)
  | archive e =>
    have hcode := code_ofError e
    simp only [List.mem_cons, List.not_mem_nil, or_false] at hcode
    rcases hcode with hc | hc | hc | hc | hc | hc | hc | hc | hc <;> rw [hc] <;> decide

theorem OfCall.plain_data {f : Fault} (h : f.OfCall) {data : Json} (hd : f.data = some data) :
    data.Plain 125 := by
  cases h with
  | params text => cases hd
  | archive e => exact (plain_ofError e hd).mono (by omega)

end Fault

namespace WireCall

/-- If this fails, the parameters are to blame. -/
def BlamesParams {α : Type} (x : Except Fault α) : Prop :=
  ∀ fault, x = .error fault → ∃ text, fault = .invalidParams text

variable {α β : Type}

theorem BlamesParams.bind {x : Except Fault α} {f : α → Except Fault β} (hx : BlamesParams x)
    (hf : ∀ a, BlamesParams (f a)) : BlamesParams (x >>= f) := by
  cases x with
  | error fault =>
    intro fault' h
    have he : (Except.error fault : Except Fault β) = .error fault' := h
    obtain rfl := Except.error.inj he
    exact hx fault rfl
  | ok a => exact hf a

theorem blamesParams_pure (a : α) : BlamesParams (pure a : Except Fault α) :=
  fun _ h => by cases h

theorem blamesParams_textParam (params : List Json) (n : Nat) (name : String) :
    BlamesParams (textParam params n name) := by
  intro fault h
  unfold textParam at h
  split at h
  · cases h
  · exact ⟨_, (Except.error.inj h).symm⟩

theorem blamesParams_naturalParam (params : List Json) (n : Nat) (name : String) :
    BlamesParams (naturalParam params n name) := by
  intro fault h
  unfold naturalParam at h
  split at h
  · cases h
  · exact ⟨_, (Except.error.inj h).symm⟩

theorem blamesParams_ofParams (params : List Json) (m : Method) :
    BlamesParams (ofParams params m) := by
  cases m with
  | hasAncient | ancient =>
    exact (blamesParams_textParam _ _ _).bind fun _ =>
      (blamesParams_naturalParam _ _ _).bind fun _ => blamesParams_pure _
  | ancientSize => exact (blamesParams_textParam _ _ _).bind fun _ => blamesParams_pure _
  | truncateAncients => exact (blamesParams_naturalParam _ _ _).bind fun _ => blamesParams_pure _
  | appendAncient =>
    exact (blamesParams_naturalParam _ _ _).bind fun _ =>
      (blamesParams_textParam _ _ _).bind fun _ => (blamesParams_textParam _ _ _).bind fun _ =>
      (blamesParams_textParam _ _ _).bind fun _ => (blamesParams_textParam _ _ _).bind fun _ =>
      (blamesParams_textParam _ _ _).bind fun _ => blamesParams_pure _
  | _ => exact blamesParams_pure _

end WireCall

namespace Service

section Dispatch

variable {σ : Type} [Archive σ]

/-- A method that was resolved fails by its parameters, its time or the archive. -/
theorem ofCall_of_dispatch {now : Readings} {ctx : Context} {m : Method} {params : List Json} {a : σ}
    {fault : Fault} (h : (dispatch now ctx m params a).1 = .error fault) : fault.OfCall := by
  unfold dispatch at h
  split at h
  · cases h
    exact .params _
  · split at h
    · cases h
      exact .archive _
    · split at h
      · next fault' hparams =>
        cases h
        obtain ⟨text, rfl⟩ := WireCall.blamesParams_ofParams params m fault hparams
        exact .params text
      · next call _ =>
        obtain ⟨e, -, rfl⟩ := Except.mapError_eq_error_iff.mp h
        exact .archive e

theorem plain_ownAnswer {call : WireCall} {now : Instant} {ctx : Context} {result : Json}
    (h : call.ownAnswer now ctx = .ok result) : result.Plain 0 := by
  unfold WireCall.ownAnswer at h
  split at h
  · cases h
    trivial
  · split at h
    · cases h
      trivial
    · cases h

/-- A result has neither arrays nor objects in it. -/
theorem plain_of_dispatch {now : Readings} {ctx : Context} {m : Method} {params : List Json} {a : σ}
    {result : Json} (h : (dispatch now ctx m params a).1 = .ok result) : result.Plain 0 := by
  rcases dispatch_cases now ctx m params a with ⟨fault, hd⟩ | ⟨call, -, -, hd⟩
  · rw [hd] at h
    cases h
  · rw [hd] at h
    have ho : (call.perform a now.performed ctx).1 = .ok result := Except.mapError_eq_ok_iff.mp h
    unfold WireCall.perform at ho
    split at ho
    · cases ho
    · exact plain_ownAnswer ho
    · obtain ⟨reply, -, rfl⟩ := Except.map_eq_ok_iff.mp ho
      exact reply.plain_toJson

end Dispatch

/-- What the method that a request asks for is answered with. -/
def answerOf {σ : Type} [Archive σ] (s : Service) (now : Readings) (token : Token) (a : σ)
    (r : Request) (m : Method) : Except Fault Json :=
  (dispatch now (s.contextFor now.started token r) m r.params a).1

/-! ### Members of the response -/

/-- What became of the line: an answer that is a success comes as a result without an error, and
everything else as an error, beside which a result stands only if the line asks for a blob. -/
structure Answered (s : Service) (line : Bytes) (answer : Request → Method → Except Fault Json)
    (response : Response) : Prop where
  granted : ∀ r m result, s.AsksFor line r m → answer r m = .ok result →
    response.result = some result ∧ response.error = none
  refused : (∀ r m result, s.AsksFor line r m → answer r m ≠ .ok result) → response.error ≠ none
  placeholder : response.error ≠ none → (∃ r, s.AsksFor line r .ancient) →
    response.result = some (.string "0x")
  bare : response.error ≠ none → (¬ ∃ r, s.AsksFor line r .ancient) → response.result = none

/-- Which request the response answers, as far as that can be told. -/
structure Identified (line : Bytes) (response : Response) : Prop where
  ofRequest : ∀ r, requestOf? line = some r → response.id = some r.id
  ofMember : ∀ j n, Json.ofBytes? line = some j → requestOf? line = none →
    j.member? "id" = some (.number (.natural n)) → response.id = some n
  unknown : response.id = none ↔ requestOf? line = none ∧
    ∀ j n, Json.ofBytes? line = some j → j.member? "id" ≠ some (.number (.natural n))

/-- At which stage a request was not understood. -/
structure Coded (s : Service) (line : Bytes) (response : Response) : Prop where
  parseError : response.code? = some (-32700) ↔ Json.ofBytes? line = none
  invalidRequest : response.code? = some (-32600) ↔ Json.ofBytes? line ≠ none ∧
    ∀ r, requestOf? line = some r → r.rpcVersion ≠ "2.0"
  methodNotFound : response.code? = some (-32601) ↔ ∃ r, requestOf? line = some r ∧
    r.rpcVersion = "2.0" ∧ ∀ m : Method, r.method ≠ m.qualified s.ns

section Decided

variable {σ : Type} {s : Service} {line : Bytes} {a a' : σ} {response : Response}
  {answer : Request → Method → Except Fault Json × σ}

theorem requestOf?_of_noJson (h : Json.ofBytes? line = none) : requestOf? line = none := by
  simp [requestOf?, h]

theorem json_of_request {r : Request} (h : requestOf? line = some r) :
    Json.ofBytes? line ≠ none := by
  intro hj
  rw [requestOf?_of_noJson hj] at h
  cases h

/-- Where no method is asked for, an error without a result is the whole answer. -/
theorem answered_failure (h : ∀ r m, ¬ s.AsksFor line r m)
    (answer : Request → Method → Except Fault Json) (id : Option UInt64) (fault : Fault) :
    s.Answered line answer (.failure id fault none) where
  granted r m _ hasks _ := absurd hasks (h r m)
  refused _ := Option.some_ne_none fault
  placeholder _ := fun ⟨r, hasks⟩ => absurd hasks (h r .ancient)
  bare _ _ := rfl

theorem Decided.answered (h : s.Decided line a answer response a') :
    s.Answered line (fun r m => (answer r m).1) response := by
  cases h with
  | noJson text hj =>
    refine answered_failure (fun r m hasks => ?_) _ none _
    exact json_of_request hasks.request hj
  | noRequest text hj hr =>
    refine answered_failure (fun r m hasks => ?_) _ _ _
    cases hr.symm.trans hasks.request
  | otherVersion text hr hv =>
    refine answered_failure (fun r m hasks => ?_) _ _ _
    obtain rfl := Option.some.inj (hr.symm.trans hasks.request)
    exact hv hasks.version
  | noMethod hr hv hm =>
    refine answered_failure (fun r m hasks => ?_) _ _ _
    obtain rfl := Option.some.inj (hr.symm.trans hasks.request)
    exact hm m hasks.method
  | @dispatched r m hasks =>
    cases ha : (answer r m).1 with
    | ok result =>
      refine ⟨fun r' m' result' hasks' ha' => ?_, fun hno => ?_, fun he => ?_, fun he => ?_⟩
      · obtain ⟨rfl, rfl⟩ := hasks.unique hasks'
        rw [ha] at ha'
        exact ⟨congrArg some (Except.ok.inj ha'), rfl⟩
      · exact absurd ha (hno r m result hasks)
      · exact absurd rfl he
      · exact absurd rfl he
    | error fault =>
      refine ⟨fun r' m' result' hasks' ha' => ?_, fun _ => Option.some_ne_none fault,
        fun _ hblob => ?_, fun _ hblob => ?_⟩
      · obtain ⟨rfl, rfl⟩ := hasks.unique hasks'
        rw [ha] at ha'
        cases ha'
      · obtain ⟨r', hasks'⟩ := hblob
        obtain ⟨-, rfl⟩ := hasks.unique hasks'
        rfl
      · have hm : m ≠ .ancient := fun hm => hblob ⟨r, hm ▸ hasks⟩
        cases m <;> first | rfl | exact absurd rfl hm

/-- A request is answered under its id, whatever the answer is. -/
theorem identified_of_request {r : Request} (hr : requestOf? line = some r)
    (hid : response.id = some r.id) : Identified line response where
  ofRequest r' hr' := by
    obtain rfl := Option.some.inj (hr.symm.trans hr')
    exact hid
  ofMember _ _ _ hnone _ := by
    rw [hr] at hnone
    cases hnone
  unknown := by
    rw [hid, hr]
    exact ⟨fun h => (by cases h), fun h => (by cases h.1)⟩

theorem Decided.identified (h : s.Decided line a answer response a') : Identified line response := by
  cases h with
  | noJson text hj =>
    have hnone : requestOf? line = none := requestOf?_of_noJson hj
    refine ⟨fun r hr => ?_, fun j n hj' => ?_, fun _ => ⟨hnone, fun j n hj' => ?_⟩, fun _ => rfl⟩
    · cases hnone.symm.trans hr
    · cases hj.symm.trans hj'
    · cases hj.symm.trans hj'
  | @noRequest j text hj hr =>
    refine ⟨fun r hr' => ?_, fun j' n hj' _ hid => ?_, fun hid => ⟨hr, fun j' n hj' hn => ?_⟩,
      fun hid => ?_⟩
    · cases hr.symm.trans hr'
    · obtain rfl := Option.some.inj (hj.symm.trans hj')
      show (j.member? "id").bind Json.asNatural? = some n
      rw [hid]
      rfl
    · obtain rfl := Option.some.inj (hj.symm.trans hj')
      have hid : (j.member? "id").bind Json.asNatural? = none := hid
      rw [hn] at hid
      cases hid
    · show (j.member? "id").bind Json.asNatural? = none
      rw [Option.bind_eq_none_iff]
      intro found hfound
      rw [Option.eq_none_iff_forall_ne_some]
      intro n hn
      rw [Json.asNatural?_eq_some_iff.mp hn] at hfound
      exact hid.2 j n hj hfound
  | otherVersion text hr hv => exact identified_of_request hr rfl
  | noMethod hr hv hm => exact identified_of_request hr rfl
  | dispatched hasks => exact identified_of_request hasks.request (id_respond _ _ _)

/-- The codes of the stages are different from each other. -/
theorem codes_ne : (Fault.parseErrorCode ≠ -32600 ∧ Fault.parseErrorCode ≠ -32601) ∧
    (Fault.invalidRequestCode ≠ -32700 ∧ Fault.invalidRequestCode ≠ -32601) ∧
    Fault.methodNotFoundCode ≠ -32700 ∧ Fault.methodNotFoundCode ≠ -32600 := by decide

theorem Decided.coded (h : s.Decided line a answer response a')
    (hcalls : ∀ r m fault, (answer r m).1 = .error fault → fault.OfCall) : s.Coded line response := by
  obtain ⟨hparse, hinvalid, hmethod⟩ := codes_ne
  cases h with
  | noJson text hj =>
    refine ⟨iff_of_true rfl hj,
      iff_of_false (fun hc => hparse.1 (Option.some.inj hc)) fun h => h.1 hj,
      iff_of_false (fun hc => hparse.2 (Option.some.inj hc)) ?_⟩
    rintro ⟨r, hr, -⟩
    exact json_of_request hr hj
  | noRequest text hj hr =>
    have hjson : Json.ofBytes? line ≠ none := by simp [hj]
    refine ⟨iff_of_false (fun hc => hinvalid.1 (Option.some.inj hc)) hjson,
      iff_of_true rfl ⟨hjson, fun r hr' => ?_⟩,
      iff_of_false (fun hc => hinvalid.2 (Option.some.inj hc)) ?_⟩
    · cases hr.symm.trans hr'
    · rintro ⟨r, hr', -⟩
      cases hr.symm.trans hr'
  | otherVersion text hr hv =>
    refine ⟨iff_of_false (fun hc => hinvalid.1 (Option.some.inj hc)) (json_of_request hr),
      iff_of_true rfl ⟨json_of_request hr, fun r' hr' => ?_⟩,
      iff_of_false (fun hc => hinvalid.2 (Option.some.inj hc)) ?_⟩
    · obtain rfl := Option.some.inj (hr.symm.trans hr')
      exact hv
    · rintro ⟨r', hr', hv', -⟩
      obtain rfl := Option.some.inj (hr.symm.trans hr')
      exact hv hv'
  | @noMethod r hr hv hm =>
    refine ⟨iff_of_false (fun hc => hmethod.1 (Option.some.inj hc)) (json_of_request hr),
      iff_of_false (fun hc => hmethod.2 (Option.some.inj hc)) fun h => h.2 r hr hv,
      iff_of_true rfl ⟨r, hr, hv, hm⟩⟩
  | @dispatched r m hasks =>
    have hcode : ∀ code ∈ (respond r.id m (answer r m).1).code?, code ≠ Fault.parseErrorCode ∧
        code ≠ Fault.invalidRequestCode ∧ code ≠ Fault.methodNotFoundCode := by
      cases ha : (answer r m).1 with
      | ok result => exact fun code hc => by cases hc
      | error fault =>
        intro code hc
        obtain rfl := Option.some.inj hc
        exact (hcalls r m fault ha).code_ne
    refine ⟨iff_of_false (fun hc => (hcode _ hc).1 rfl) (json_of_request hasks.request),
      iff_of_false (fun hc => (hcode _ hc).2.1 rfl) fun h => h.2 r hasks.request hasks.version,
      iff_of_false (fun hc => (hcode _ hc).2.2 rfl) ?_⟩
    rintro ⟨r', hr', -, hm'⟩
    obtain rfl := Option.some.inj (hasks.request.symm.trans hr')
    exact hm' m hasks.method

theorem Decided.version (h : s.Decided line a answer response a') : response.rpcVersion = "2.0" := by
  cases h with
  | @dispatched r m _ => cases (answer r m).1 <;> rfl
  | _ => rfl

/-- The text of a failure is read back if its error is. -/
theorem plain_failure {id : Option UInt64} {fault : Fault} {placeholder : Option Json}
    (hfault : ∀ data, fault.data = some data → data.Plain 125)
    (hplaceholder : ∀ j, placeholder = some j → j.Plain 126) :
    (Response.failure id fault placeholder).Plain := by
  refine ⟨hplaceholder, fun fault' hf => ?_⟩
  obtain rfl := Option.some.inj hf
  exact hfault

theorem Decided.plain (h : s.Decided line a answer response a')
    (hresults : ∀ r m result, (answer r m).1 = .ok result → result.Plain 0)
    (hcalls : ∀ r m fault, (answer r m).1 = .error fault → fault.OfCall) : response.Plain := by
  cases h with
  | @dispatched r m _ =>
    cases ha : (answer r m).1 with
    | ok result => exact plain_respond_ok r.id m (hresults r m result ha)
    | error fault =>
      refine plain_failure (fun data => (hcalls r m fault ha).plain_data) fun j hj => ?_
      cases m <;> cases hj
      trivial
  | _ => exact plain_failure (fun _ hd => by cases hd) fun _ hj => by cases hj

end Decided

/-! ### Every line -/

variable {σ : Type} [Archive σ] (s : Service) (now : Readings) (token : Token) (line : Bytes)
  (a : σ)

/-- The text of a response can be read, whatever it is the response to. -/
theorem plain_handleLine [Json.Wording] : (s.handleLine now token line a).1.Plain :=
  (s.decided_handleLine now token line a).plain (fun _ _ _ => plain_of_dispatch)
    fun _ _ _ => ofCall_of_dispatch

/-- **Every response tells what it answers and what became of it.** Whatever bytes stand on a line
and whatever state the archive is in, the response is one of the protocol that can be read; it has a
result and no error if the method was answered, and an error in every other case, beside which an
empty blob stands if the method is the one for blobs, and nothing if it is not; its id is that of the
request as far as it can be found; and its code says whether the line was no JSON, no request of the
version in use, or a request for no method. -/
theorem response_tells [Json.Wording] :
    Response.decode (s.handleLine now token line a).1.encode =
        .ok (s.handleLine now token line a).1.received ∧
      (s.handleLine now token line a).1.rpcVersion = "2.0" ∧
      s.Answered line (s.answerOf now token a) (s.handleLine now token line a).1 ∧
      Identified line (s.handleLine now token line a).1 ∧
      s.Coded line (s.handleLine now token line a).1 := by
  have decided := s.decided_handleLine now token line a
  exact ⟨Response.decode_encode (s.plain_handleLine now token line a), decided.version,
    decided.answered, decided.identified, decided.coded fun _ _ _ => ofCall_of_dispatch⟩

end Service

end ColdArchive
