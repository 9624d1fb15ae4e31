import ColdArchive.Proofs.Frame
import ColdArchive.Proofs.Json.Lines
import ColdArchive.Proofs.Message.Exchange

/-!
# Messages sent over a stream

The text of a message is one line, so it is a frame that is read back, and the message is read back
from it. Messages sent one after the other come in the same number and order, requests as they were,
and responses with the same meaning.
-/

namespace ColdArchive

/-! ### The texts of messages -/

namespace Request

theorem printable_encode {r : Request} (h : ∀ j ∈ r.params, j.Plain 125) :
    Printable r.encode := by
  obtain ⟨members, hr, hsub, -⟩ := r.sortMembers_toJson
  rw [encode, hr]
  exact Json.printable_object fun m hm => (plain_sorted h (hsub m hm)).printable

end Request

namespace Fault

theorem printable_toJson {f : Fault} {depth : Nat}
    (h : ∀ data, f.data = some data → data.Plain depth) : Printable f.toJson.encode := by
  obtain ⟨code, message, data⟩ := f
  apply Json.printable_object
  intro m hm
  rcases List.mem_append.mp hm with hm | hm
  · simp at hm
    rcases hm with rfl | rfl
    · exact (Json.plain_ofInt code.toInt 0).printable
    · exact (Json.plain_string message 0).printable
  · cases data with
    | none => cases hm
    | some data =>
      simp at hm
      subst hm
      exact (h data rfl).printable

end Fault

namespace Response

theorem printable_encode {r : Response} (h : r.Plain) : Printable r.encode := by
  obtain ⟨version, id, result, error⟩ := r
  apply Json.printable_object
  intro m hm
  rcases List.mem_append.mp hm with hm | hm
  · rcases List.mem_append.mp hm with hm | hm
    · simp at hm
      rcases hm with rfl | rfl
      · exact (Json.plain_string version 0).printable
      · cases id with
        | none => exact (Json.plain_null 0).printable
        | some n => exact (Json.plain_natural n 0).printable
    · cases result with
      | none => cases hm
      | some j =>
        simp at hm
        subst hm
        exact (h.result j rfl).printable
  · cases error with
    | none => cases hm
    | some fault =>
      simp at hm
      subst hm
      exact Fault.printable_toJson (h.data fault rfl)

/-- Nothing but a null is lost. -/
theorem received_eq_self {r : Response} (hresult : r.result ≠ some .null)
    (hdata : ∀ fault, r.error = some fault → fault.data ≠ some .null) : r.received = r := by
  have kept : ∀ j? : Option Json, j? ≠ some .null → Json.received? j? = j? := by
    intro j? hj
    cases j? with
    | none => rfl
    | some j => cases j <;> first | rfl | exact absurd rfl hj
  obtain ⟨version, id, result, error⟩ := r
  cases error with
  | none => simp [received, kept result hresult]
  | some fault =>
    simp [received, Fault.received, kept result hresult, kept fault.data (hdata fault rfl)]

end Response

/-! ### Streams of messages -/

namespace Frame

variable {α β : Type}

/-- The messages of a list as they are sent, one frame after the other. -/
def sendAll (encode : α → Bytes) (messages : List α) : Bytes :=
  messages.flatMap fun message => Frame.encode (encode message)

/-- The messages in the frames of a stream, and what is found in the place of the next frame. -/
def receiveAll (limit : Nat) (decode : Bytes → β) (bs : Bytes) : List β × Found :=
  ((readAll limit bs).1.map decode, (readAll limit bs).2)

/-- **Messages whose texts are single lines are received in the order in which they were sent.** -/
theorem receiveAll_sendAll {limit : Nat} (hlimit : limit + 1 < wordLimit) {encode : α → Bytes}
    {decode : Bytes → β} {back : α → β} {messages : List α}
    (h : ∀ message ∈ messages, Printable (encode message) ∧ (encode message).length ≤ limit ∧
      decode (encode message) = back message) :
    receiveAll limit decode (sendAll encode messages) = (messages.map back, .finished) := by
  have hframes : readAll limit (sendAll encode messages) = (messages.map encode, .finished) := by
    rw [sendAll, ← List.flatMap_map]
    apply readAll_flatMap_encode hlimit
    intro payload hp
    obtain ⟨message, hm, rfl⟩ := List.mem_map.mp hp
    obtain ⟨hprint, hlen, -⟩ := h message hm
    exact ⟨hprint.not_mem (by decide), hprint.getLast?_ne (by decide), hlen⟩
  rw [receiveAll, hframes, List.map_map]
  exact congrArg (·, Found.finished) (List.map_congr_left fun message hm => (h message hm).2.2)

/-- **Messages pass a stream unchanged.** Whatever strings, integers, arrays and objects they carry,
requests whose parameters are nested up to 125 deep are received as they were, and so are responses
with results nested up to 126 deep and error data up to 125, except that a result or data that are
null are then absent, which means the same. No message is lost, added or moved, also if its text is
as long as the limit allows. -/
theorem messages_pass_unchanged [Json.Wording] {limit : Nat} (hlimit : limit + 1 < wordLimit) :
    (∀ requests : List Request,
      (∀ r ∈ requests, (∀ j ∈ r.params, j.Plain 125) ∧ r.encode.length ≤ limit) →
      receiveAll limit Request.decode? (sendAll Request.encode requests) =
        (requests.map some, .finished)) ∧
    ∀ responses : List Response,
      (∀ r ∈ responses, r.Plain ∧ r.encode.length ≤ limit) →
      receiveAll limit Response.decode (sendAll Response.encode responses) =
          (responses.map fun r => .ok r.received, .finished) ∧
        ∀ r ∈ responses, r.received.rpcVersion = r.rpcVersion ∧ r.received.id = r.id ∧
          r.received.isError = r.isError ∧ r.received.outcome = r.outcome ∧
          (r.result ≠ some .null → (∀ fault, r.error = some fault → fault.data ≠ some .null) →
            r.received = r) := by
  refine ⟨fun requests h => ?_, fun responses h => ⟨?_, fun r _ => ?_⟩⟩
  · apply receiveAll_sendAll hlimit
    intro r hr
    obtain ⟨hplain, hlen⟩ := h r hr
    exact ⟨Request.printable_encode hplain, hlen, Request.decode?_encode hplain⟩
  · apply receiveAll_sendAll hlimit
    intro r hr
    obtain ⟨hplain, hlen⟩ := h r hr
    exact ⟨Response.printable_encode hplain, hlen, Response.decode_encode hplain⟩
  · have herror : r.received.isError = r.isError := by
      simp [Response.isError, Response.received]
    exact ⟨rfl, rfl, herror, r.outcome_received, Response.received_eq_self⟩

/-- A request as long as the limit, with a terminator inside its method. -/
theorem messages_pass_unchanged_at_limit :
    let request : Request := ⟨"2.0", 18446744073709551615, "line\nend\r",
      [.array [.null, .bool true], .object [("é", .number (.negative 9))]], some 0⟩
    let response : Response := ⟨"2.0", some 3, some .null, some ⟨-32001, "gone\r\n", some .null⟩⟩
    request.encode.length = 116 ∧ response.encode.length ≤ 116 ∧
      receiveAll 116 Request.decode? (sendAll Request.encode [request, request]) =
        ([some request, some request], .finished) ∧
      receiveAll 116 Response.decode (sendAll Response.encode [response]) =
        ([.ok ⟨"2.0", some 3, none, some ⟨-32001, "gone\r\n", none⟩⟩], .finished) := by
  intro request response
  have hrequest : request.encode.length = 116 := by decide +kernel
  have hresponse : response.encode.length ≤ 116 := by decide +kernel
  have hparams : ∀ j ∈ request.params, j.Plain 125 := by
    simp [request, Json.Plain, Number.IsInteger]
  have hplain : response.Plain := by
    constructor <;> simp [response, Json.Plain]
  obtain ⟨hrequests, hresponses⟩ :=
    messages_pass_unchanged (show 116 + 1 < wordLimit by decide)
  refine ⟨hrequest, hresponse, hrequests [request, request] ?_, (hresponses [response] ?_).1⟩
  · simpa using ⟨hparams, Nat.le_of_eq hrequest⟩
  · simpa using ⟨hplain, hresponse⟩

end Frame

end ColdArchive
