import Mathlib.Algebra.Group.Nat.Defs
import ColdArchive.Proofs.Files.Answers
import ColdArchive.Proofs.Message.Stream
import ColdArchive.Proofs.Remote.Substitution
import ColdArchive.Proofs.Service.Responses
import ColdArchive.Remote.Stream

/-!
# What can be written can be read

A request carries all five envelopes of a record, and the response to a read carries one of them.
What the response has around it is no more than what the request has, so a limit on frames that lets
a record in also lets each of its blobs out.
-/

namespace ColdArchive

/-! ### Lengths of texts -/

namespace Json

theorem content_append (s t : String) : content (s ++ t) = content s ++ content t := by
  simp [content, String.toList_append]

theorem length_encode_string (s : String) :
    (encode (string s)).length = (content s).length + 2 := by
  simp [encode_string]

theorem length_encode_array (items : List Json) :
    (encode (array items)).length = (utf8 (itemsText items)).length + 2 := by
  simp [encode_array]

theorem length_encode_object (members : List (String × Json)) :
    (encode (object members)).length = (utf8 (membersText members)).length + 2 := by
  simp [encode_object]

theorem length_membersText_cons (name : String) (j : Json) (members : List (String × Json)) :
    (utf8 (membersText ((name, j) :: members))).length =
      (content name).length + (encode j).length + 3 +
        if members = [] then 0 else (utf8 (membersText members)).length + 1 := by
  rw [utf8_membersText]
  split
  · simp; omega
  · simp; omega

/-- An item is not longer than the items together. -/
theorem length_encode_le_itemsText {j : Json} {items : List Json} (hj : j ∈ items) :
    (encode j).length ≤ (utf8 (itemsText items)).length := by
  induction items with
  | nil => cases hj
  | cons k items ih =>
    rw [utf8_itemsText, List.length_append]
    rcases List.mem_cons.mp hj with rfl | hj
    · exact Nat.le_add_right _ _
    · have hle := ih hj
      rw [if_neg (List.ne_nil_of_mem hj), List.length_cons]
      omega

theorem length_decimals_le {n k : Nat} (h : n < 10 ^ (k + 1)) : (decimals n).length ≤ k + 1 := by
  induction k generalizing n with
  | zero => simp [decimals_of_lt (show n < 10 by simpa using h)]
  | succ k ih =>
    by_cases hn : n < 10
    · simp [decimals_of_lt hn]
    · have hdiv : n / 10 < 10 ^ (k + 1) := by
        rw [Nat.div_lt_iff_lt_mul (by decide), ← Nat.pow_succ]
        exact h
      have hle := ih hdiv
      rw [decimals_of_le (by omega), List.length_append, List.length_singleton]
      omega

/-- A number of 64 bits has from one to twenty digits. -/
theorem length_encode_natural (n : UInt64) :
    1 ≤ (encode (number (.natural n))).length ∧ (encode (number (.natural n))).length ≤ 20 := by
  have hdigits : (encode (number (.natural n))).length = (decimals n.toNat).length := by
    rw [encode_number, utf8_natural, decimalBytes, List.length_map]
  obtain ⟨b, bs, hb, -⟩ := decimalBytes_cons n.toNat
  have hlt : n.toNat < 10 ^ (19 + 1) := Nat.lt_trans n.toNat_lt (by decide)
  refine ⟨?_, hdigits ▸ length_decimals_le hlt⟩
  rw [encode_number, utf8_natural, hb]
  simp

end Json

/-! ### Lengths of messages -/

theorem Response.length_encode_success (id : UInt64) (result : Json) :
    (Response.success id result).encode.length =
      (Json.number (.natural id)).encode.length + result.encode.length + 33 := by
  have hversion : (Json.string protocol.rpcVersion).encode.length = 5 := by decide
  have hnames : (Json.content "jsonrpc").length = 7 ∧ (Json.content "id").length = 2 ∧
      (Json.content "result").length = 6 := by decide
  simp [Response.encode, Response.toJson, Response.success, Json.length_encode_object,
    Json.length_membersText_cons, hversion, hnames]
  omega

theorem Request.le_length_encode {r : Request} (hversion : r.rpcVersion = protocol.rpcVersion) :
    (Json.string r.method).encode.length + (Json.array r.params).encode.length + 44 ≤
      r.encode.length := by
  have hlen : (Json.string r.rpcVersion).encode.length = 5 := by
    rw [hversion]
    decide
  have hnames : (Json.content "jsonrpc").length = 7 ∧ (Json.content "id").length = 2 ∧
      (Json.content "method").length = 6 ∧ (Json.content "params").length = 6 := by decide
  have hid := (Json.length_encode_natural r.id).1
  cases hd : r.deadlineMillis <;>
  · simp [Request.encode, Request.toJson, hd, Json.length_encode_object,
      Json.length_membersText_cons, hlen, hnames]
    omega

/-- **A parameter fits into a response if the request with it fits**, whatever the ids are, unless
the name of the method is very short. -/
theorem Request.length_success_le {r : Request} (hversion : r.rpcVersion = protocol.rpcVersion)
    (hmethod : 5 ≤ (Json.content r.method).length) {j : Json} (hj : j ∈ r.params) (id : UInt64) :
    (Response.success id j).encode.length ≤ r.encode.length := by
  have hrequest := r.le_length_encode hversion
  have hitem := Json.length_encode_le_itemsText hj
  have hid := (Json.length_encode_natural id).2
  rw [Json.length_encode_string, Json.length_encode_array] at hrequest
  rw [Response.length_encode_success]
  omega

/-! ### Records -/

namespace Frame

/-- A reader with the limit reads the payload from its frame. -/
def Passes (limit : Nat) (payload : Bytes) : Prop :=
  ∀ rest, read limit (encode payload ++ rest) = (.frame payload, rest)

theorem passes_of_printable {limit : Nat} (hlimit : limit + 1 < wordLimit) {payload : Bytes}
    (hprint : Printable payload) (hlen : payload.length ≤ limit) : Passes limit payload :=
  read_encode hlimit (hprint.not_mem (by decide)) (hprint.getLast?_ne (by decide)) hlen

/-- What is not longer passes as well. -/
theorem Passes.of_length_le {limit : Nat} {payload shorter : Bytes} (h : Passes limit payload)
    (hprint : Printable shorter) (hlen : shorter.length ≤ payload.length) : Passes limit shorter :=
  read_encode_of_lt (hprint.not_mem (by decide)) (hprint.getLast?_ne (by decide))
    (Nat.lt_of_le_of_lt hlen (lt_window_of_read (h [])))

end Frame

/-- A line that asks for an answer that is a success gets that answer. -/
theorem Service.handleLine_of_answerOf [Json.Wording] {σ : Type} [Archive σ] {s : Service}
    {now : Readings} {token : Token} {line : Bytes} {a : σ} {r : Request} {m : Method} {result : Json}
    (h : s.AsksFor line r m) (hanswer : s.answerOf now token a r m = .ok result) :
    (s.handleLine now token line a).1 = .success r.id result := by
  have hdecided := s.decided_handleLine now token line a
  obtain ⟨hresult, herror⟩ := hdecided.answered.granted r m result h hanswer
  have hid := hdecided.identified.ofRequest r h.request
  have hversion := hdecided.version
  generalize (s.handleLine now token line a).1 = response at hresult herror hid hversion
  obtain ⟨version, id, result', error⟩ := response
  subst hresult herror hid hversion
  rfl

namespace RemoteArchive

variable {τ : Type}

/-- **What was written can be read.** If the request to append a record is not longer than a limit,
then neither is the response to a read of any of its blobs, whatever ids and namespaces they carry.
A limit below the greatest lets the request pass, and a limit that lets the request pass lets the
response pass too: whatever service and archive answer a read with the blob, a transport with that
limit finds the response to the read and in it the blob. -/
theorem written_can_be_read [Json.Wording] (c : RemoteArchive τ) (now : Instant) (ctx : Context)
    (number : Nat) (record : Record) (limit : Nat)
    (hfits : (c.sent now ctx .appendAncient (Call.append number record).params).encode.length ≤
      limit) (category : Category) :
    let request := (c.sent now ctx .appendAncient (Call.append number record).params).encode
    let result := (Reply.blob (record.get category)).toJson
    (∀ id, (Response.success id result).encode.length ≤ limit) ∧
    (limit + 1 < wordLimit → Frame.Passes limit request) ∧
    ∀ (s : Service) (later : Readings) (token : Token) (line : Bytes) (r : Request)
      (a : Hosted × Disk), s.AsksFor line r .ancient →
      s.answerOf later token a r .ancient = .ok result →
      let response := (s.handleLine later token line a).1.encode
      response.length ≤ limit ∧
      (Frame.Passes limit request → Frame.Passes limit response ∧
        ∀ {π : Type} [StreamPeer π] (t : StreamTransport π) (place : Nat), ∃ got,
          t.responseOf (.frame response) = .ok got ∧ got.id = some r.id ∧
          got.outcome.bind (Call.read category place).readReply =
            .ok (.blob (record.get category))) := by
  intro request result
  have hparam : result ∈ (Call.append number record).params := by
    cases category <;> simp [Call.params, Category.all, result, Reply.toJson]
  have hmethod : 5 ≤ (Json.content (c.sent now ctx .appendAncient
      (Call.append number record).params).method).length := by
    have hname : (Json.content Method.appendAncient.name).length = 13 := by decide
    simp [sent, Request.withRemaining, Request.make, Method.qualified, Json.content_append, hname]
    omega
  have hshorter : ∀ id, (Response.success id result).encode.length ≤ request.length :=
    Request.length_success_le rfl hmethod hparam
  refine ⟨fun id => Nat.le_trans (hshorter id) hfits,
    fun hlimit => Frame.passes_of_printable hlimit (Json.printable_encode _) hfits, ?_⟩
  intro s later token line r a hasks hanswer response
  have hresponse : (s.handleLine later token line a).1 = .success r.id result :=
    Service.handleLine_of_answerOf hasks hanswer
  have hread : Response.decode response = .ok (.success r.id result) := by
    rw [Response.decode_encode (s.plain_handleLine later token line a), hresponse]
    rfl
  have hle : response.length ≤ request.length := by
    simpa [response, hresponse] using hshorter r.id
  refine ⟨Nat.le_trans hle hfits, fun hpasses => ⟨?_, ?_⟩⟩
  · exact hpasses.of_length_le (Json.printable_encode _) hle
  · intro π _ t place
    refine ⟨.success r.id result, hread, rfl, ?_⟩
    have hsuits : (Reply.blob (record.get category)).Suits (.read category place) := trivial
    exact Call.readReply_toJson hsuits trivial

/-- A record whose request is as long as the limit, read under the greatest id. -/
theorem written_can_be_read_at_limit :
    let c : RemoteArchive Unit := ⟨(), .default, 1, "", false⟩
    let record : Record := ⟨[0xab], [], [], [], []⟩
    let request := (c.sent 0 .background .appendAncient (Call.append 0 record).params).encode
    let archive : Hosted × Disk :=
      (Archive.perform (Hosted.memory .empty, Disk.empty) 0 .background (.append 0 record)).2
    let r := RemoteArchive.sent { c with nextId := 18446744073709551615 } 0 .background .ancient
      (Call.read .hash 0).params
    let response :=
      ((Service.ofConfig .default).handleLine (.at 0) Token.live r.encode archive).1.encode
    request.length = 117 ∧ response.length ≤ 117 ∧ Frame.Passes 117 response ∧
      ∀ t : StreamTransport Unit, ∃ got, t.responseOf (.frame response) = .ok got ∧
        got.id = some 18446744073709551615 ∧
        got.outcome.bind (Call.read .hash 0).readReply = .ok (.blob [0xab]) := by
  intro c record request archive r response
  have hlen : request.length = 117 := by decide +kernel
  have hasks : (Service.ofConfig .default).AsksFor r.encode r .ancient :=
    ⟨Service.requestOf?_encode fun j hj =>
      ((Call.read .hash 0).plain_params j hj).mono (Nat.zero_le _), rfl, rfl⟩
  have hlive : ((Service.ofConfig .default).contextFor 0 Token.live r).IsLive 0 :=
    Service.isLive_contextFor (n := 29999) (by decide) 0 (by decide +kernel) (by decide)
  have hfits : (Call.read .hash 0).Fits := by simp [Call.Fits, wordLimit]
  have hanswer : (Service.ofConfig .default).answerOf (.at 0) Token.live archive r .ancient =
      .ok (Reply.blob (record.get .hash)).toJson := by
    refine (congrArg Prod.fst (Service.dispatch_call hlive hfits archive)).trans ?_
    rw [Readings.performed_at, Readings.started_at,
      LocalArchive.live archive 0 0 _ .background (.read .hash 0) hlive (by simp)]
    rfl
  obtain ⟨-, hrequest, hread⟩ :=
    written_can_be_read c 0 .background 0 record 117 (Nat.le_of_eq hlen) .hash
  obtain ⟨hle, hpasses⟩ := hread (Service.ofConfig .default) (.at 0) Token.live r.encode r archive
    hasks hanswer
  obtain ⟨hpassed, hfound⟩ := hpasses (hrequest (by decide))
  exact ⟨hlen, hle, hpassed, fun t => hfound t 0⟩

end RemoteArchive

end ColdArchive
