import ColdArchive.Proofs.Remote.Acceptance

/-!
# Who is to blame for a failed call

A call that has heard bytes fails for the error in a response, which comes from the archive behind,
or because the bytes are no answer to it. They are no response, or one to another request, or their
result is not of the kind that the call asks for; each of these breaks the protocol, and so the
channel is to blame. One kind of result is blamed on the caller: a text that is no envelope, where a
blob is read (`garbled_envelope_blames_caller`).
-/

namespace ColdArchive

theorem Response.decode_eq_error [Json.Wording] {bytes : Bytes} {e : StoreError}
    (h : decode bytes = .error e) : ∃ reason, e = .protocol reason := by
  unfold decode at h
  split at h <;> cases h
  exact ⟨_, rfl⟩

/-- The line that grants a request with a result. -/
def Response.grant (id : UInt64) (result : Json) : Bytes := (success id result).encode

theorem Response.decode_grant [Json.Wording] (id : UInt64) {result : Json}
    (hplain : result.Plain 126) :
    decode (grant id result) = .ok (success id result).received :=
  decode_encode ⟨fun _ hj => Option.some.inj hj ▸ hplain, fun _ hf => by cases hf⟩

namespace Call

theorem readNumber_eq_error {result : Json} {e : StoreError} (h : readNumber result = .error e) :
    ∃ reason, e = .protocol reason := by
  unfold readNumber at h
  split at h <;> cases h
  exact ⟨_, rfl⟩

/-- **Why a result is not read**: it is of another kind, which breaks the protocol, or it is a text
that is no envelope. -/
theorem readReply_eq_error {call : Call} {result : Json} {e : StoreError}
    (h : call.readReply result = .error e) :
    (∃ reason, e = .protocol reason) ∨
      ∃ c n text defect, call = .read c n ∧ result = .string text ∧
        Envelope.decode text = .error defect ∧ e = .malformedEnvelope defect.message := by
  cases call with
  | has c n =>
    simp only [readReply] at h
    split at h <;> cases h
    exact .inl ⟨_, rfl⟩
  | read c n =>
    cases result with
    | string text =>
      obtain ⟨defect, hdefect, rfl⟩ :=
        Except.mapError_eq_error_iff.mp (Except.map_eq_error_iff.mp h)
      exact .inr ⟨c, n, text, defect, rfl, rfl, hdefect, rfl⟩
    | _ =>
      cases h
      exact .inl ⟨_, rfl⟩
  | count | size => exact .inl (readNumber_eq_error h)
  | append | truncate | sync | close => cases h

end Call

namespace RemoteArchive

theorem verdict_eq_error {id : UInt64} {response : Response} (hnone : response.error = none)
    {e : StoreError} (h : verdict id (.ok response) = .error e) :
    ∃ reason, e = .protocol reason := by
  have houtcome : response.outcome = .ok (response.result.getD .null) :=
    Response.outcome_eq_ok_iff.mpr ⟨hnone, rfl⟩
  simp only [verdict, Except.bind, houtcome] at h
  split at h
  · cases h
  · split at h <;> cases h
    exact ⟨_, rfl⟩

section Heard

variable [Json.Wording] {τ : Type} [Transport τ] [HearsBytes τ] {c : RemoteArchive τ}
  {now : Instant} {ctx : Context}

theorem request_of_heard {m : Method} {params : List Json} {bytes : Bytes}
    (hheard : c.heard? now ctx m params = some bytes) :
    (c.request now ctx m params).1 = verdict c.nextId (Response.decode bytes) := by
  unfold heard? at hheard
  split at hheard
  · next hl => rw [request_of_live hl, HearsBytes.exchange_of_some hheard]
  · cases hheard

/-- The outcome of a call is read off the bytes that it has heard. -/
theorem perform_of_heard (hopen : c.closed = false) {call : Call} {bytes : Bytes}
    (hheard : c.heard? now ctx call.method call.params = some bytes) :
    (c.perform now ctx call).1 =
      (verdict c.nextId (Response.decode bytes)).bind call.readReply := by
  by_cases hclose : call = .close
  · subst hclose
    -- this side is closed before the request is made, which does not change what comes back
    have hverdict : (request { c with closed := true } now ctx .close []).1 =
        verdict c.nextId (Response.decode bytes) :=
      request_of_heard (c := { c with closed := true }) hheard
    obtain ⟨answer, c', hreq⟩ : ∃ answer c',
        request { c with closed := true } now ctx .close [] = (answer, c') := ⟨_, _, rfl⟩
    rw [hreq] at hverdict
    rw [close_of_open hopen hreq, ← hverdict]
    cases answer <;> rfl
  · rw [perform_of_open hopen hclose, request_of_heard hheard]

end Heard

/-- The bytes grant a read with a text that is no envelope, and that is its defect. -/
def Garbles [Json.Wording] (bytes : Bytes) (id : UInt64) (call : Call)
    (defect : Envelope.Defect) : Prop :=
  ∃ c n text, call = .read c n ∧ Response.Grants bytes id (.string text) ∧
    Envelope.decode text = .error defect

/-- **The channel is to blame for bytes that are no answer**, whatever the bytes are and over
whatever transport they have come. A call that has heard bytes without an error in them fails for a
breach of the protocol, unless it is a read that is granted with a text that is no envelope; such a
read is refused as an argument of the caller would be. -/
theorem channel_is_blamed [Json.Wording] {τ : Type} [Transport τ] [HearsBytes τ]
    {c : RemoteArchive τ}
    (hopen : c.closed = false) {now : Instant} {ctx : Context} {call : Call} {bytes : Bytes}
    (hheard : c.heard? now ctx call.method call.params = some bytes)
    (hnone : ∀ response, Response.decode bytes = .ok response → response.error = none) :
    (∀ e, (c.perform now ctx call).1 = .error e → (¬ ∃ defect, Garbles bytes c.nextId call defect) →
      (∃ reason, e = .protocol reason) ∧ e.isTransport = true ∧ e.isClientError = false) ∧
    ∀ defect, Garbles bytes c.nextId call defect →
      (c.perform now ctx call).1 = .error (.malformedEnvelope defect.message) := by
  rw [perform_of_heard hopen hheard]
  constructor
  · intro e he hgarbled
    suffices hprotocol : ∃ reason, e = .protocol reason by
      obtain ⟨reason, rfl⟩ := hprotocol
      exact ⟨⟨reason, rfl⟩, rfl, rfl⟩
    cases hdecode : Response.decode bytes with
    | error e' =>
      obtain ⟨reason, rfl⟩ := Response.decode_eq_error hdecode
      rw [hdecode] at he
      cases he
      exact ⟨reason, rfl⟩
    | ok response =>
      rw [hdecode] at he
      cases hverdict : verdict c.nextId (.ok response) with
      | error e' =>
        rw [hverdict] at he
        cases he
        exact verdict_eq_error (hnone response hdecode) hverdict
      | ok result =>
        rw [hverdict] at he
        rcases Call.readReply_eq_error he with
          hprotocol | ⟨cat, n, text, defect, rfl, rfl, hdefect, rfl⟩
        · exact hprotocol
        · obtain ⟨response', hok, hgranted⟩ := verdict_eq_ok_iff.mp hverdict
          obtain rfl := Except.ok.inj hok
          have hgrants : Response.Grants bytes c.nextId (.string text) :=
            Response.grants_iff.mpr ⟨response, hdecode, hgranted⟩
          exact absurd ⟨defect, cat, n, text, rfl, hgrants, hdefect⟩ hgarbled
  · rintro defect ⟨cat, n, text, rfl, hgrants, hdefect⟩
    have hverdict : verdict c.nextId (Response.decode bytes) = .ok (.string text) :=
      verdict_eq_ok_iff.mpr (Response.grants_iff.mp hgrants)
    have hread : Call.readReply (.read cat n) (.string text) =
        ((Envelope.decode text).mapError Envelope.Defect.toError).map Reply.blob := rfl
    rw [hverdict, Except.bind, hread, hdefect]
    rfl

/-- An archive in front of a peer that grants every request with that result. -/
def beforeGrant (result : Json) : RemoteArchive (Loopback Refrain) :=
  ⟨.ofPeer ⟨Response.grant 7 result⟩, .default, 7, "", false⟩

/-- A truth is asked for and a text comes back. -/
theorem channel_is_blamed_for_text :
    ∃ e, ((beforeGrant (.string "zz")).perform 0 .background (.has .hash 0)).1 = .error e ∧
      (∃ reason, e = .protocol reason) ∧ e.isTransport = true ∧ e.isClientError = false := by
  have hheard : (beforeGrant (.string "zz")).heard? 0 .background (Call.has .hash 0).method
      (Call.has .hash 0).params = some (Response.grant 7 (.string "zz")) := rfl
  have hdecode := @Response.decode_grant _ 7 (.string "zz") trivial
  have hblamed := channel_is_blamed rfl hheard fun response h => by
    rw [hdecode] at h
    cases h
    rfl
  obtain ⟨e, he⟩ : ∃ e,
      ((beforeGrant (.string "zz")).perform 0 .background (.has .hash 0)).1 = .error e := by
    rw [perform_of_heard rfl hheard, hdecode]
    exact ⟨_, rfl⟩
  exact ⟨e, he, hblamed.1 e he fun ⟨_, _, _, _, h, _⟩ => by cases h⟩

/-- **A garbled envelope blames the caller.** A read is granted with a text that is no envelope. The
response has no error in it, and yet the call fails as if its arguments had been refused, and not as
if the channel had failed. -/
theorem garbled_envelope_blames_caller :
    let c := beforeGrant (.string "zz")
    let call := Call.read .hash 0
    ∃ bytes response e, c.heard? 0 .background call.method call.params = some bytes ∧
      Response.decode bytes = .ok response ∧ response.error = none ∧
      (c.perform 0 .background call).1 = .error e ∧
      e.isTransport = false ∧ e.isClientError = true := by
  intro c call
  have hheard : c.heard? 0 .background call.method call.params =
      some (Response.grant 7 (.string "zz")) := rfl
  have hdecode := @Response.decode_grant _ 7 (.string "zz") trivial
  refine ⟨_, _, .malformedEnvelope Envelope.Defect.missingPrefix.message, hheard, hdecode, rfl, ?_,
    rfl, rfl⟩
  rw [perform_of_heard rfl hheard, hdecode]
  rfl

end RemoteArchive

end ColdArchive
