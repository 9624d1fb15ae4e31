import ColdArchive.Proofs.Remote.Closing
import ColdArchive.Remote.Stream

/-!
# What is believed of a response

A transport hands over whatever bytes the peer has sent, and a call is taken for granted only if they
are a response without an error, for this request or for none in particular, with a result of the
kind that the call asks for. So an empty blob beside an error is never read, nor is a peer of another
version talked to.
-/

namespace ColdArchive

/-! ### Bytes -/

namespace Response

/-- The error in a message that is taken for a response: in an object by its name, in an array by
its place. -/
def errorMember? : Json → Option Json
  | .object members => members.lookup "error"
  | .array items => items[3]?
  | _ => none

/-- The bytes grant the request of that id, with that result: no result is as good as null. -/
structure Grants [Json.Wording] (bytes : Bytes) (id : UInt64) (result : Json) : Prop where
  decodes : ∃ response, decode bytes = .ok response ∧
    (response.id = none ∨ response.id = some id) ∧ response.result.getD .null = result
  noError : ∃ j, Json.ofMessage? shape bytes = some j ∧
    (errorMember? j = none ∨ errorMember? j = some .null)

theorem decode_eq_ok_iff [Json.Wording] {bytes : Bytes} {response : Response} :
    decode bytes = .ok response ↔
      ∃ j, Json.ofMessage? shape bytes = some j ∧ ofJson? j = some response := by
  rw [← Option.bind_eq_some_iff, decode]
  cases (Json.ofMessage? shape bytes).bind ofJson? <;> simp

theorem error_of_read {j : Json} {values : List (Option Json)} (h : schema.read j = .ok values) :
    valueAt? values 3 = Json.received? (errorMember? j) := by
  unfold Schema.read at h
  split at h
  · split at h
    · cases h
    · split at h
      · cases h
      · cases h
        simp [schema, valueAt?, errorMember?, Field.value?_of_nullable]
  · split at h
    · cases h
    · cases h
      simp [schema, valueAt?, errorMember?, Field.value?_of_nullable]
  · cases h

theorem received?_eq_none_iff {j? : Option Json} :
    Json.received? j? = none ↔ j? = none ∨ j? = some .null := by
  cases j? with
  | none => simp [Json.received?]
  | some j => cases j <;> simp [Json.received?]

/-- **A response is without an error** if that member is absent or null. -/
theorem error_eq_none_iff {j : Json} {response : Response} (h : ofJson? j = some response) :
    response.error = none ↔ errorMember? j = none ∨ errorMember? j = some .null := by
  rw [← received?_eq_none_iff]
  unfold ofJson? at h
  split at h
  · cases h
  · next values hread =>
    rw [← error_of_read hread]
    split at h
    · next hnone =>
      cases h
      exact iff_of_true rfl hnone
    · next e hsome =>
      split at h
      · cases h
        exact iff_of_false (by simp) (by simp [hsome])
      · cases h

theorem grants_iff [Json.Wording] {bytes : Bytes} {id : UInt64} {result : Json} :
    Grants bytes id result ↔ ∃ response, decode bytes = .ok response ∧ response.error = none ∧
      (response.id = none ∨ response.id = some id) ∧ response.result.getD .null = result := by
  constructor
  · rintro ⟨⟨response, hdecode, hid, hresult⟩, j, hj, hnone⟩
    obtain ⟨j', hj', hr⟩ := decode_eq_ok_iff.mp hdecode
    obtain rfl := Option.some.inj (hj.symm.trans hj')
    exact ⟨response, hdecode, (error_eq_none_iff hr).mpr hnone, hid, hresult⟩
  · rintro ⟨response, hdecode, hnone, hid, hresult⟩
    obtain ⟨j, hj, hr⟩ := decode_eq_ok_iff.mp hdecode
    exact ⟨⟨response, hdecode, hid, hresult⟩, j, hj, (error_eq_none_iff hr).mp hnone⟩

theorem outcome_eq_ok_iff {response : Response} {result : Json} :
    response.outcome = .ok result ↔
      response.error = none ∧ response.result.getD .null = result := by
  unfold outcome
  split
  · next fault h => simp [h]
  · next h => simp [h]

end Response

/-- A transport that takes for a response the bytes that come back. -/
class HearsBytes [Json.Wording] (τ : Type) [Transport τ] where
  /-- The bytes that come back for a request, if any do. -/
  heard? : τ → Instant → Context → Request → Option Bytes
  exchange_of_some : ∀ {t : τ} {now : Instant} {ctx : Context} {r : Request} {bytes : Bytes},
    heard? t now ctx r = some bytes → (Transport.exchange t now ctx r).1 = Response.decode bytes
  exchange_of_none : ∀ {t : τ} {now : Instant} {ctx : Context} {r : Request},
    heard? t now ctx r = none → ∃ e, (Transport.exchange t now ctx r).1 = .error e

namespace Loopback

variable {π : Type} [LinePeer π]

/-- The answer of the peer, if it is asked. -/
def heard? (t : Loopback π) (now : Instant) (ctx : Context) (r : Request) : Option Bytes :=
  match ctx.check now with
  | .ok () => if t.connected then some (LinePeer.answer t.peer now r.encode).1 else none
  | .error _ => none

instance [Json.Wording] : HearsBytes (Loopback π) where
  heard? := heard?
  exchange_of_some {t now ctx r bytes} h := by
    show (t.exchange now ctx r).1 = _
    unfold heard? at h
    unfold exchange
    split at h
    · next hl =>
      split at h
      · next hcon =>
        cases h
        simp [hl, hcon]
      · cases h
    · cases h
  exchange_of_none {t now ctx r} h := by
    show ∃ e, (t.exchange now ctx r).1 = _
    unfold heard? at h
    unfold exchange
    split at h
    · next hl =>
      split at h
      · cases h
      · next hcon => simp [hl, hcon]
    · next e hl => simp [hl]

end Loopback

namespace StreamTransport

variable {π : Type} [StreamPeer π]

/-- The frame that is read from the connection of a call. -/
def frame? (t : StreamTransport π) (now : Instant) (r : Request) (id : Nat) : Option Bytes :=
  match (t.wire.send now id (Frame.encode r.encode)).receive? t.maxFrameSize id with
  | some (.frame bytes, _) => some bytes
  | _ => none

/-- The frame that a call finds, if it has a connection. -/
def heard? (t : StreamTransport π) (now : Instant) (ctx : Context) (r : Request) : Option Bytes :=
  match ctx.check now with
  | .error _ => none
  | .ok () =>
    if t.pool.closed then none
    else
      match t.checkOut now with
      | (.error _, _) => none
      | (.ok id, t) => t.frame? now r id

theorem converse_of_some [Json.Wording] {t : StreamTransport π} {now : Instant} {ctx : Context}
    {r : Request} {id : Nat} {bytes : Bytes} (h : t.frame? now r id = some bytes) :
    (t.converse now ctx r id).1 = Response.decode bytes := by
  unfold frame? at h
  unfold converse
  split at h
  · next wire hfound =>
    cases h
    simp only [hfound, responseOf]
    cases Response.decode bytes <;> rfl
  · cases h

theorem converse_of_none [Json.Wording] {t : StreamTransport π} {now : Instant} {r : Request}
    {id : Nat} (h : t.frame? now r id = none) (ctx : Context) :
    ∃ e, (t.converse now ctx r id).1 = .error e := by
  unfold frame? at h
  unfold converse
  cases hfound : (t.wire.send now id (Frame.encode r.encode)).receive? t.maxFrameSize id with
  | none => exact ⟨ctx.endOfWait, by simp only [hfound]⟩
  | some received =>
    obtain ⟨found, wire⟩ := received
    rw [hfound] at h
    cases found with
    | frame bytes => cases h
    | _ =>
      simp only [hfound, responseOf]
      exact ⟨_, rfl⟩

/-- A call gets no connection and hears nothing, or hears what its connection has for it. -/
theorem heard?_cases [Json.Wording] (t : StreamTransport π) (now : Instant) (ctx : Context)
    (r : Request) :
    (t.heard? now ctx r = none ∧ ∃ e, (t.exchange now ctx r).1 = .error e) ∨
      ∃ id t', t.heard? now ctx r = frame? t' now r id ∧
        t.exchange now ctx r = t'.converse now ctx r id := by
  unfold heard? exchange
  cases ctx.check now with
  | error e => exact .inl ⟨rfl, e, rfl⟩
  | ok =>
    cases t.pool.closed with
    | true => exact .inl ⟨rfl, _, rfl⟩
    | false =>
      obtain ⟨lent, t', hout⟩ : ∃ lent t', t.checkOut now = (lent, t') := ⟨_, _, rfl⟩
      simp only [hout]
      cases lent with
      | error e => exact .inl ⟨rfl, e, rfl⟩
      | ok id => exact .inr ⟨id, t', rfl, rfl⟩

instance [Json.Wording] : HearsBytes (StreamTransport π) where
  heard? := heard?
  exchange_of_some {t now ctx r bytes} h := by
    show (t.exchange now ctx r).1 = _
    obtain ⟨hnone, -⟩ | ⟨id, t', hheard, hexchange⟩ := t.heard?_cases now ctx r
    · cases h.symm.trans hnone
    · rw [hexchange]
      exact converse_of_some (hheard.symm.trans h)
  exchange_of_none {t now ctx r} h := by
    show ∃ e, (t.exchange now ctx r).1 = _
    obtain ⟨-, he⟩ | ⟨id, t', hheard, hexchange⟩ := t.heard?_cases now ctx r
    · exact he
    · rw [hexchange]
      exact converse_of_none (hheard.symm.trans h) ctx

end StreamTransport

/-! ### Calls -/

/-- A result of the kind that a call asks for, and the reply that it stands for. -/
inductive Call.Takes : Call → Json → Reply → Prop where
  | has (c : Category) (n : Nat) (b : Bool) : Takes (.has c n) (.bool b) (.truth b)
  | read (c : Category) (n : Nat) {text : String} {blob : Blob}
      (h : Envelope.decode text = .ok blob) : Takes (.read c n) (.string text) (.blob blob)
  | count (n : UInt64) : Takes .count (.number (.natural n)) (.number n.toNat)
  | size (c : Category) (n : UInt64) : Takes (.size c) (.number (.natural n)) (.number n.toNat)
  | append (n : Nat) (record : Record) (result : Json) : Takes (.append n record) result .done
  | truncate (target : Nat) (result : Json) : Takes (.truncate target) result .done
  | sync (result : Json) : Takes .sync result .done
  | close (result : Json) : Takes .close result .done

namespace Call

theorem readNumber_eq_ok_iff {result : Json} {reply : Reply} :
    readNumber result = .ok reply ↔
      ∃ n : UInt64, result = .number (.natural n) ∧ reply = .number n.toNat := by
  unfold readNumber
  split
  · next n hn =>
    rw [Json.asNatural?_eq_some_iff] at hn
    subst hn
    simp [eq_comm]
  · next hnone =>
    simp only [reduceCtorEq, false_iff, not_exists, not_and]
    rintro n rfl
    cases hnone

/-- **A result is read if it is of the kind that the call asks for.** -/
theorem readReply_eq_ok_iff {call : Call} {result : Json} {reply : Reply} :
    call.readReply result = .ok reply ↔ call.Takes result reply := by
  cases call with
  | has c n =>
    cases result with
    | bool b =>
      constructor
      · intro h
        cases h
        exact .has c n b
      · rintro ⟨⟩
        rfl
    | _ => exact ⟨fun h => (by cases h), fun h => (by cases h)⟩
  | read c n =>
    cases result with
    | string text =>
      have hread : readReply (.read c n) (.string text) =
          ((Envelope.decode text).mapError Envelope.Defect.toError).map Reply.blob := rfl
      rw [hread, Except.map_eq_ok_iff]
      constructor
      · rintro ⟨blob, hblob, rfl⟩
        exact .read c n (Except.mapError_eq_ok_iff.mp hblob)
      · intro h
        cases h with
        | read _ _ hblob => exact ⟨_, Except.mapError_eq_ok_iff.mpr hblob, rfl⟩
    | _ => exact ⟨fun h => (by cases h), fun h => (by cases h)⟩
  | count =>
    refine readNumber_eq_ok_iff.trans ⟨?_, ?_⟩
    · rintro ⟨n, rfl, rfl⟩
      exact .count n
    · intro h
      cases h with
      | count n => exact ⟨n, rfl, rfl⟩
  | size c =>
    refine readNumber_eq_ok_iff.trans ⟨?_, ?_⟩
    · rintro ⟨n, rfl, rfl⟩
      exact .size c n
    · intro h
      cases h with
      | size _ n => exact ⟨n, rfl, rfl⟩
  | append | truncate | sync | close =>
    refine ⟨fun h => ?_, fun h => ?_⟩
    · cases h
      constructor
    · cases h
      rfl

end Call

namespace RemoteArchive

section Requests

variable {τ : Type} [Transport τ] {c : RemoteArchive τ} {now : Instant} {ctx : Context}

/-- What a request has found, once its response was matched with it. -/
def verdict (id : UInt64) (answer : Except StoreError Response) : Except StoreError Json :=
  answer.bind fun response =>
    match response.id with
    | none => response.outcome
    | some got =>
      if got = id then response.outcome
      else
        .error (.protocol s!"response id Some({got.toNat}) does not match request {id.toNat}")

theorem verdict_eq_ok_iff {id : UInt64} {answer : Except StoreError Response} {result : Json} :
    verdict id answer = .ok result ↔ ∃ response, answer = .ok response ∧ response.error = none ∧
      (response.id = none ∨ response.id = some id) ∧ response.result.getD .null = result := by
  cases answer with
  | error e => simp [verdict, Except.bind]
  | ok response =>
    have hv : verdict id (.ok response) = .ok result ↔
        (response.id = none ∨ response.id = some id) ∧ response.outcome = .ok result := by
      unfold verdict
      cases hid : response.id with
      | none => simp [Except.bind, hid]
      | some got =>
        by_cases hgot : got = id <;> simp [Except.bind, hid, hgot]
    rw [hv, Response.outcome_eq_ok_iff]
    simp only [Except.ok.injEq, exists_eq_left']
    exact and_left_comm

theorem request_of_live {m : Method} {params : List Json}
    (hl : (bounded c.config.defaultTimeout now ctx).check now = .ok ()) :
    (c.request now ctx m params).1 =
      verdict c.nextId (Transport.exchange c.transport now
        (bounded c.config.defaultTimeout now ctx) (c.sent now ctx m params)).1 := by
  unfold request
  rw [show (if ctx.deadline.isSome then ctx else ctx.boundedBy now c.config.defaultTimeout) =
    bounded c.config.defaultTimeout now ctx from rfl]
  simp only [hl]
  rw [show (Request.make c.nextId (m.qualified c.config.ns) params).withRemaining
    ((bounded c.config.defaultTimeout now ctx).remaining (now + lag)) = c.sent now ctx m params
    from rfl]
  generalize Transport.exchange c.transport now (bounded c.config.defaultTimeout now ctx)
    (c.sent now ctx m params) = exchanged
  obtain ⟨answer, transport⟩ := exchanged
  cases answer with
  | error e => rfl
  | ok response =>
    simp only [verdict, Except.bind]
    cases response.id with
    | none => rfl
    | some got => by_cases hgot : got = c.nextId <;> simp only [hgot, if_true, if_false]

variable [Json.Wording] [HearsBytes τ]

/-- The bytes that come back for a request, if it is sent and any do. -/
def heard? (c : RemoteArchive τ) (now : Instant) (ctx : Context) (m : Method)
    (params : List Json) : Option Bytes :=
  match (bounded c.config.defaultTimeout now ctx).check now with
  | .ok () =>
    HearsBytes.heard? c.transport now (bounded c.config.defaultTimeout now ctx)
      (c.sent now ctx m params)
  | .error _ => none

/-- **A request has a result** if the bytes that come back grant it. -/
theorem request_eq_ok_iff {m : Method} {params : List Json} {result : Json} :
    (c.request now ctx m params).1 = .ok result ↔
      ∃ bytes, c.heard? now ctx m params = some bytes ∧ Response.Grants bytes c.nextId result := by
  unfold heard?
  cases hl : (bounded c.config.defaultTimeout now ctx).check now with
  | error e => simp [request_of_lost hl]
  | ok =>
    rw [request_of_live hl, verdict_eq_ok_iff]
    cases hheard : HearsBytes.heard? c.transport now (bounded c.config.defaultTimeout now ctx)
        (c.sent now ctx m params) with
    | none =>
      obtain ⟨e, he⟩ := HearsBytes.exchange_of_none hheard
      simp [he]
    | some bytes =>
      rw [HearsBytes.exchange_of_some hheard]
      simp [Response.grants_iff]

/-- **A call is answered** if the bytes that come back grant its request, with a result of the kind
that it asks for. -/
theorem perform_eq_ok_iff (hopen : c.closed = false) {call : Call} {reply : Reply} :
    (c.perform now ctx call).1 = .ok reply ↔
      ∃ bytes result, c.heard? now ctx call.method call.params = some bytes ∧
        Response.Grants bytes c.nextId result ∧ call.Takes result reply := by
  have key : (c.perform now ctx call).1 = .ok reply ↔
      ∃ result, (∃ bytes, c.heard? now ctx call.method call.params = some bytes ∧
        Response.Grants bytes c.nextId result) ∧ call.Takes result reply := by
    simp only [← Call.readReply_eq_ok_iff]
    by_cases hclose : call = .close
    · subst hclose
      -- this side is closed before the request is made, which does not change what comes back
      have hsame : ∀ result, (request { c with closed := true } now ctx .close []).1 = .ok result ↔
          ∃ bytes, c.heard? now ctx .close [] = some bytes ∧
            Response.Grants bytes c.nextId result := fun result => request_eq_ok_iff
      obtain ⟨answer, c', hreq⟩ : ∃ answer c',
          request { c with closed := true } now ctx .close [] = (answer, c') := ⟨_, _, rfl⟩
      rw [close_of_open hopen hreq, Except.map_eq_ok_iff]
      rw [hreq] at hsame
      exact exists_congr fun result => and_congr (hsame result) (by simp [Call.readReply])
    · rw [perform_of_open hopen hclose]
      simp only [← request_eq_ok_iff]
      cases (c.request now ctx call.method call.params).1 <;> simp [Except.bind]
  rw [key]
  constructor
  · rintro ⟨result, ⟨bytes, hheard, hgrants⟩, htakes⟩
    exact ⟨bytes, result, hheard, hgrants, htakes⟩
  · rintro ⟨bytes, result, hheard, hgrants, htakes⟩
    exact ⟨result, ⟨bytes, hheard, hgrants⟩, htakes⟩

end Requests

/-! ### The handshake -/

section Handshake

variable {τ : Type} [Transport τ]

/-- The bytes that come back for the probe of the handshake, if any do. -/
def probed? [Json.Wording] [HearsBytes τ] (transport : τ) (config : RemoteConfig) (now : Instant) :
    Option Bytes :=
  heard? ⟨transport, config, 1, "", false⟩ now
    (Context.background.withTimeout now config.connectTimeout) .pingVersion []

theorem handshakeError_cases (e : StoreError) : ∃ reason, handshakeError e = .transport reason := by
  cases e <;> exact ⟨_, rfl⟩

theorem versionOf_eq_ok_iff {answer : Except StoreError Json} {version : String} :
    versionOf answer = .ok version ↔ answer = .ok (.string version) := by
  cases answer with
  | error e => simp [versionOf]
  | ok j => cases j <;> simp [versionOf]

/-- **How a handshake ends**: the peer has told its version, which is the one in use or another one,
or the transport is to blame. -/
theorem openOver_cases (transport : τ) (config : RemoteConfig) (now : Instant) :
    let answer := (request ⟨transport, config, 1, "", false⟩ now
      (Context.background.withTimeout now config.connectTimeout) .pingVersion []).1
    (answer = .ok (.string protocol.version) ∧ ∃ c, (openOver transport config now).1 = .ok c) ∨
      (∃ version, answer = .ok (.string version) ∧ version ≠ protocol.version ∧
        (openOver transport config now).1 = .error (.versionMismatch protocol.version version)) ∨
      (∀ version, answer ≠ .ok (.string version)) ∧
        ∃ reason, (openOver transport config now).1 = .error (.transport reason) := by
  intro answer
  cases hv : versionOf answer with
  | error e =>
    obtain ⟨reason, he⟩ := handshakeError_cases e
    refine .inr (.inr ⟨fun version ha => ?_, reason, ?_⟩)
    · rw [versionOf_eq_ok_iff.mpr ha] at hv
      cases hv
    · simp only [openOver]
      rw [hv]
      simp only [he]
  | ok version =>
    have ha := versionOf_eq_ok_iff.mp hv
    by_cases hversion : version = protocol.version
    · refine .inl ⟨by rw [ha, hversion], ?_⟩
      simp only [openOver]
      rw [hv]
      simp only [hversion, if_true]
      exact ⟨_, rfl⟩
    · refine .inr (.inl ⟨version, ha, hversion, ?_⟩)
      simp only [openOver]
      rw [hv]
      simp only [hversion, if_false]

end Handshake

/-! ### Every response -/

/-- **A bad response is never taken for success.** Whatever bytes come back, over whatever transport,
a call on an open archive is answered exactly if they are a response without an error, with the id of
the request or none, and with a result of the kind that the call asks for; so a response with an error
is a failure, whatever stands beside the error. The handshake ends well exactly if the probe has the
version in use for its result, tells another version exactly if it has another text, and blames the
transport for everything else. -/
theorem only_grants_believed [Json.Wording] {τ : Type} [Transport τ] [HearsBytes τ]
    {c : RemoteArchive τ} (hopen : c.closed = false) (now : Instant) (ctx : Context) (call : Call)
    (transport : τ) (config : RemoteConfig) :
    ((∀ reply, (c.perform now ctx call).1 = .ok reply ↔
        ∃ bytes result, c.heard? now ctx call.method call.params = some bytes ∧
          Response.Grants bytes c.nextId result ∧ call.Takes result reply) ∧
      ∀ bytes response, c.heard? now ctx call.method call.params = some bytes →
        Response.decode bytes = .ok response → response.error ≠ none →
        ∃ e, (c.perform now ctx call).1 = .error e) ∧
    ((∃ c', (openOver transport config now).1 = .ok c') ↔
        ∃ bytes, probed? transport config now = some bytes ∧
          Response.Grants bytes 1 (.string protocol.version)) ∧
      (∀ version, (openOver transport config now).1 =
          .error (.versionMismatch protocol.version version) ↔
        version ≠ protocol.version ∧ ∃ bytes, probed? transport config now = some bytes ∧
          Response.Grants bytes 1 (.string version)) ∧
      ((∃ reason, (openOver transport config now).1 = .error (.transport reason)) ↔
        ¬ ∃ version bytes, probed? transport config now = some bytes ∧
          Response.Grants bytes 1 (.string version)) := by
  refine ⟨⟨fun reply => perform_eq_ok_iff hopen, ?_⟩, ?_⟩
  · intro bytes response hheard hdecode herror
    cases ho : (c.perform now ctx call).1 with
    | error e => exact ⟨e, rfl⟩
    | ok reply =>
      obtain ⟨bytes', result, hheard', hgrants, -⟩ := (perform_eq_ok_iff hopen).mp ho
      obtain rfl := Option.some.inj (hheard.symm.trans hheard')
      obtain ⟨response', hdecode', hnone, -⟩ := Response.grants_iff.mp hgrants
      obtain rfl := Except.ok.inj (hdecode.symm.trans hdecode')
      exact absurd hnone herror
  · have hprobe : ∀ version, (request ⟨transport, config, 1, "", false⟩ now
        (Context.background.withTimeout now config.connectTimeout) .pingVersion []).1 =
          .ok (.string version) ↔ ∃ bytes, probed? transport config now = some bytes ∧
            Response.Grants bytes 1 (.string version) := fun version => request_eq_ok_iff
    rcases openOver_cases transport config now with
      ⟨ha, c', hopened⟩ | ⟨version, ha, hversion, hopened⟩ | ⟨ha, reason, hopened⟩ <;>
      simp only [← hprobe, hopened, ha]
    · simp [eq_comm]
    · refine ⟨by simp [hversion], fun other => ?_, by simp⟩
      simp only [Except.error.injEq, StoreError.versionMismatch.injEq, true_and, Except.ok.injEq,
        Json.string.injEq]
      exact ⟨fun h => ⟨h ▸ hversion, h⟩, fun h => h.2⟩
    · simp

/-- A peer that says the same to every line. -/
structure Refrain where
  answer : Bytes

instance : LinePeer Refrain := ⟨fun peer _ _ => (peer.answer, peer)⟩

/-- The empty blob beside an error is not read, and an envelope without one is. -/
theorem only_grants_believed_of_placeholder :
    let refusal := Service.respond 7 .ancient (.error (.ofError (.notFound .hash 0 0)))
    let grant := Service.respond 7 .ancient (.ok (.string "0XaB"))
    let client (response : Response) : RemoteArchive (Loopback Refrain) :=
      ⟨.ofPeer ⟨response.encode⟩, .default, 7, "", false⟩
    (client refusal).closed = false ∧ refusal.result = some (.string "0x") ∧
      (∃ e, ((client refusal).perform 0 .background (.read .hash 0)).1 = .error e) ∧
      ((client grant).perform 0 .background (.read .hash 0)).1 = .ok (.blob [0xab]) := by
  intro refusal grant client
  have hrefusal : Response.decode refusal.encode = .ok refusal.received :=
    Response.decode_encode (Service.plain_respond_error 7 .ancient _)
  have hgrant : Response.decode grant.encode = .ok grant.received :=
    Response.decode_encode (Service.plain_respond_ok 7 .ancient trivial)
  have hblob : Envelope.decode "0XaB" = .ok [0xab] := rfl
  refine ⟨rfl, rfl, ?_, ?_⟩
  · exact (only_grants_believed (c := client refusal) rfl 0 .background (.read .hash 0)
      (client refusal).transport .default).1.2 refusal.encode _ rfl hrefusal (Option.some_ne_none _)
  · refine ((only_grants_believed (c := client grant) rfl 0 .background (.read .hash 0)
      (client grant).transport .default).1.1 _).mpr ⟨grant.encode, .string "0XaB", rfl, ?_, ?_⟩
    · exact Response.grants_iff.mpr ⟨_, hgrant, rfl, .inr rfl, rfl⟩
    · exact .read .hash 0 hblob

end RemoteArchive

end ColdArchive
