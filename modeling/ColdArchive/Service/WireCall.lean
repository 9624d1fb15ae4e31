import ColdArchive.Archive
import ColdArchive.Method
import ColdArchive.Message.Fault

/-!
The calls of the protocol: an archive with textual arguments and JSON answers.

Every argument is decoded before the archive is asked, so a malformed one never reaches it.
-/

namespace ColdArchive

/-- A call of the protocol, with its arguments as they were sent. -/
inductive WireCall where
  | close
  | pingVersion
  | hasAncient (category : String) (number : Nat)
  | ancient (category : String) (number : Nat)
  | ancients
  | ancientSize (category : String)
  | appendAncient (number : Nat) (envelopes : ByCategory String)
  | truncateAncients (target : Nat)
  | sync
  deriving DecidableEq, Repr

/-- The answer of an archive as JSON. -/
def Reply.toJson : Reply → Json
  | .done => .null
  | .truth b => .bool b
  | .number n => .ofNat n
  | .blob bytes => .string (Envelope.encode bytes)

namespace WireCall

/-! ### Arguments -/

/-- The parameter at a position, which must be a string. -/
def textParam (params : List Json) (n : Nat) (name : String) : Except Fault String :=
  match params[n]?.bind Json.asString? with
  | some s => .ok s
  | none => .error (.invalidParams s!"param {n} ({name}) must be a string")

/-- The parameter at a position, which must be a natural number. -/
def naturalParam (params : List Json) (n : Nat) (name : String) : Except Fault Nat :=
  match params[n]?.bind Json.asNatural? with
  | some k => .ok k.toNat
  | none => .error (.invalidParams s!"param {n} ({name}) must be an unsigned integer")

/-- The call of a method with the given parameters, as many as it takes. -/
def ofParams (params : List Json) : Method → Except Fault WireCall
  | .close => .ok close
  | .pingVersion => .ok pingVersion
  | .hasAncient => do
    let category ← textParam params 0 "category"
    let number ← naturalParam params 1 "number"
    return hasAncient category number
  | .ancient => do
    let category ← textParam params 0 "category"
    let number ← naturalParam params 1 "number"
    return ancient category number
  | .ancients => .ok ancients
  | .ancientSize => do
    let category ← textParam params 0 "category"
    return ancientSize category
  | .appendAncient => do
    let number ← naturalParam params 0 "number"
    let hash ← textParam params 1 "hash"
    let header ← textParam params 2 "header"
    let body ← textParam params 3 "body"
    let receipts ← textParam params 4 "receipts"
    let td ← textParam params 5 "td"
    return appendAncient number ⟨hash, header, body, receipts, td⟩
  | .truncateAncients => do
    let target ← naturalParam params 0 "target"
    return truncateAncients target
  | .sync => .ok sync

/-! ### Calls -/

/-- The blob of an envelope, or the refusal of it. -/
def openEnvelope (text : String) : Except StoreError Blob :=
  (Envelope.decode text).mapError Envelope.Defect.toError

/-- The record of five envelopes, opened in storage order. -/
def openRecord (envelopes : ByCategory String) : Except StoreError Record := do
  let hash ← openEnvelope envelopes.hash
  let header ← openEnvelope envelopes.header
  let body ← openEnvelope envelopes.body
  let receipts ← openEnvelope envelopes.receipts
  let difficulty ← openEnvelope envelopes.difficulty
  return ⟨hash, header, body, receipts, difficulty⟩

/-- What a call asks of the archive; none if it can be answered without. A category that does not
exist holds nothing. -/
def toCall? : WireCall → Except StoreError (Option Call)
  | close => .ok (some .close)
  | pingVersion => .ok none
  | hasAncient category number => .ok ((Category.ofName? category).map fun c => .has c number)
  | ancient category number => do
    let c ← Category.ofName category
    return some (.read c number)
  | ancients => .ok (some .count)
  | ancientSize category => do
    let c ← Category.ofName category
    return some (.size c)
  | appendAncient number envelopes => do
    let record ← openRecord envelopes
    return some (.append number record)
  | truncateAncients target => .ok (some (.truncate target))
  | sync => .ok (some .sync)

/-- The answer to a call that asks nothing of the archive. -/
def ownAnswer (call : WireCall) (now : Instant) (ctx : Context) : Except StoreError Json :=
  match call with
  | pingVersion => .ok (.string protocol.version)
  | _ =>
    match ctx.check now with
    | .ok () => .ok (.bool false)
    | .error e => .error e

/-- Answers a call with an archive. -/
def perform {σ : Type} [Archive σ] (s : σ) (now : Instant) (ctx : Context) (call : WireCall) :
    Except StoreError Json × σ :=
  match call.toCall? with
  | .error e => (.error e, s)
  | .ok none => (call.ownAnswer now ctx, s)
  | .ok (some asked) =>
    let (outcome, s) := Archive.perform s now ctx asked
    (outcome.map Reply.toJson, s)

end WireCall

end ColdArchive
