import ColdArchive.Remote.Config
import ColdArchive.Remote.Transport

/-!
A remote archive: the calls of an archive, made over a transport.

A call becomes one request with an id of its own, and its answer is read from the response to that
request. Errors of the archive on the other side come back as they were; a failure of the channel
is an error of its own class. Nothing is tried twice.
-/

namespace ColdArchive

namespace Call

/-- The method of a call. -/
def method : Call → Method
  | has .. => .hasAncient
  | read .. => .ancient
  | count => .ancients
  | size _ => .ancientSize
  | append .. => .appendAncient
  | truncate _ => .truncateAncients
  | sync => .sync
  | close => .close

/-- The parameters of a call, in the order of its method. -/
def params : Call → List Json
  | has c number => [.string c.name, .ofNat number]
  | read c number => [.string c.name, .ofNat number]
  | count => []
  | size c => [.string c.name]
  | append number record =>
    .ofNat number :: Category.all.map fun c => .string (Envelope.encode (record.get c))
  | truncate target => [.ofNat target]
  | sync => []
  | close => []

/-- A natural number as a result. -/
def readNumber (j : Json) : Except StoreError Reply :=
  match j.asNatural? with
  | some n => .ok (.number n.toNat)
  | none => .error (.protocol s!"expected an unsigned integer, got {j.text}")

/-- The answer that a result stands for. -/
def readReply (call : Call) (j : Json) : Except StoreError Reply :=
  match call with
  | has .. =>
    match j.asBool? with
    | some b => .ok (.truth b)
    | none => .error (.protocol s!"expected a bool, got {j.text}")
  | read .. =>
    match j.asString? with
    | some s => (Envelope.decode s).mapError Envelope.Defect.toError |>.map .blob
    | none => .error (.protocol s!"expected a hex string, got {j.text}")
  | count | size _ => readNumber j
  | append .. | truncate _ | sync | close => .ok .done

end Call

/-- An archive on the other side of a transport. -/
structure RemoteArchive (τ : Type) where
  transport : τ
  config : RemoteConfig
  nextId : UInt64
  /-- What the handshake has found. -/
  status : String
  closed : Bool

namespace RemoteArchive

variable {τ : Type} [Transport τ]

/-- The time that passes between the check of a call and the look at the time it has left. The
time of the caller is therefore never sent in full. -/
def lag : Duration := 1

/-- Makes a request and gives the result of its response. -/
def request (c : RemoteArchive τ) (now : Instant) (ctx : Context) (m : Method)
    (params : List Json) : Except StoreError Json × RemoteArchive τ :=
  let ctx := if ctx.deadline.isSome then ctx else ctx.boundedBy now c.config.defaultTimeout
  match ctx.check now with
  | .error e => (.error e, c)
  | .ok () =>
    let id := c.nextId
    let r := (Request.make id (m.qualified c.config.ns) params).withRemaining
      (ctx.remaining (now + lag))
    let (answer, transport) := Transport.exchange c.transport now ctx r
    let c := { c with nextId := id + 1, transport := transport }
    match answer with
    | .error e => (.error e, c)
    | .ok response =>
      match response.id with
      | none => (response.outcome, c)
      | some got =>
        if got = id then (response.outcome, c)
        else
          (.error (.protocol
            s!"response id Some({got.toNat}) does not match request {id.toNat}"), c)

/-- A failed handshake is a failure of the transport. -/
def handshakeError : StoreError → StoreError
  | .transport reason => .transport reason
  | e => .transport s!"handshake failed: {e.message}"

/-- The version that the peer has answered to the probe. -/
def versionOf (answer : Except StoreError Json) : Except StoreError String :=
  match answer with
  | .error e => .error e
  | .ok (.string version) => .ok version
  | .ok j => .error (.protocol s!"handshake returned {j.text}, expected a version string")

/-- The remote archive behind a transport, if the peer speaks the version in use, and the transport
as it is left. -/
def openOver (transport : τ) (config : RemoteConfig) (now : Instant) :
    Except StoreError (RemoteArchive τ) × τ :=
  let ctx := Context.background.withTimeout now config.connectTimeout
  let (answer, c) := request ⟨transport, config, 1, "", false⟩ now ctx .pingVersion []
  match versionOf answer with
  | .error e => (.error (handshakeError e), Transport.close c.transport now)
  | .ok version =>
    if version = protocol.version then
      (.ok { c with status := handshakeStatus version }, c.transport)
    else
      (.error (.versionMismatch protocol.version version), Transport.close c.transport now)

/-- The archive has not been closed, and neither has its transport. -/
def isConnected (c : RemoteArchive τ) : Bool := !c.closed && Transport.isConnected c.transport

/-- The answer to a call. The first close closes this side whatever becomes of the request. -/
def perform (c : RemoteArchive τ) (now : Instant) (ctx : Context) (call : Call) :
    Outcome × RemoteArchive τ :=
  match call with
  | .close =>
    if c.closed then (.ok .done, c)
    else
      let (answer, c) := request { c with closed := true } now ctx .close []
      (answer.map fun _ => .done, { c with transport := Transport.close c.transport now })
  | call =>
    if c.closed then (.error .closed, c)
    else
      let (answer, c) := c.request now ctx call.method call.params
      (answer.bind call.readReply, c)

instance : Archive (RemoteArchive τ) := ⟨perform⟩

end RemoteArchive

end ColdArchive
