import ColdArchive.Message.Request
import ColdArchive.Message.Response
import ColdArchive.Service.Config
import ColdArchive.Service.WireCall

/-!
From a request line to a response.

A line always gets a response. The first of these that applies decides it: the line is no JSON, it
is no request, its version is not the one in use, its method is unknown, the number of parameters
is wrong, the request came too late or was given up, a parameter has the wrong type, the archive
refuses. The clock goes on meanwhile: it is read when the limits of a request are set, when the
service looks at them and when the archive does.
-/

namespace ColdArchive

/-- A served archive apart from its state. -/
structure Service where
  ns : String
  requestTimeout : Duration
  deriving DecidableEq, Repr

namespace Service

variable {σ : Type} [Archive σ]

def ofConfig (c : ServiceConfig) : Service := ⟨c.ns, c.requestTimeout⟩

/-- The time for a request: that of the service, or that of the caller if it is shorter. -/
def budgetFor (s : Service) (r : Request) : Duration :=
  match r.deadlineMillis with
  | some n => min s.requestTimeout (Duration.ofMillis n.toNat)
  | none => s.requestTimeout

/-- The limits of a request: the time for it and the token. -/
def contextFor (s : Service) (now : Instant) (token : Token) (r : Request) : Context :=
  (Context.background.withTimeout now (s.budgetFor r)).withToken token

/-- The answer to a method with parameters, or the error object. -/
def dispatch (now : Readings) (ctx : Context) (m : Method) (params : List Json) (a : σ) :
    Except Fault Json × σ :=
  if params.length ≠ m.arity then
    (.error (.invalidParams
      s!"{m.name} expects {m.arity} params, got {params.length}"), a)
  else
    match ctx.check now.checked with
    | .error e => (.error (.ofError e), a)
    | .ok () =>
      match WireCall.ofParams params m with
      | .error fault => (.error fault, a)
      | .ok call =>
        let (answer, a) := call.perform a now.performed ctx
        (answer.mapError Fault.ofError, a)

/-- The response to a request, and the archive after it. -/
def handleRequest (s : Service) (now : Readings) (token : Token) (r : Request) (a : σ) :
    Response × σ :=
  if r.rpcVersion ≠ protocol.rpcVersion then
    (.failure (some r.id)
      (.invalidRequest s!"unsupported jsonrpc version {Text.quoted r.rpcVersion}") none, a)
  else
    match Method.resolve? s.ns r.method with
    | none => (.failure (some r.id) (.methodNotFound r.method) none, a)
    | some m =>
      match dispatch now (s.contextFor now.started token r) m r.params a with
      | (.ok result, a) => (.success r.id result, a)
      | (.error fault, a) => (.failure (some r.id) fault m.placeholder?, a)

/-- The response to a line, and the archive after it. -/
def handleLine [Json.Wording] (s : Service) (now : Readings) (token : Token) (line : Bytes)
    (a : σ) : Response × σ :=
  match Json.ofBytes? line with
  | none => (.failure none (.parseError (Json.Wording.noText line)) none, a)
  | some j =>
    match Request.ofJson j with
    | .ok r => s.handleRequest now token r a
    | .error e =>
      (.failure ((j.member? "id").bind Json.asNatural?) (.invalidRequest e.message) none, a)

end Service

end ColdArchive
