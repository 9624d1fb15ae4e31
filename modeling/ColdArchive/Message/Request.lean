import ColdArchive.Context
import ColdArchive.Json.Parser
import ColdArchive.Json.Schema
import ColdArchive.Method

/-!
Requests, and their form on the wire.
-/

namespace ColdArchive

/-- A request. -/
structure Request where
  rpcVersion : String
  id : UInt64
  method : String
  params : List Json
  /-- The milliseconds left before the caller gives up. -/
  deadlineMillis : Option UInt64
  deriving Repr

namespace Request

/-- A request of the protocol in use, without a time limit. -/
def make (id : UInt64) (method : String) (params : List Json) : Request :=
  ⟨protocol.rpcVersion, id, method, params, none⟩

/-- The greatest number of milliseconds that a request can carry. -/
def greatestMillis : Nat := wordLimit - 1

/-- The same request with the time its caller has left, in whole milliseconds. -/
def withRemaining (r : Request) (left : Option Duration) : Request :=
  { r with deadlineMillis := left.map fun d => UInt64.ofNat (min (Duration.millis d) greatestMillis) }

/-- The request as JSON. -/
def toJson (r : Request) : Json :=
  .object ([("jsonrpc", .string r.rpcVersion), ("id", .number (.natural r.id)),
      ("method", .string r.method), ("params", .array r.params)]
    ++ match r.deadlineMillis with
      | some n => [("deadline_ms", .number (.natural n))]
      | none => [])

def schema : Schema where
  title := "RpcRequest"
  fields :=
    [⟨"jsonrpc", .text, false, false⟩, ⟨"id", .natural, false, false⟩,
      ⟨"method", .text, false, false⟩, ⟨"params", .list, false, true⟩,
      ⟨"deadline_ms", .natural, true, true⟩]

def shape : Json.Shape :=
  .message [("jsonrpc", .whole), ("id", .whole), ("method", .whole), ("params", .whole),
    ("deadline_ms", .whole)]

/-- The request that a value stands for, or why there is none. -/
def ofJson (j : Json) : Except DecodeError Request :=
  match schema.read j with
  | .ok values =>
    .ok ⟨textAt values 0, naturalAt values 1, textAt values 2, listAt values 3,
      naturalAt? values 4⟩
  | .error e => .error e

def encode (r : Request) : Bytes := r.toJson.encode

def decode? (bs : Bytes) : Option Request :=
  (Json.ofMessage? shape bs).bind fun j => (ofJson j).toOption

end Request

end ColdArchive
