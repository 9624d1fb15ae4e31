import ColdArchive.Json.Wording
import ColdArchive.Message.Fault
import ColdArchive.Method

/-!
Responses, and their form on the wire.
-/

namespace ColdArchive

/-- A response. -/
structure Response where
  rpcVersion : String
  /-- The id of the request, unless the request was not understood. -/
  id : Option UInt64
  result : Option Json
  error : Option Fault
  deriving Repr

namespace Response

def success (id : UInt64) (result : Json) : Response :=
  ⟨protocol.rpcVersion, some id, some result, none⟩

def failure (id : Option UInt64) (error : Fault) (placeholder : Option Json) : Response :=
  ⟨protocol.rpcVersion, id, placeholder, some error⟩

def isError (r : Response) : Bool := r.error.isSome

/-- The outcome of the call. An error counts more than a result. -/
def outcome (r : Response) : Except StoreError Json :=
  match r.error with
  | some fault => .error fault.toError
  | none => .ok (r.result.getD .null)

/-- The response as JSON. -/
def toJson (r : Response) : Json :=
  let id := match r.id with
    | some n => Json.number (.natural n)
    | none => .null
  let result := match r.result with
    | some j => [("result", j)]
    | none => []
  let error := match r.error with
    | some fault => [("error", fault.toJson)]
    | none => []
  .object ([("jsonrpc", .string r.rpcVersion), ("id", id)] ++ result ++ error)

def schema : Schema where
  title := "RpcResponse"
  fields :=
    [⟨"jsonrpc", .text, false, false⟩, ⟨"id", .natural, true, false⟩, ⟨"result", .any, true, true⟩,
      ⟨"error", .any, true, true⟩]

def shape : Json.Shape :=
  .message [("jsonrpc", .whole), ("id", .whole), ("result", .whole), ("error", Fault.shape)]

/-- The response that a value stands for. -/
def ofJson? (j : Json) : Option Response :=
  match schema.read j with
  | .error _ => none
  | .ok values =>
    match valueAt? values 3 with
    | none => some ⟨textAt values 0, naturalAt? values 1, valueAt? values 2, none⟩
    | some e =>
      match Fault.ofJson? e with
      | some fault => some ⟨textAt values 0, naturalAt? values 1, valueAt? values 2, some fault⟩
      | none => none

def encode (r : Response) : Bytes := r.toJson.encode

/-- The response that the bytes are the text of; anything else breaks the protocol. -/
def decode [Json.Wording] (bs : Bytes) : Except StoreError Response :=
  match (Json.ofMessage? shape bs).bind ofJson? with
  | some r => .ok r
  | none => .error (.protocol s!"failed to decode response: {Json.Wording.noResponse bs}")

end Response

end ColdArchive
