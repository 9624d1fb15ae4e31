import ColdArchive.Json.Parser
import ColdArchive.Json.Schema
import ColdArchive.Error

/-!
The error object of a response, and the store errors that travel in it.

A typed error keeps its fields in `data` and is rebuilt from them; an error that only means
something on its own side travels as its wording.
-/

namespace ColdArchive

/-- An error object. -/
structure Fault where
  code : Int64
  message : String
  data : Option Json
  deriving Repr

namespace Fault

/-! ### Codes -/

def parseErrorCode : Int64 := -32700
def invalidRequestCode : Int64 := -32600
def methodNotFoundCode : Int64 := -32601
def invalidParamsCode : Int64 := -32602
def engineCode : Int64 := -32000
def notFoundCode : Int64 := -32001
def outOfOrderAppendCode : Int64 := -32002
def invalidTruncateTargetCode : Int64 := -32003
def malformedEnvelopeCode : Int64 := -32004
def unknownCategoryCode : Int64 := -32005
def closedCode : Int64 := -32006
def deadlineExceededCode : Int64 := -32007
def canceledCode : Int64 := -32008

/-! ### Construction -/

/-- An error object without data. -/
def plain (code : Int64) (message : String) : Fault := ⟨code, message, none⟩

/-- The line is no JSON. -/
def parseError (message : String) : Fault := plain parseErrorCode message

/-- The JSON is no request. -/
def invalidRequest (message : String) : Fault := plain invalidRequestCode message

def methodNotFound (name : String) : Fault :=
  plain methodNotFoundCode s!"the method {name} does not exist/is not available"

/-- The parameters are too many, too few or of the wrong type. -/
def invalidParams (message : String) : Fault := plain invalidParamsCode message

/-- A code that concerns the protocol and not the archive. -/
def isProtocolCode (code : Int64) : Bool :=
  code == parseErrorCode || code == invalidRequestCode || code == methodNotFoundCode
    || code == invalidParamsCode

/-! ### The wire -/

/-- The error object as JSON. -/
def toJson (f : Fault) : Json :=
  .object ([("code", .ofInt f.code.toInt), ("message", .string f.message)]
    ++ match f.data with
      | some data => [("data", data)]
      | none => [])

def schema : Schema where
  title := "RpcErrorObject"
  fields :=
    [⟨"code", .integer, false, false⟩, ⟨"message", .text, false, false⟩, ⟨"data", .any, true, true⟩]

def shape : Json.Shape :=
  .message [("code", .whole), ("message", .whole), ("data", .whole)]

/-- The error object that a value stands for. -/
def ofJson? (j : Json) : Option Fault :=
  match schema.read j with
  | .ok values => some ⟨integerAt values 0, textAt values 1, valueAt? values 2⟩
  | .error _ => none

def encode (f : Fault) : Bytes := f.toJson.encode

def decode? (bs : Bytes) : Option Fault := (Json.ofMessage? shape bs).bind ofJson?

/-! ### Store errors -/

def notFoundData : Schema where
  title := "NotFoundData"
  fields := [⟨"category", .text, false, false⟩, ⟨"number", .natural, false, false⟩,
    ⟨"frozen", .natural, false, false⟩]

def outOfOrderData : Schema where
  title := "OutOfOrderData"
  fields := [⟨"expected", .natural, false, false⟩, ⟨"got", .natural, false, false⟩]

def truncateData : Schema where
  title := "TruncateData"
  fields := [⟨"target", .natural, false, false⟩, ⟨"frozen", .natural, false, false⟩]

def reasonData : Schema where
  title := "ReasonData"
  fields := [⟨"reason", .text, false, false⟩]

/-- The members of a typed error, sorted by name. -/
def withData (code : Int64) (e : StoreError) (members : List (String × Json)) : Fault :=
  ⟨code, e.message, some (.object members)⟩

/-- The form in which a store error travels. -/
def ofError (e : StoreError) : Fault :=
  match e with
  | .notFound category number frozen =>
    withData notFoundCode e
      [("category", .string category.name), ("frozen", .ofNat frozen), ("number", .ofNat number)]
  | .outOfOrderAppend expected got =>
    withData outOfOrderAppendCode e [("expected", .ofNat expected), ("got", .ofNat got)]
  | .invalidTruncateTarget target frozen =>
    withData invalidTruncateTargetCode e [("frozen", .ofNat frozen), ("target", .ofNat target)]
  | .malformedEnvelope reason =>
    withData malformedEnvelopeCode e [("reason", .string reason)]
  | .unknownCategory name => withData unknownCategoryCode e [("reason", .string name)]
  | .closed => plain closedCode e.message
  | .deadlineExceeded => plain deadlineExceededCode e.message
  | .canceled => plain canceledCode e.message
  | .engine reason => plain engineCode reason
  | _ => plain engineCode e.message

/-- The values of the data of an error object, if it has the members of a schema. -/
def dataBy? (f : Fault) (s : Schema) : Option (List (Option Json)) :=
  (s.read (f.data.getD .null)).toOption

/-- The typed error of an error object, if its code has one and its data fit. -/
def typedError? (f : Fault) : Option StoreError :=
  if f.code = notFoundCode then do
    let values ← f.dataBy? notFoundData
    let category ← Category.ofName? (textAt values 0)
    return .notFound category (naturalAt values 1).toNat (naturalAt values 2).toNat
  else if f.code = outOfOrderAppendCode then
    (f.dataBy? outOfOrderData).map fun values =>
      .outOfOrderAppend (naturalAt values 0).toNat (naturalAt values 1).toNat
  else if f.code = invalidTruncateTargetCode then
    (f.dataBy? truncateData).map fun values =>
      .invalidTruncateTarget (naturalAt values 0).toNat (naturalAt values 1).toNat
  else if f.code = malformedEnvelopeCode then
    (f.dataBy? reasonData).map fun values => .malformedEnvelope (textAt values 0)
  else if f.code = unknownCategoryCode then
    (f.dataBy? reasonData).map fun values => .unknownCategory (textAt values 0)
  else if f.code = closedCode then some .closed
  else if f.code = deadlineExceededCode then some .deadlineExceeded
  else if f.code = canceledCode then some .canceled
  else if isProtocolCode f.code then
    some (.protocol s!"{f.message} (code {f.code.toInt})")
  else none

/-- The store error that an error object reports. -/
def toError (f : Fault) : StoreError := f.typedError?.getD (.engine f.message)

end Fault

end ColdArchive
