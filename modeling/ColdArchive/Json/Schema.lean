import ColdArchive.Json.Printer
import ColdArchive.Text.Quoted

/-!
Messages as JSON: which members a message has, what each may be, and why a value is no such
message.

A message is an object, or an array of its members in order. Members are looked at in the order
in which they were met, so the first bad one is reported; a missing one is reported after that.
Members that the schema does not have are passed over.
-/

namespace ColdArchive

/-- What a member may be. -/
inductive Kind where
  | text
  | natural
  | integer
  | list
  | any
  deriving DecidableEq, Repr

/-- A member of a message. -/
structure Field where
  name : String
  kind : Kind
  /-- The member may be null, which is as good as absent. -/
  nullable : Bool
  /-- The member may be left out of an array too. -/
  defaulted : Bool
  deriving DecidableEq, Repr

/-- The members of a message. -/
structure Schema where
  title : String
  fields : List Field
  deriving DecidableEq, Repr

/-- Why a value is no message of a schema. -/
inductive DecodeError where
  | missingField (name : String)
  | duplicateField (name : String)
  | invalidType (found : Json) (expected : String)
  | invalidValue (found : Json) (expected : String)
  /-- An array of that many items. -/
  | invalidLength (length : Nat) (expected : String)
  deriving Repr

/-- What a value is, in a message about it. -/
def Json.described : Json → String
  | .null => "null"
  | .bool b =>
    let word := if b then "true" else "false"
    s!"boolean `{word}`"
  | .number (.float x) => s!"floating point `{(Number.float x).text}`"
  | .number n => s!"integer `{n.text}`"
  | .string s => s!"string {Text.quoted s}"
  | .array _ => "sequence"
  | .object _ => "map"

def DecodeError.message : DecodeError → String
  | missingField name => s!"missing field `{name}`"
  | duplicateField name => s!"duplicate field `{name}`"
  | invalidType found expected => s!"invalid type: {found.described}, expected {expected}"
  | invalidValue found expected => s!"invalid value: {found.described}, expected {expected}"
  | invalidLength length expected => s!"invalid length {length}, expected {expected}"

namespace Kind

/-- What is expected of a member, in a message about it. -/
def expected : Kind → String
  | text => "a string"
  | natural => "u64"
  | integer => "i64"
  | list => "a sequence"
  | any => "any value"

/-- Accepts the values of a kind. -/
def check (kind : Kind) (j : Json) : Except DecodeError Unit :=
  let wrongType : Except DecodeError Unit := .error (.invalidType j kind.expected)
  let wrongValue : Except DecodeError Unit := .error (.invalidValue j kind.expected)
  match kind with
  | any => .ok ()
  | text => if j.asString?.isSome then .ok () else wrongType
  | list => if j.asArray?.isSome then .ok () else wrongType
  | natural =>
    match j with
    | .number (.natural _) => .ok ()
    | .number (.negative _) => wrongValue
    | _ => wrongType
  | integer =>
    match j with
    | .number (.float _) => wrongType
    | .number _ => if j.asInteger?.isSome then .ok () else wrongValue
    | _ => wrongType

end Kind

namespace Field

/-- Accepts the values of a member. -/
def check (f : Field) (j : Json) : Except DecodeError Unit :=
  match f.nullable, j with
  | true, .null => .ok ()
  | _, j => f.kind.check j

/-- The value of a member; a null that is allowed is no value. -/
def value? (f : Field) (j : Option Json) : Option Json :=
  match f.nullable, j with
  | true, some .null => none
  | _, j => j

end Field

namespace Schema

/-- Accepts the members of an object, in the order in which they stand there. -/
def checkMembers (fields : List Field) (seen : List String) :
    List (String × Json) → Except DecodeError Unit
  | [] => .ok ()
  | (name, j) :: rest =>
    match fields.find? fun f => f.name = name with
    | none => checkMembers fields seen rest
    | some f =>
      if name ∈ seen then .error (.duplicateField name)
      else
        match f.check j with
        | .ok () => checkMembers fields (name :: seen) rest
        | .error e => .error e

/-- The first member that an object lacks. -/
def firstMissing? (fields : List Field) (members : List (String × Json)) : Option String :=
  (fields.find? fun f =>
    !f.defaulted && !f.nullable && (members.lookup f.name).isNone).map Field.name

/-- Accepts the items of an array as the members of a message, from position `n` on. -/
def checkItems (s : Schema) (n : Nat) : List Field → List Json → Except DecodeError Unit
  | [], [] => .ok ()
  | [], more => .error (.invalidLength (n + more.length) "fewer elements in array")
  | f :: fields, [] =>
    if f.defaulted then checkItems s (n + 1) fields []
    else .error (.invalidLength n s!"struct {s.title} with {s.fields.length} elements")
  | f :: fields, j :: items =>
    match f.check j with
    | .ok () => checkItems s (n + 1) fields items
    | .error e => .error e

/-- The values of the members of a message, in the order of the schema. -/
def read (s : Schema) (j : Json) : Except DecodeError (List (Option Json)) :=
  match j with
  | .object members =>
    match checkMembers s.fields [] members with
    | .error e => .error e
    | .ok () =>
      match firstMissing? s.fields members with
      | some name => .error (.missingField name)
      | none => .ok (s.fields.map fun f => f.value? (members.lookup f.name))
  | .array items =>
    match checkItems s 0 s.fields items with
    | .error e => .error e
    | .ok () => .ok (s.fields.zipIdx.map fun (f, n) => f.value? items[n]?)
  | other => .error (.invalidType other s!"struct {s.title}")

end Schema

/-- The text at a position of the values of a message. -/
def textAt (values : List (Option Json)) (n : Nat) : String :=
  ((values[n]?.join).bind Json.asString?).getD ""

def naturalAt? (values : List (Option Json)) (n : Nat) : Option UInt64 :=
  (values[n]?.join).bind Json.asNatural?

def naturalAt (values : List (Option Json)) (n : Nat) : UInt64 := (naturalAt? values n).getD 0

def integerAt (values : List (Option Json)) (n : Nat) : Int64 :=
  ((values[n]?.join).bind Json.asInteger?).getD 0

def listAt (values : List (Option Json)) (n : Nat) : List Json :=
  ((values[n]?.join).bind Json.asArray?).getD []

def valueAt? (values : List (Option Json)) (n : Nat) : Option Json := values[n]?.join

end ColdArchive
