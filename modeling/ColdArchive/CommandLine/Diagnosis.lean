import ColdArchive.Service.Config
import ColdArchive.Text.Quoted

/-!
Errors as the program reports them: the name of the cause and its fields, texts in quotes.
-/

namespace ColdArchive

/-- Fields in braces behind a name. -/
def diagnosis (name : String) (fields : List (String × String)) : String :=
  name ++ " \x7b " ++ ", ".intercalate (fields.map fun f => f.1 ++ ": " ++ f.2) ++ " \x7d"

def IoFailure.diagnosis (e : IoFailure) : String :=
  match e.system with
  | some (code, kind, text) =>
    ColdArchive.diagnosis "Os"
      [("code", toString code), ("kind", kind), ("message", Text.quoted text)]
  | none =>
    ColdArchive.diagnosis "Error"
      [("kind", e.own.1), ("message", Text.quoted e.own.2)]

def StoreError.diagnosis (e : StoreError) : String :=
  let fields := ColdArchive.diagnosis e.kind
  let one (s : String) : String := e.kind ++ "(" ++ s ++ ")"
  match e with
  | notFound category number frozen =>
    fields [("category", category.title), ("number", toString number),
      ("frozen", toString frozen)]
  | outOfOrderAppend expected got =>
    fields [("expected", toString expected), ("got", toString got)]
  | invalidTruncateTarget target frozen =>
    fields [("target", toString target), ("frozen", toString frozen)]
  | versionMismatch own remote =>
    fields [("local", Text.quoted own), ("remote", Text.quoted remote)]
  | malformedEnvelope s | unknownCategory s | locked s | transport s | protocol s | corrupted s
  | engine s => one (Text.quoted s)
  | io cause => one cause.diagnosis
  | closed | canceled | deadlineExceeded => e.kind

def ServiceError.diagnosis (e : ServiceError) : String :=
  match e with
  | invalidConfig reason => e.kind ++ "(" ++ Text.quoted reason ++ ")"
  | bind address cause =>
    ColdArchive.diagnosis e.kind [("addr", address.text), ("source", cause.diagnosis)]
  | engine cause => e.kind ++ "(" ++ cause.diagnosis ++ ")"
  | uncountable limit => e.kind ++ "(" ++ toString limit ++ ")"

end ColdArchive
