import ColdArchive.Envelope
import ColdArchive.Json.Basic

/-!
The methods of the protocol and their names on the wire: a namespace, an underscore and the name
of the method.
-/

namespace ColdArchive

/-- A method that a served archive answers. -/
inductive Method where
  | close
  | pingVersion
  | hasAncient
  | ancient
  | ancients
  | ancientSize
  | appendAncient
  | truncateAncients
  | sync
  deriving DecidableEq, Repr

namespace Method

def all : List Method :=
  [close, pingVersion, hasAncient, ancient, ancients, ancientSize, appendAncient,
    truncateAncients, sync]

def name : Method → String
  | close => "close"
  | pingVersion => "pingVersion"
  | hasAncient => "hasAncient"
  | ancient => "ancient"
  | ancients => "ancients"
  | ancientSize => "ancientSize"
  | appendAncient => "appendAncient"
  | truncateAncients => "truncateAncients"
  | sync => "sync"

/-- The name on the wire. -/
def qualified (m : Method) (ns : String) : String := ns ++ "_" ++ m.name

/-- The text after a beginning, if it begins so. -/
def afterBeginning? (beginning text : String) : Option String :=
  if beginning.toList.isPrefixOf text.toList then
    some (String.ofList (text.toList.drop beginning.toList.length))
  else none

/-- The method that a name on the wire stands for in a namespace. -/
def resolve? (ns wireName : String) : Option Method :=
  match (afterBeginning? ns wireName).bind (afterBeginning? "_") with
  | some name => all.find? fun m => decide (m.name = name)
  | none => none

/-- The number of parameters. -/
def arity : Method → Nat
  | close | pingVersion | ancients | sync => 0
  | ancientSize | truncateAncients => 1
  | hasAncient | ancient => 2
  | appendAncient => 6

/-- The result that goes with an error. A failed `ancient` shows an empty blob to callers that look
at nothing but the result. -/
def placeholder? : Method → Option Json
  | ancient => some (.string Envelope.empty)
  | _ => none

end Method

/-- What the protocol fixes for both sides. -/
structure Protocol where
  /-- The version of the message format, carried by every message. -/
  rpcVersion : String
  /-- The version reported by the handshake. -/
  version : String
  /-- The namespace unless another one is chosen. -/
  defaultNamespace : String
  /-- The longest line that is accepted unless another limit is chosen. -/
  defaultFrameSize : Nat

/-- The protocol in use. -/
def protocol : Protocol := ⟨"2.0", "version 1", "freezer", 64 * 1024 * 1024⟩

/-- The status kept after a handshake. -/
def handshakeStatus (version : String) : String := s!"ok [version={version}]"

end ColdArchive
