import ColdArchive.Context
import ColdArchive.Method
import ColdArchive.Service.Address

/-!
The settings of a service, and why it can fail to start.
-/

namespace ColdArchive

/-- The settings of a service. -/
structure ServiceConfig where
  bind : SocketAddress
  ns : String
  maxConnections : Nat
  /-- The longest request line, in bytes. -/
  maxFrameSize : Nat
  /-- The longest time a request may take. -/
  requestTimeout : Duration
  deriving DecidableEq, Repr

/-- Why a service does not start. -/
inductive ServiceError where
  | invalidConfig (reason : String)
  | bind (address : SocketAddress) (cause : IoFailure)
  | engine (cause : StoreError)
  /-- More connections are allowed than can be counted. -/
  | uncountable (limit : Nat)
  deriving DecidableEq, Repr

namespace ServiceError

def message : ServiceError → String
  | invalidConfig reason => s!"invalid configuration: {reason}"
  | bind address cause => s!"failed to bind {address.text}: {cause.message}"
  | engine cause => s!"engine error: {cause.message}"
  | uncountable limit => s!"no more than {limit} connections can be counted"

def kind : ServiceError → String
  | invalidConfig _ => "InvalidConfig"
  | bind .. => "Bind"
  | engine _ => "Engine"
  | uncountable _ => "Uncountable"

end ServiceError

namespace ServiceConfig

/-- The settings unless others are chosen. -/
def default : ServiceConfig where
  bind := .v4 [127, 0, 0, 1] 8545
  ns := protocol.defaultNamespace
  maxConnections := 256
  maxFrameSize := protocol.defaultFrameSize
  requestTimeout := Duration.ofSeconds 30

/-- Refuses settings that cannot be served. -/
def validate (c : ServiceConfig) : Except ServiceError Unit :=
  if c.ns = "" then .error (.invalidConfig "namespace must not be empty")
  else if c.maxConnections = 0 then .error (.invalidConfig "max_connections must be at least 1")
  else if c.maxFrameSize = 0 then .error (.invalidConfig "max_frame_size must be at least 1")
  else .ok ()

end ServiceConfig

end ColdArchive
