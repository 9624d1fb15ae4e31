import ColdArchive.Context
import ColdArchive.Method

/-!
The settings of a remote archive.
-/

namespace ColdArchive

/-- The settings of a remote archive. -/
structure RemoteConfig where
  /-- The namespace of the methods, which must be the one of the service. -/
  ns : String
  /-- The time for making the connection and for the handshake. -/
  connectTimeout : Duration
  /-- The time for a call whose context has no deadline. -/
  defaultTimeout : Duration
  /-- The longest response line, in bytes. -/
  maxFrameSize : Nat
  /-- The greatest number of idle connections. -/
  maxIdle : Nat
  deriving DecidableEq, Repr

/-- The settings unless others are chosen. -/
def RemoteConfig.default : RemoteConfig where
  ns := protocol.defaultNamespace
  connectTimeout := Duration.ofSeconds 5
  defaultTimeout := Duration.ofSeconds 30
  maxFrameSize := protocol.defaultFrameSize
  maxIdle := 4

end ColdArchive
