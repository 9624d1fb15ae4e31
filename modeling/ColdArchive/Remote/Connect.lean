import ColdArchive.Remote.Archive
import ColdArchive.Remote.Stream

/-!
A remote archive behind an endpoint of the network.
-/

namespace ColdArchive

namespace RemoteArchive

variable [Json.Wording] {π : Type} [StreamPeer π]

/-- Makes a connection and the handshake. Gives the archive or the reason, and the transport as it
is left. -/
def connect (endpoint : String) (config : RemoteConfig) (now : Instant) (wire : Wire π) :
    Except StoreError (RemoteArchive (StreamTransport π)) × StreamTransport π :=
  match StreamTransport.connect endpoint config now wire with
  | (.error e, t) => (.error (handshakeError e), t)
  | (.ok (), t) => openOver t config now

/-- Lets the connections go. The archive on the other side stays as it is. -/
def release (c : RemoteArchive (StreamTransport π)) (now : Instant) : Wire π :=
  (c.transport.close now).wire

end RemoteArchive

end ColdArchive
