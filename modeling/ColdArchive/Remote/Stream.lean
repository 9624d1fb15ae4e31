import ColdArchive.Remote.Config
import ColdArchive.Remote.Pool
import ColdArchive.Remote.Transport
import ColdArchive.Service.Listener

/-!
A transport over connections that carry a stream of bytes.

The wire is what lies between both sides: the connections made so far and the bytes that have come
back on each and were not read yet. A call takes a connection out of the pool or makes a new one,
and gives it back only after it has read a whole response from it; after any failure the
connection is let go.
-/

namespace ColdArchive

/-- A peer at the other end of a wire. Every operation gives the bytes it sends. -/
class StreamPeer (π : Type) where
  connect : π → Instant → Nat → Sent × π
  receive : π → Instant → Nat → Bytes → Sent × π
  hangUp : π → Instant → Nat → Sent × π
  /-- The peer has closed that connection. -/
  hasClosed : π → Nat → Bool

instance [Json.Wording] {σ : Type} [Archive σ] : StreamPeer (Listener × σ) where
  connect := fun (l, a) now id => l.connect now id a
  receive := fun (l, a) now id bytes => l.deliver now id bytes a
  hangUp := fun (l, a) now id => l.hangUp now id a
  hasClosed := fun (l, _) id => l.connection id == .closed

/-- A peer that takes everything and says nothing. -/
instance : StreamPeer Unit where
  connect := fun _ _ _ => ([], ())
  receive := fun _ _ _ _ => ([], ())
  hangUp := fun _ _ _ => ([], ())
  hasClosed := fun _ _ => false

/-- What connections can be made to. -/
inductive Network where
  /-- The peer can be reached. -/
  | reachable
  /-- Nothing can be reached. -/
  | isolated
  deriving DecidableEq, Repr

/-- The way to a peer. -/
structure Wire (π : Type) where
  network : Network
  peer : π
  /-- The number of connections made so far; it numbers the next one. -/
  dialed : Nat
  /-- The bytes that have come on each connection and were not read. -/
  inboxes : List (Nat × Bytes)

namespace Wire

variable {π : Type}

/-- The way to a peer before any connection. -/
def ofPeer (network : Network) (peer : π) : Wire π := ⟨network, peer, 0, []⟩

def inbox (w : Wire π) (id : Nat) : Bytes := (w.inboxes.lookup id).getD []

/-- Bytes come on connections. -/
def arrive (w : Wire π) (sent : Sent) : Wire π :=
  { w with inboxes := sent.foldl (fun boxes (id, bytes) =>
      boxes.map fun (n, box) => (n, if n = id then box ++ bytes else box)) w.inboxes }

variable [StreamPeer π]

/-- Makes a connection, if the network lets it. -/
def dial (w : Wire π) (now : Instant) : Option Nat × Wire π :=
  match w.network with
  | .isolated => (none, w)
  | .reachable =>
    let id := w.dialed
    let (sent, peer) := StreamPeer.connect w.peer now id
    let w := { w with peer := peer, dialed := id + 1, inboxes := (id, []) :: w.inboxes }
    (some id, w.arrive sent)

/-- Sends bytes on a connection. They are lost if the peer has closed it. -/
def send (w : Wire π) (now : Instant) (id : Nat) (bytes : Bytes) : Wire π :=
  if StreamPeer.hasClosed w.peer id then w
  else
    let (sent, peer) := StreamPeer.receive w.peer now id bytes
    { w with peer := peer }.arrive sent

/-- Reads a frame from a connection; none if it has not come and can still come. -/
def receive? (w : Wire π) (limit : Nat) (id : Nat) : Option (Frame.Found × Wire π) :=
  if StreamPeer.hasClosed w.peer id || Frame.isReady limit (w.inbox id) then
    let (found, rest) := Frame.read limit (w.inbox id)
    some (found,
      { w with inboxes := w.inboxes.map fun (n, box) => (n, if n = id then rest else box) })
  else none

/-- Lets a connection go. What it has not read is lost. -/
def hangUp (w : Wire π) (now : Instant) (id : Nat) : Wire π :=
  let (sent, peer) := StreamPeer.hangUp w.peer now id
  let w := { w with peer := peer, inboxes := w.inboxes.filter fun (n, _) => n ≠ id }
  w.arrive sent

end Wire

/-- A transport over a wire. -/
structure StreamTransport (π : Type) where
  endpoint : String
  maxFrameSize : Nat
  pool : Pool Nat
  wire : Wire π

namespace StreamTransport

variable {π : Type} [StreamPeer π]

/-- A new connection. -/
def dial (t : StreamTransport π) (now : Instant) : Except StoreError Nat × StreamTransport π :=
  let failed (cause : String) : StoreError :=
    .transport s!"failed to dial {t.endpoint}: {cause}"
  match SocketAddress.dialRefusal? t.endpoint with
  | some cause => (.error (failed cause), t)
  | none =>
    match t.wire.dial now with
    | (some id, wire) => (.ok id, { t with wire := wire })
    | (none, wire) =>
      (.error (failed (SocketAddress.isolation t.endpoint).message), { t with wire := wire })

/-- A connection from the pool, or a new one. -/
def checkOut (t : StreamTransport π) (now : Instant) :
    Except StoreError Nat × StreamTransport π :=
  match t.pool.checkOut with
  | (some id, pool) => (.ok id, { t with pool := pool })
  | (none, _) => t.dial now

/-- Lets a connection go. -/
def discard (t : StreamTransport π) (now : Instant) (id : Nat) : StreamTransport π :=
  { t with wire := t.wire.hangUp now id }

/-- Gives a connection back to the pool. -/
def checkIn (t : StreamTransport π) (now : Instant) (id : Nat) : StreamTransport π :=
  if t.pool.hasRoom then { t with pool := t.pool.checkIn id } else t.discard now id

/-- The transport to an endpoint, if a first connection can be made. -/
def connect (endpoint : String) (c : RemoteConfig) (now : Instant) (wire : Wire π) :
    Except StoreError Unit × StreamTransport π :=
  let t : StreamTransport π := ⟨endpoint, c.maxFrameSize, Pool.empty c.maxIdle, wire⟩
  match t.dial now with
  | (.error e, t) => (.error e, t)
  | (.ok id, t) => (.ok (), t.checkIn now id)

variable [Json.Wording]

/-- The response that a call has found, or why there is none. A read that stops the program stands as
a failure of the exchange, with what stops it as the cause. -/
def responseOf (t : StreamTransport π) : Frame.Found → Except StoreError Response
  | .frame bytes => Response.decode bytes
  | .finished => .error (.transport s!"connection to {t.endpoint} closed by server")
  | found =>
    let cause := (found.failure? t.maxFrameSize).getD ""
    .error (.transport s!"exchange with {t.endpoint} failed: {cause}")

/-- Sends a request on a connection and waits for the response. -/
def converse (t : StreamTransport π) (now : Instant) (ctx : Context) (r : Request) (id : Nat) :
    Except StoreError Response × StreamTransport π :=
  let t := { t with wire := t.wire.send now id (Frame.encode r.encode) }
  match t.wire.receive? t.maxFrameSize id with
  | none => (.error ctx.endOfWait, t.discard now id)
  | some (found, wire) =>
    let t := { t with wire := wire }
    match t.responseOf found with
    | .ok response => (.ok response, t.checkIn now id)
    | .error e => (.error e, t.discard now id)

/-- Exchanges a request for a response on one connection. -/
def exchange (t : StreamTransport π) (now : Instant) (ctx : Context) (r : Request) :
    Except StoreError Response × StreamTransport π :=
  match ctx.check now with
  | .error e => (.error e, t)
  | .ok () =>
    if t.pool.closed then (.error (.transport "transport closed"), t)
    else
      match t.checkOut now with
      | (.error e, t) => (.error e, t)
      | (.ok id, t) => t.converse now ctx r id

/-- Lets every idle connection go. -/
def close (t : StreamTransport π) (now : Instant) : StreamTransport π :=
  { t with
    pool := t.pool.close
    wire := t.pool.idle.foldl (fun wire id => wire.hangUp now id) t.wire }

instance : Transport (StreamTransport π) where
  exchange := exchange
  isConnected := fun t => !t.pool.closed
  close := close

end StreamTransport

end ColdArchive
