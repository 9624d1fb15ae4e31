import ColdArchive.Message.Request
import ColdArchive.Message.Response
import ColdArchive.Service.Dispatch

/-!
How requests reach a service and responses come back, and the shortest way: a peer in the same
program. Requests and responses are encoded all the same.
-/

namespace ColdArchive

/-- A state that exchanges a request for a response. -/
class Transport (τ : Type) where
  exchange : τ → Instant → Context → Request → Except StoreError Response × τ
  isConnected : τ → Bool
  /-- Later exchanges fail. -/
  close : τ → Instant → τ

/-- A state that answers a request line. -/
class LinePeer (π : Type) where
  answer : π → Instant → Bytes → Bytes × π

/-- An archive behind a service. -/
structure Served (σ : Type) where
  service : Service
  archive : σ

instance [Json.Wording] {σ : Type} [Archive σ] : LinePeer (Served σ) where
  answer := fun s now line =>
    let (response, archive) := s.service.handleLine (.at now) Token.live line s.archive
    (response.encode, { s with archive := archive })

/-- A transport to a peer in the same program. -/
structure Loopback (π : Type) where
  peer : π
  connected : Bool

namespace Loopback

variable {π : Type} [LinePeer π]

/-- The transport to a peer. -/
def ofPeer (peer : π) : Loopback π := ⟨peer, true⟩

variable [Json.Wording]

/-- Hands the line of a request to the peer and reads its answer. -/
def exchange (t : Loopback π) (now : Instant) (ctx : Context) (r : Request) :
    Except StoreError Response × Loopback π :=
  match ctx.check now with
  | .error e => (.error e, t)
  | .ok () =>
    if t.connected then
      let (answer, peer) := LinePeer.answer t.peer now r.encode
      (Response.decode answer, { t with peer := peer })
    else (.error (.transport "loopback transport closed"), t)

instance : Transport (Loopback π) where
  exchange := exchange
  isConnected := connected
  close := fun t _ => { t with connected := false }

end Loopback

end ColdArchive
