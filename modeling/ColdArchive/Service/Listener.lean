import ColdArchive.Service.Connection

/-!
A listening service: a bound address and the connections made to it.

Only so many connections are served at a time. The others wait, and are taken up in the order in
which they came as soon as one of those before them is closed.

A request is handled to its end before anything else happens on its connection. That a peer goes away
in the middle of it, and that its token is fired then, is left out: which of both comes first is a
matter of timing. For the same reason a peer that goes away while it waits is not served.
-/

namespace ColdArchive

/-- A listening service apart from its archive. -/
structure Listener where
  service : Service
  address : SocketAddress
  maxConnections : Nat
  maxFrameSize : Nat
  /-- The connections by number, in the order in which they came. -/
  connections : List (Nat × Connection)
  deriving DecidableEq, Repr

/-- Bytes sent on connections, by their numbers. -/
abbrev Sent := List (Nat × Bytes)

/-- What is sent on a connection, before what is sent on others. -/
def Sent.cons (id : Nat) (bytes : Bytes) (others : Sent) : Sent :=
  if bytes = [] then others else (id, bytes) :: others

namespace Listener

variable {σ : Type}

/-- The greatest number of connections that can be counted. -/
def greatestLimit : Nat := 2305843009213693951

/-- Realigns the archive and takes the address of the settings; `claim` says which address that
is, or why it cannot be had. Settings that cannot be served are refused before anything is done. -/
def bind [Engine σ] (c : ServiceConfig) (claim : SocketAddress → Except IoFailure SocketAddress)
    (a : σ) : Except ServiceError Listener × σ :=
  match c.validate with
  | .error e => (.error e, a)
  | .ok () =>
    match Engine.repair a with
    | (.error e, a) => (.error (.engine e), a)
    | (.ok _, a) =>
      match claim c.bind with
      | .error cause => (.error (.bind c.bind cause), a)
      | .ok address =>
        if greatestLimit < c.maxConnections then (.error (.uncountable greatestLimit), a)
        else (.ok ⟨.ofConfig c, address, c.maxConnections, c.maxFrameSize, []⟩, a)

variable [Archive σ] [Json.Wording]

/-- The connection of a number, closed if there is none. -/
def connection (l : Listener) (id : Nat) : Connection := (l.connections.lookup id).getD .closed

def set (l : Listener) (id : Nat) (c : Connection) : Listener :=
  { l with connections := l.connections.map fun (n, old) => (n, if n = id then c else old) }

/-- The number of connections that are served. -/
def serving (l : Listener) : Nat := (l.connections.filter fun (_, c) => c.isServing).length

/-- Takes up waiting connections while less than the limit are served, `busy` of them now. -/
def takeUpAll (l : Listener) (now : Instant) (busy : Nat) :
    List (Nat × Connection) → σ → Sent × List (Nat × Connection) × σ
  | [], a => ([], [], a)
  | (id, .waiting unread) :: rest, a =>
    if busy < l.maxConnections then
      let (bytes, c, a) := l.service.serve l.maxFrameSize now Token.live false unread a
      let (sent, rest, a) := l.takeUpAll now (if c.isServing then busy + 1 else busy) rest a
      ((id, bytes) :: sent, (id, c) :: rest, a)
    else
      let (sent, rest, a) := l.takeUpAll now busy rest a
      (sent, (id, .waiting unread) :: rest, a)
  | (id, c) :: rest, a =>
    let (sent, rest, a) := l.takeUpAll now busy rest a
    (sent, (id, c) :: rest, a)

/-- Takes up what can be taken up. -/
def takeUp (l : Listener) (now : Instant) (a : σ) : Sent × Listener × σ :=
  let (sent, connections, a) := l.takeUpAll now l.serving l.connections a
  (sent, { l with connections := connections }, a)

/-- A new connection. -/
def connect (l : Listener) (now : Instant) (id : Nat) (a : σ) : Sent × Listener × σ :=
  let l := { l with connections := l.connections ++ [(id, Connection.waiting [])] }
  l.takeUp now a

/-- Serves a connection the bytes that it has, and takes up others if that ends it; `ended` says
that no more will come on it. -/
def proceed (l : Listener) (now : Instant) (id : Nat) (ended : Bool) (arrived : Bytes) (a : σ) :
    Sent × Listener × σ :=
  let (sent, c, a) := l.service.serve l.maxFrameSize now Token.live ended arrived a
  let (others, l, a) := (l.set id c).takeUp now a
  (Sent.cons id sent others, l, a)

/-- Bytes arrive on a connection. -/
def deliver (l : Listener) (now : Instant) (id : Nat) (bytes : Bytes) (a : σ) :
    Sent × Listener × σ :=
  match l.connection id with
  | .closed => ([], l, a)
  | .waiting unread => ([], l.set id (.waiting (unread ++ bytes)), a)
  | .serving unread => l.proceed now id false (unread ++ bytes) a

/-- The peer of a connection goes away. A connection that waits is not taken up any more. -/
def hangUp (l : Listener) (now : Instant) (id : Nat) (a : σ) : Sent × Listener × σ :=
  match l.connection id with
  | .closed => ([], l, a)
  | .waiting _ => ([], l.set id .closed, a)
  | .serving unread => l.proceed now id true unread a

/-- All connections are closed, and no other is taken up. -/
def shutDown (l : Listener) : Listener := { l with connections := [], maxConnections := 0 }

end Listener

end ColdArchive
