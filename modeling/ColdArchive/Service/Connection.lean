import ColdArchive.Frame
import ColdArchive.Service.Dispatch

/-!
A connection to a service: frames come in, and a response goes out for each, in the same order.

All that a connection keeps between two arrivals is the bytes that do not make a frame yet. A line
that is too long cannot be skipped, so it is answered once and ends the connection. A connection whose
reader stops ends as well, and the others go on.
-/

namespace ColdArchive

/-- A connection, as the service sees it. -/
inductive Connection where
  /-- Not taken up yet, with the bytes that have come so far. -/
  | waiting (unread : Bytes)
  /-- Taken up, with the bytes that make no frame yet. -/
  | serving (unread : Bytes)
  | closed
  deriving DecidableEq, Repr

namespace Connection

/-- The bytes that have come and have not been looked at. -/
def unread : Connection → Bytes
  | waiting bs | serving bs => bs
  | closed => []

def isServing : Connection → Bool
  | serving _ => true
  | _ => false

end Connection

namespace Service

variable [Json.Wording] {σ : Type} [Archive σ]

/-- The bytes sent for a frame, and the archive after it. An empty frame gets no response. -/
def answerFrame (s : Service) (now : Instant) (token : Token) (frame : Bytes) (a : σ) :
    Bytes × σ :=
  if frame = [] then ([], a)
  else
    let (response, a) := s.handleLine (.at now) token frame a
    (Frame.encode response.encode, a)

/-- The response to a frame of more than `limit` bytes. -/
def tooLongResponse (limit : Nat) : Response :=
  .failure none (.invalidRequest (Frame.tooLongText limit)) none

/-- Answers the frames among the bytes that have arrived; `ended` says that no more will come.
Gives the bytes sent, the connection and the archive after it. -/
def serve (s : Service) (limit : Nat) (now : Instant) (token : Token) (ended : Bool)
    (arrived : Bytes) (a : σ) : Bytes × Connection × σ :=
  if !ended && !Frame.isReady limit arrived then ([], .serving arrived, a)
  else
    match h : Frame.read limit arrived with
    | (.frame frame, rest) =>
      have : rest.length < arrived.length := Frame.length_lt_of_read h
      let (sent, a) := s.answerFrame now token frame a
      let (more, connection, a) := s.serve limit now token ended rest a
      (sent ++ more, connection, a)
    | (.tooLong, _) => (Frame.encode (tooLongResponse limit).encode, .closed, a)
    | (.finished, _) => ([], .closed, a)
    | (.torn, _) => ([], .closed, a)
    | (.uncountable, _) => ([], .closed, a)
  termination_by arrived.length

end Service

end ColdArchive
