import ColdArchive.Error

/-!
Addresses of sockets: their text, four or eight parts and a port, and which of them can be claimed.
-/

namespace ColdArchive

/-- The address of a socket. -/
inductive SocketAddress where
  | v4 (octets : List Nat) (port : Nat)
  | v6 (segments : List Nat) (scope : Nat) (port : Nat)
  deriving DecidableEq, Repr

namespace SocketAddress

/-- The number written by digits of a base, if it is at most `limit`. -/
def number? (base limit : Nat) (s : String) : Option Nat :=
  let digit? (c : Char) : Option Nat :=
    let n :=
      if '0' ≤ c ∧ c ≤ '9' then c.toNat - '0'.toNat
      else if 'a' ≤ c ∧ c ≤ 'f' then c.toNat - 'a'.toNat + 10
      else if 'A' ≤ c ∧ c ≤ 'F' then c.toNat - 'A'.toNat + 10
      else base
    if n < base then some n else none
  match s.toList.mapM digit? with
  | none => none
  | some [] => none
  | some ds =>
    let n := ds.foldl (fun n d => n * base + d) 0
    if n ≤ limit then some n else none

def port? (s : String) : Option Nat := number? 10 65535 s

/-- One of four parts: at most three digits, without needless zeros. -/
def octet? (s : String) : Option Nat :=
  if s.length ≤ 3 ∧ (s = "0" ∨ s.toList.head? ≠ some '0') then number? 10 255 s else none

/-- Four parts with points between them. -/
def octets? (s : String) : Option (List Nat) :=
  match s.splitOn "." with
  | [a, b, c, d] => [a, b, c, d].mapM octet?
  | _ => none

/-- One of eight parts. -/
def segment? (s : String) : Option Nat := if s.length ≤ 4 then number? 16 65535 s else none

/-- Parts with colons between them. -/
def segments? (s : String) : Option (List Nat) :=
  if s = "" then some [] else (s.splitOn ":").mapM segment?

/-- Parts with colons between them at the end of an address: the last may be four octets, which
make two parts. -/
def lastSegments? (s : String) : Option (List Nat) :=
  let parts := s.splitOn ":"
  match parts.getLast?.bind octets? with
  | some [a, b, c, d] =>
    (parts.dropLast.mapM segment?).map fun front => front ++ [a * 256 + b, c * 256 + d]
  | _ => segments? s

/-- Eight parts; two colons stand for the zeros that are left out. -/
def eight? (s : String) : Option (List Nat) :=
  match s.splitOn "::" with
  | [whole] =>
    match lastSegments? whole with
    | some found => if found.length = 8 then some found else none
    | none => none
  | [front, back] =>
    match segments? front, lastSegments? back with
    | some f, some b =>
      if f.length + b.length ≤ 7 then
        some (f ++ List.replicate (8 - f.length - b.length) 0 ++ b)
      else none
    | _, _ => none
  | _ => none

/-- The text after the last occurrence of a character, and the text before it. -/
def splitLast? (mark : Char) (s : String) : Option (String × String) :=
  let back := s.toList.reverse
  match back.dropWhile fun c => c ≠ mark with
  | [] => none
  | _ :: front =>
    some (String.ofList front.reverse, String.ofList (back.takeWhile fun c => c ≠ mark).reverse)

/-- The address a text stands for. -/
def ofText? (s : String) : Option SocketAddress := do
  let (host, portText) ← splitLast? ':' s
  let port ← port? portText
  match host.toList with
  | '[' :: rest =>
    if rest.getLast? ≠ some ']' then none
    else
      let inner := String.ofList rest.dropLast
      match inner.splitOn "%" with
      | [address] => return v6 (← eight? address) 0 port
      | [address, scope] => return v6 (← eight? address) (← number? 10 4294967295 scope) port
      | _ => none
  | _ => return v4 (← octets? host) port

/-- Why nothing can be dialed under a text: it is no address, and no name of a host with a port behind
it. The system takes a zero character for the end of a name, so no name has one. -/
def dialRefusal? (s : String) : Option String :=
  if (ofText? s).isSome then none
  else
    match splitLast? ':' s with
    | none => some "invalid socket address"
    | some (host, portText) =>
      let digits := match portText.toList with
        | '+' :: rest => String.ofList rest
        | _ => portText
      if (port? digits).isNone then some "invalid port value"
      else if host.toList.contains '\x00' then some IoFailure.nulInName.message
      else none

/-- Why dialing a text fails that could be dialed, on a host without a network. The address of a
name is asked for first. -/
def isolation (s : String) : IoFailure :=
  if (ofText? s).isSome then .networkUnreachable
  else .other "failed to lookup address information: Temporary failure in name resolution"

/-- Four parts as text. -/
def octetsText (octets : List Nat) : String := ".".intercalate (octets.map toString)

/-- Parts as text, in hexadecimal digits. -/
def segmentsText (segments : List Nat) : String :=
  ":".intercalate (segments.map fun n => String.ofList (Nat.toDigits 16 n))

/-- The number of zeros at the front of a list. -/
def zeros (ns : List Nat) : Nat := (ns.takeWhile (· = 0)).length

/-- The start and length of the longest run of zeros, the first of them. -/
def longestZeros (ns : List Nat) : Nat × Nat :=
  (List.range ns.length).foldl (fun (start, length) n =>
    let found := zeros (ns.drop n)
    if length < found then (n, found) else (start, length)) (0, 0)

/-- Eight parts as text, with two colons for the longest run of zeros. -/
def eightText (segments : List Nat) : String :=
  match segments with
  | [0, 0, 0, 0, 0, 65535, a, b] =>
    "::ffff:" ++ octetsText [a / 256, a % 256, b / 256, b % 256]
  | _ =>
    let (start, length) := longestZeros segments
    if 1 < length then
      segmentsText (segments.take start) ++ "::" ++ segmentsText (segments.drop (start + length))
    else segmentsText segments

def text : SocketAddress → String
  | v4 octets port => octetsText octets ++ ":" ++ toString port
  | v6 segments scope port =>
    let mark := if scope = 0 then "" else "%" ++ toString scope
    "[" ++ eightText segments ++ mark ++ "]:" ++ toString port

def port : SocketAddress → Nat
  | v4 _ port => port
  | v6 _ _ port => port

/-- The address stands for all addresses of a host. -/
def isWildcard : SocketAddress → Bool
  | v4 octets _ => octets.all (· = 0)
  | v6 segments _ _ => segments.all (· = 0)

/-- The address leads back to the host itself. -/
def isLoopback : SocketAddress → Bool
  | v4 octets _ => octets.head? = some 127
  | v6 segments _ _ => segments = [0, 0, 0, 0, 0, 0, 0, 1]

/-- No two sockets can listen at both addresses. Port 0 stands for any free port. -/
def conflicts (a b : SocketAddress) : Bool :=
  a.port ≠ 0 && a.port = b.port && (a = b || a.isWildcard || b.isWildcard)

/-- Claims an address on a host that has no addresses but its own, beside those that are taken. -/
def claim (taken : List SocketAddress) (a : SocketAddress) : Except IoFailure SocketAddress :=
  if !a.isWildcard && !a.isLoopback then .error .addressMissing
  else if taken.any a.conflicts then .error .addressInUse
  else .ok a

end SocketAddress

end ColdArchive
