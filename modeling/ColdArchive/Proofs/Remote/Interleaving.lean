import Mathlib.Logic.Function.Basic
import Mathlib.Logic.Relation
import ColdArchive.Proofs.Message.Stream
import ColdArchive.Proofs.Service.Responses
import ColdArchive.Remote.Stream

/-!
# Calls at the same time

Any number of calls are made on one transport, and the steps of their exchanges are interleaved in
any way. A call looks whether the transport is open, takes a connection out of the pool or makes a
new one, writes its request in pieces, reads the response once it has come, looks again whether the
transport is open, and gives the connection back. While it waits it can be cut off, whatever the
reason is, and then its connection is let go. The transport can be closed between any two steps.

The peer answers the lines of a connection one after the other, each with one line that has the id
of the request if it is a response at all. What it sends comes in pieces too.
-/

namespace ColdArchive

/-! ### Bytes from the peer -/

section Boxes

variable {α : Type}

theorem lookup_map_snd (f : Nat → α → α) (boxes : List (Nat × α)) (id : Nat) :
    (boxes.map fun (n, box) => (n, f n box)).lookup id = (boxes.lookup id).map (f id) := by
  induction boxes with
  | nil => rfl
  | cons b boxes ih =>
    obtain ⟨n, box⟩ := b
    by_cases h : id = n
    · subst h
      simp
    · have hne : (id == n) = false := by simpa using h
      simp only [List.map_cons, List.lookup_cons, hne]
      exact ih

theorem lookup_filter_ne (boxes : List (Nat × α)) (id id' : Nat) :
    (boxes.filter fun (n, _) => n ≠ id).lookup id' =
      if id' = id then none else boxes.lookup id' := by
  induction boxes with
  | nil => simp
  | cons b boxes ih =>
    obtain ⟨n, box⟩ := b
    by_cases hn : n = id
    · subst hn
      rw [List.filter_cons_of_neg (by simp), ih]
      by_cases h : id' = n
      · simp [h]
      · have hne : (id' == n) = false := by simpa using h
        simp [h, List.lookup_cons, hne]
    · rw [List.filter_cons_of_pos (by simpa using hn), List.lookup_cons, List.lookup_cons, ih]
      by_cases h : id' = n
      · subst h
        simp [hn]
      · have hne : (id' == n) = false := by simpa using h
        simp [hne]

end Boxes

namespace Wire

/-- The bytes that have come on a connection, unless it was let go. -/
def box? {π : Type} (w : Wire π) (id : Nat) : Option Bytes := w.inboxes.lookup id

variable {w : Wire Unit} {id : Nat}

theorem inbox_eq {π : Type} (w : Wire π) (id : Nat) : w.inbox id = (w.box? id).getD [] := rfl

theorem box?_arrive {π : Type} (w : Wire π) (id : Nat) (bytes : Bytes) (id' : Nat) :
    (w.arrive [(id, bytes)]).box? id' =
      (w.box? id').map fun box => if id' = id then box ++ bytes else box :=
  lookup_map_snd (fun n box => if n = id then box ++ bytes else box) w.inboxes id'

/-- A peer that says nothing takes what is sent. -/
theorem send_eq (now : Instant) (id : Nat) (bytes : Bytes) : w.send now id bytes = w := rfl

theorem box?_hangUp (now : Instant) (id' : Nat) :
    (w.hangUp now id).box? id' = if id' = id then none else w.box? id' :=
  lookup_filter_ne w.inboxes id id'

theorem dialed_hangUp (now : Instant) : (w.hangUp now id).dialed = w.dialed := rfl

/-- What is read is taken from what has come. -/
theorem receive?_eq_some {limit : Nat} {found : Frame.Found} {w' : Wire Unit}
    (h : w.receive? limit id = some (found, w')) :
    found = (Frame.read limit (w.inbox id)).1 ∧ w'.dialed = w.dialed ∧
      ∀ id', w'.box? id' = (w.box? id').map fun box =>
        if id' = id then (Frame.read limit (w.inbox id)).2 else box := by
  unfold receive? at h
  split at h
  · obtain ⟨rfl, rfl⟩ := Prod.mk.inj (Option.some.inj h)
    exact ⟨rfl, rfl, lookup_map_snd
      (fun n box => if n = id then (Frame.read limit (w.inbox id)).2 else box) w.inboxes⟩
  · cases h

end Wire

namespace StreamTransport

variable {t t' : StreamTransport Unit} {now : Instant} {id : Nat}

/-- A connection comes out of the pool, or it is a new one. -/
theorem checkOut_cases (h : t.checkOut now = (.ok id, t')) :
    t'.pool.maxIdle = t.pool.maxIdle ∧
      ((t.pool.idle = id :: t'.pool.idle ∧ t'.wire = t.wire) ∨
        (t'.pool = t.pool ∧ t.pool.idle = [] ∧ id = t.wire.dialed ∧ t'.wire.dialed = id + 1 ∧
          ∀ id', t'.wire.box? id' = if id' = id then some [] else t.wire.box? id')) := by
  obtain ⟨endpoint, limit, ⟨idle, maxIdle, closed⟩, ⟨network, peer, dialed, inboxes⟩⟩ := t
  cases idle with
  | cons k rest =>
    obtain ⟨hk, rfl⟩ := Prod.mk.inj h
    obtain rfl := Except.ok.inj hk
    exact ⟨rfl, .inl ⟨rfl, rfl⟩⟩
  | nil =>
    have hdial : dial ⟨endpoint, limit, ⟨[], maxIdle, closed⟩,
      ⟨network, peer, dialed, inboxes⟩⟩ now = (.ok id, t') := h
    unfold dial at hdial
    split at hdial
    · cases hdial
    · cases network with
      | isolated => cases hdial
      | reachable =>
        obtain ⟨hk, rfl⟩ := Prod.mk.inj hdial
        obtain rfl := Except.ok.inj hk
        refine ⟨rfl, .inr ⟨rfl, rfl, rfl, rfl, fun id' => ?_⟩⟩
        by_cases hid : id' = dialed
        · simp [Wire.box?, Wire.arrive, hid]
        · have hne : (id' == dialed) = false := by simpa using hid
          simp [Wire.box?, Wire.arrive, List.lookup_cons, hne, hid]

/-- Where no connection can be had, nothing changes. -/
theorem checkOut_fails {e : StoreError} (h : t.checkOut now = (.error e, t')) : t' = t := by
  obtain ⟨endpoint, limit, ⟨idle, maxIdle, closed⟩, ⟨network, peer, dialed, inboxes⟩⟩ := t
  cases idle with
  | cons k rest => cases h
  | nil =>
    have hdial : dial ⟨endpoint, limit, ⟨[], maxIdle, closed⟩,
      ⟨network, peer, dialed, inboxes⟩⟩ now = (.error e, t') := h
    unfold dial at hdial
    split at hdial
    · exact (Prod.mk.inj hdial).2.symm
    · cases network with
      | isolated => exact (Prod.mk.inj hdial).2.symm
      | reachable => cases hdial

end StreamTransport

/-! ### The parts of a return and of a closing -/

namespace StreamTransport

variable {π : Type} [StreamPeer π]

/-- Gives a connection back without a look at whether the pool is closed. -/
def store (t : StreamTransport π) (now : Instant) (id : Nat) : StreamTransport π :=
  if t.pool.idle.length < t.pool.maxIdle then
    { t with pool := { t.pool with idle := id :: t.pool.idle } }
  else t.discard now id

/-- A return is that look and what follows from it. -/
theorem checkIn_eq (t : StreamTransport π) (now : Instant) (id : Nat) :
    t.checkIn now id = if t.pool.closed then t.discard now id else t.store now id := by
  cases hclosed : t.pool.closed <;> by_cases hroom : t.pool.idle.length < t.pool.maxIdle <;>
    simp [checkIn, store, Pool.hasRoom, Pool.checkIn, hclosed, hroom]

/-- Lets no call begin and no connection come back any more. -/
def shut (t : StreamTransport π) : StreamTransport π :=
  { t with pool := { t.pool with closed := true } }

/-- Lets the idle connections go. -/
def drain (t : StreamTransport π) (now : Instant) : StreamTransport π :=
  { t with
    pool := { t.pool with idle := [] }
    wire := t.pool.idle.foldl (fun wire id => wire.hangUp now id) t.wire }

/-- A closing is those two. -/
theorem close_eq (t : StreamTransport π) (now : Instant) : t.close now = t.shut.drain now := rfl

/-- Lets the connection of a call go, if it has one. -/
def letGo (t : StreamTransport π) (now : Instant) : Option Nat → StreamTransport π
  | some id => t.discard now id
  | none => t

end StreamTransport

/-! ### Calls -/

/-- How far a call has come. -/
inductive Phase where
  | called
  /-- The transport was open. -/
  | admitted
  /-- These bytes of the request are not written yet. When all are, the call waits for the
  response. -/
  | exchanging (id : Nat) (left : Bytes)
  /-- The response has been read. -/
  | answered (id : Nat) (response : Response)
  /-- The transport was open after that. -/
  | returning (id : Nat) (response : Response)
  | done (outcome : Except StoreError Response)

namespace Phase

/-- The connection that the call has taken. -/
def connection? : Phase → Option Nat
  | exchanging id _ | answered id _ | returning id _ => some id
  | called | admitted | done _ => none

/-- The call can be cut off. -/
def Waits : Phase → Prop
  | called | admitted | exchanging .. => True
  | answered .. | returning .. | done _ => False

end Phase

/-! ### Answers -/

namespace Request

open Json in
/-- The text of a request up to its id. -/
theorem encode_eq (r : Request) : ∃ rest, r.encode =
    0x7b :: 0x22 :: content "jsonrpc" ++ 0x22 :: 0x3a :: 0x22 :: (content r.rpcVersion ++
      0x22 :: (0x2c :: 0x22 :: content "id" ++ 0x22 :: 0x3a ::
        (utf8 (Number.text (.natural r.id)) ++ 0x2c :: rest))) := by
  simp [Request.encode, toJson, encode_object, utf8_membersText, encode_string, encode_number]

/-- Requests of one text have one id. -/
theorem id_eq_of_encode_eq {r r' : Request} (h : r.encode = r'.encode) : r.id = r'.id := by
  obtain ⟨rest, hr⟩ := r.encode_eq
  obtain ⟨rest', hr'⟩ := r'.encode_eq
  have number (id : UInt64) (rest : Bytes) :
      Json.readNumber (utf8 (Number.text (.natural id)) ++ 0x2c :: rest) =
        some (.natural id, 0x2c :: rest) :=
    Json.readNumber_text (n := .natural id) trivial (Json.stops_comma rest)
  rw [hr, hr'] at h
  replace h := congrArg Json.readString (List.cons.inj (List.cons.inj (List.cons.inj
    (List.append_cancel_left h)).2).2).2
  rw [Json.readString_content, Json.readString_content] at h
  replace h := (Prod.mk.inj (Option.some.inj h)).2
  replace h := congrArg Json.readNumber (List.cons.inj (List.cons.inj
    (List.append_cancel_left h)).2).2
  rw [number, number] at h
  exact Number.natural.inj (Prod.mk.inj (Option.some.inj h)).1

end Request

/-- A line of a call and the line that the peer has answered it with. -/
structure AnsweredLine where
  call : Nat
  line : Bytes
  payload : Bytes

namespace AnsweredLine

/-- What is read from the frame of the answer. -/
def text (a : AnsweredLine) : Bytes := Frame.stripTerminator (Frame.encode a.payload)

/-- If the answer is a response then it has the id of the request on the line. -/
def CarriesId [Json.Wording] (a : AnsweredLine) : Prop :=
  ∀ (r : Request) (response : Response), a.line = r.encode →
    Response.decode a.text = .ok response → response.id = some r.id

/-- A service answers with the id of the request if its parameters can be read. -/
theorem carriesId_handleLine [Json.Wording] {σ : Type} [Archive σ] (s : Service) (now : Readings)
    (token : Token) (a : σ) (n : Nat) {r : Request} (h : ∀ j ∈ r.params, j.Plain 125) :
    CarriesId ⟨n, r.encode, (s.handleLine now token r.encode a).1.encode⟩ := by
  have hid := (s.decided_handleLine now token r.encode a).identified.ofRequest r
    (Service.requestOf?_encode h)
  have hplain := s.plain_handleLine now token r.encode a
  generalize (s.handleLine now token r.encode a).1 = answer at hid hplain
  have htext : text ⟨n, r.encode, answer.encode⟩ = answer.encode :=
    Frame.stripTerminator_newline ((Json.printable_encode _).getLast?_ne (by decide))
  intro r' response hline hdecode
  rw [htext, Response.decode_encode hplain] at hdecode
  rw [← Except.ok.inj hdecode, ← Request.id_eq_of_encode_eq hline]
  exact hid

end AnsweredLine

/-! ### Steps -/

/-- The calls that are made on a transport, and the bytes between it and its peer. -/
structure Traffic where
  transport : StreamTransport Unit
  calls : List (Request × Phase)
  /-- The bytes written on each connection and not answered yet, with the calls that wrote them. -/
  unanswered : Nat → List (Nat × UInt8)
  /-- The bytes that the peer has sent on each connection and that have not come yet. -/
  coming : Nat → Bytes
  /-- The answers that the peer has given. -/
  answers : List AnsweredLine

namespace Traffic

/-- A transport before the first call. -/
def start (t : StreamTransport Unit) : Traffic := ⟨t, [], fun _ => [], fun _ => [], []⟩

def idle (s : Traffic) : List Nat := s.transport.pool.idle

/-- The number of connections made so far. -/
def dialed (s : Traffic) : Nat := s.transport.wire.dialed

/-- The call of a number, and how far it has come. -/
def At (s : Traffic) (n : Nat) (r : Request) (phase : Phase) : Prop :=
  s.calls[n]? = some (r, phase)

/-- A call has taken a connection. -/
def Uses (s : Traffic) (n id : Nat) : Prop :=
  ∃ r phase, s.At n r phase ∧ phase.connection? = some id

/-- A call goes on to its next phase. -/
def put (s : Traffic) (n : Nat) (r : Request) (phase : Phase) (t : StreamTransport Unit) :
    Traffic :=
  { s with transport := t, calls := s.calls.set n (r, phase) }

/-- What a call does, or the peer, or who closes the transport. -/
inductive Step [Json.Wording] : Traffic → Traffic → Prop where
  | calls (s : Traffic) (r : Request) : Step s { s with calls := s.calls ++ [(r, .called)] }
  | enters {s : Traffic} {n : Nat} {r : Request} (h : s.At n r .called)
      (hopen : s.transport.pool.closed = false) : Step s (s.put n r .admitted s.transport)
  | takes {s : Traffic} {n : Nat} {r : Request} {now : Instant} {id : Nat}
      {t : StreamTransport Unit} (h : s.At n r .admitted)
      (hout : s.transport.checkOut now = (.ok id, t)) :
      Step s (s.put n r (.exchanging id (Frame.encode r.encode)) t)
  /-- The next bytes of the request are written. -/
  | writes {s : Traffic} {n : Nat} {r : Request} {id : Nat} (bytes left : Bytes) (now : Instant)
      (h : s.At n r (.exchanging id (bytes ++ left))) :
      Step s { s.put n r (.exchanging id left)
          { s.transport with wire := s.transport.wire.send now id bytes } with
        unanswered := Function.update s.unanswered id
          (s.unanswered id ++ bytes.map fun b => (n, b)) }
  /-- The peer answers the first line that it has not answered. -/
  | answers {s : Traffic} {id n : Nat} {line rest : List (Nat × UInt8)} (payload : Bytes)
      (h : s.unanswered id = line ++ (n, Frame.newline) :: rest)
      (hline : Frame.newline ∉ line.map Prod.snd) (hpayload : Frame.newline ∉ payload)
      (hid : AnsweredLine.CarriesId ⟨n, line.map Prod.snd, payload⟩) :
      Step s { s with
        unanswered := Function.update s.unanswered id rest
        coming := Function.update s.coming id (s.coming id ++ Frame.encode payload)
        answers := s.answers ++ [⟨n, line.map Prod.snd, payload⟩] }
  /-- The next bytes from the peer come. -/
  | arrives {s : Traffic} {id : Nat} {bytes left : Bytes} (h : s.coming id = bytes ++ left) :
      Step s { s with
        transport := { s.transport with wire := s.transport.wire.arrive [(id, bytes)] }
        coming := Function.update s.coming id left }
  | reads {s : Traffic} {n : Nat} {r : Request} {id : Nat} {found : Frame.Found} {wire : Wire Unit}
      {response : Response} (h : s.At n r (.exchanging id []))
      (hfound : s.transport.wire.receive? s.transport.maxFrameSize id = some (found, wire))
      (hresponse : s.transport.responseOf found = .ok response) :
      Step s (s.put n r (.answered id response) { s.transport with wire := wire })
  /-- What has come is no response. -/
  | misreads {s : Traffic} {n : Nat} {r : Request} {id : Nat} {found : Frame.Found}
      {wire : Wire Unit} {e : StoreError} (now : Instant) (h : s.At n r (.exchanging id []))
      (hfound : s.transport.wire.receive? s.transport.maxFrameSize id = some (found, wire))
      (hresponse : s.transport.responseOf found = .error e) :
      Step s (s.put n r (.done (.error e)) ({ s.transport with wire := wire }.discard now id))
  /-- The call is canceled, comes to its deadline, or cannot go on. -/
  | cut {s : Traffic} {n : Nat} {r : Request} {phase : Phase} (now : Instant) (e : StoreError)
      (h : s.At n r phase) (hwaits : phase.Waits) :
      Step s (s.put n r (.done (.error e)) (s.transport.letGo now phase.connection?))
  | findsClosed {s : Traffic} {n : Nat} {r : Request} {id : Nat} {response : Response}
      (now : Instant) (h : s.At n r (.answered id response))
      (hclosed : s.transport.pool.closed = true) :
      Step s (s.put n r (.done (.ok response)) (s.transport.discard now id))
  | findsOpen {s : Traffic} {n : Nat} {r : Request} {id : Nat} {response : Response}
      (h : s.At n r (.answered id response)) (hopen : s.transport.pool.closed = false) :
      Step s (s.put n r (.returning id response) s.transport)
  /-- The transport may have been closed since the call has looked. -/
  | returns {s : Traffic} {n : Nat} {r : Request} {id : Nat} {response : Response} (now : Instant)
      (h : s.At n r (.returning id response)) :
      Step s (s.put n r (.done (.ok response)) (s.transport.store now id))
  | shuts (s : Traffic) : Step s { s with transport := s.transport.shut }
  | drains {s : Traffic} (now : Instant) (hclosed : s.transport.pool.closed = true) :
      Step s { s with transport := s.transport.drain now }

/-- What happens in any number of steps. -/
abbrev Runs [Json.Wording] : Traffic → Traffic → Prop := Relation.ReflTransGen Step

/-! ### An exchange or a closing by itself -/

section Alone

variable {s s' : Traffic} {n : Nat} {r : Request} {phase phase' : Phase}

theorem At.congr (h : s.At n r phase) (hcalls : s'.calls = s.calls) : s'.At n r phase := by
  unfold At at h ⊢
  rwa [hcalls]

theorem At.put (h : s.At n r phase) (t : StreamTransport Unit) :
    (s.put n r phase' t).At n r phase' := by
  have hlt : n < s.calls.length := (List.getElem?_eq_some_iff.mp h).1
  simp [At, Traffic.put, hlt]

variable [Json.Wording]

theorem checkIn_runs {id : Nat} {response : Response} (h : s.At n r (.answered id response))
    (now : Instant) : ∃ s', Runs s s' ∧ s'.transport = s.transport.checkIn now id ∧
      s'.At n r (.done (.ok response)) := by
  rw [StreamTransport.checkIn_eq]
  cases hclosed : s.transport.pool.closed with
  | true => exact ⟨_, .single (.findsClosed now h hclosed), rfl, h.put _⟩
  | false =>
    have hopen : s.At n r (.answered id response) := h
    refine ⟨_, .tail (.single (.findsOpen h hclosed)) (.returns now (h.put _)), rfl, ?_⟩
    exact (h.put _).put _

/-- A new call gets a connection if it can. -/
theorem asks_runs (s : Traffic) (r : Request) {now : Instant} {id : Nat} {t : StreamTransport Unit}
    (hopen : s.transport.pool.closed = false) (hout : s.transport.checkOut now = (.ok id, t)) :
    ∃ s', Runs s s' ∧ s'.At s.calls.length r (.exchanging id (Frame.encode r.encode)) ∧
      s'.transport = t ∧ s'.calls.length = s.calls.length + 1 ∧ s'.unanswered = s.unanswered ∧
      s'.coming = s.coming := by
  have hat : At { s with calls := s.calls ++ [(r, Phase.called)] } s.calls.length r .called := by
    simp [At]
  have hentered := (Relation.ReflTransGen.single (Step.calls s r)).tail (.enters hat hopen)
  refine ⟨_, hentered.tail (.takes (hat.put _) hout), (hat.put _).put _, rfl, ?_, rfl, rfl⟩
  simp [put]

/-- A request is written as a whole. -/
theorem writes_all {id : Nat} (h : s.At n r (.exchanging id (Frame.encode r.encode)))
    (now : Instant) :
    ∃ s', Step s s' ∧ s'.At n r (.exchanging id []) ∧
      s'.transport =
        { s.transport with wire := s.transport.wire.send now id (Frame.encode r.encode) } ∧
      s'.calls.length = s.calls.length ∧ s'.coming = s.coming ∧
      s'.unanswered = Function.update s.unanswered id
        (s.unanswered id ++ (Frame.encode r.encode).map fun b => (n, b)) := by
  have hall : s.At n r (.exchanging id (Frame.encode r.encode ++ [])) := by
    rwa [List.append_nil]
  exact ⟨_, .writes _ [] now hall, At.put h s.transport, rfl, List.length_set, rfl, rfl⟩

theorem converse_runs {id : Nat} (h : s.At n r (.exchanging id (Frame.encode r.encode)))
    (now : Instant) (ctx : Context) :
    ∃ s', Runs s s' ∧ s'.transport = (s.transport.converse now ctx r id).2 ∧
      s'.At n r (.done (s.transport.converse now ctx r id).1) := by
  obtain ⟨s₁, hwrite, hat, htransport, -⟩ := writes_all h now
  have hfirst : Runs s s₁ := .single hwrite
  simp only [StreamTransport.converse]
  split
  · refine ⟨_, hfirst.tail (.cut now ctx.endOfWait hat trivial), ?_, hat.put _⟩
    rw [htransport]
    rfl
  · next found wire hfound =>
    replace hfound : s₁.transport.wire.receive? s₁.transport.maxFrameSize id =
        some (found, wire) := htransport ▸ hfound
    have hwire : { s₁.transport with wire := wire } = { s.transport with wire := wire } := by
      rw [htransport]
    split
    · next response hresponse =>
      replace hresponse : s₁.transport.responseOf found = .ok response := htransport ▸ hresponse
      have hread := hfirst.tail (.reads hat hfound hresponse)
      obtain ⟨s', hruns, hdone, hat'⟩ := checkIn_runs (hat.put _) now
      exact ⟨s', hread.trans hruns, hdone.trans (congrArg (·.checkIn now id) hwire), hat'⟩
    · next e hresponse =>
      replace hresponse : s₁.transport.responseOf found = .error e := htransport ▸ hresponse
      exact ⟨_, hfirst.tail (.misreads now hat hfound hresponse),
        congrArg (·.discard now id) hwire, hat.put _⟩

/-- **An exchange that nothing comes between is a run of steps.** -/
theorem exchange_runs (s : Traffic) (now : Instant) (ctx : Context) (r : Request) :
    ∃ s', Runs s s' ∧ s'.transport = (s.transport.exchange now ctx r).2 ∧
      s'.At s.calls.length r (.done (s.transport.exchange now ctx r).1) := by
  have hat : At { s with calls := s.calls ++ [(r, Phase.called)] } s.calls.length r .called := by
    simp [At]
  have hcalled : Runs s _ := .single (.calls s r)
  have hcut : ∀ {s' phase}, Runs s s' → s'.At s.calls.length r phase → phase.Waits →
      phase.connection? = none → ∀ e, ∃ s'', Runs s s'' ∧ s''.transport = s'.transport ∧
        s''.At s.calls.length r (.done (.error e)) := by
    intro s' phase hruns hat hwaits hnone e
    refine ⟨_, hruns.tail (.cut now e hat hwaits), ?_, hat.put _⟩
    rw [hnone]
    rfl
  unfold StreamTransport.exchange
  split
  · next e _ => exact hcut hcalled hat trivial rfl e
  split
  · exact hcut hcalled hat trivial rfl _
  · next hopen =>
    have henter := hcalled.tail (Step.enters hat (by simpa using hopen))
    split
    · next e t hout =>
      rw [StreamTransport.checkOut_fails hout]
      exact hcut henter (hat.put _) trivial rfl e
    · next id t hout =>
      obtain ⟨s₁, htake, hat₁, rfl, -⟩ := asks_runs s r (by simpa using hopen) hout
      obtain ⟨s', hruns, hrest⟩ := converse_runs hat₁ now ctx
      exact ⟨s', htake.trans hruns, hrest⟩

/-- A closing that nothing comes between is a run of steps, and the calls stay where they are. -/
theorem close_runs (s : Traffic) (now : Instant) :
    Runs s { s with transport := s.transport.close now } := by
  rw [StreamTransport.close_eq]
  exact .tail (.single (.shuts s)) (.drains now rfl)

end Alone

end Traffic

end ColdArchive
