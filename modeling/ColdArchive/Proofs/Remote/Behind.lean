import ColdArchive.Proofs.Remote.Blame
import ColdArchive.Proofs.Remote.Interleaving
import ColdArchive.Proofs.Remote.Reuse
import ColdArchive.Proofs.Remote.Sizes

/-!
# One line behind

A peer that has sent one line too many on a connection is one line behind there for as long as the
connection lasts: a call reads the line that was left by the call before it, fails because that is
the response to another request, and leaves the response to its own request unread. The connection
is kept all the same, since a line was read from it that is a response (`kept_for_any_response`).
-/

namespace ColdArchive

/-- A reader with the limit takes the line for a response with that id. -/
structure TakenFor [Json.Wording] (limit : Nat) (line : Bytes) (id : UInt64) : Prop where
  passes : Frame.Passes limit line
  decodes : ∃ response, Response.decode line = .ok response ∧ response.id = some id

/-- From the states in which `P` holds on, the peer keeps its connections and answers every request
with one line, which is a response with its id. -/
structure Prompt [Json.Wording] {π : Type} [StreamPeer π] (limit : Nat) (P : π → Prop) : Prop where
  stays : ∀ p id, P p → StreamPeer.hasClosed p id = false
  answers : ∀ p now id (r : Request), P p → (∀ j ∈ r.params, j.Plain 0) →
    ∃ line p',
      StreamPeer.receive p now id (Frame.encode r.encode) = ([(id, Frame.encode line)], p') ∧
      P p' ∧ TakenFor limit line r.id

namespace Wire

variable {π : Type} {w : Wire π} {id limit : Nat}

theorem box?_of_inbox {bytes : Bytes} (h : w.inbox id = bytes) (hne : bytes ≠ []) :
    w.box? id = some bytes := by
  rw [inbox_eq] at h
  cases hbox : w.box? id with
  | none =>
    rw [hbox] at h
    exact absurd h.symm hne
  | some box =>
    rw [hbox] at h
    exact congrArg some h

variable [StreamPeer π]

/-- What the peer answers at once stands behind what has come before. -/
theorem send_answered {now : Instant} {bytes box answer : Bytes} {p : π}
    (hstays : StreamPeer.hasClosed w.peer id = false)
    (hanswer : StreamPeer.receive w.peer now id bytes = ([(id, answer)], p))
    (hbox : w.box? id = some box) :
    ∃ w', w.send now id bytes = w' ∧ w'.peer = p ∧ w'.box? id = some (box ++ answer) := by
  have hsent : w.send now id bytes = arrive { w with peer := p } [(id, answer)] := by
    simp [send, hstays, hanswer]
  have hbox' : box? { w with peer := p } id = some box := hbox
  refine ⟨_, hsent, rfl, ?_⟩
  rw [box?_arrive, hbox', Option.map_some, if_pos rfl]

/-- A line that has come is read, whatever stands behind it. -/
theorem receive?_of_passes {line rest : Bytes} (hpasses : Frame.Passes limit line)
    (hbox : w.box? id = some (Frame.encode line ++ rest)) :
    ∃ w', w.receive? limit id = some (.frame line, w') ∧ w'.peer = w.peer ∧
      w'.box? id = some rest := by
  have hread : Frame.read limit (w.inbox id) = (.frame line, rest) := by
    rw [inbox_eq, hbox]
    exact hpasses rest
  have hready : Frame.isReady limit (w.inbox id) = true := by
    by_contra hnot
    have hfound := Frame.read_of_not_isReady (Bool.eq_false_iff.mpr hnot)
    rw [hread] at hfound
    simp at hfound
  let boxes := w.inboxes.map fun b => (b.1, if b.1 = id then rest else b.2)
  have hlookup : boxes.lookup id = (w.box? id).map fun box => if id = id then rest else box :=
    lookup_map_snd (fun n box => if n = id then rest else box) w.inboxes id
  refine ⟨{ w with inboxes := boxes },
    by simp only [receive?, hready, hread, Bool.or_true, if_true, boxes], rfl, ?_⟩
  rw [box?, hlookup, hbox, Option.map_some, if_pos rfl]

end Wire

namespace StreamTransport

/-- **An exchange takes the first line that has come for its response**, whether it was left unread
before or is the answer to its own request, and leaves what stands behind that line. -/
theorem exchange_reads_line [Json.Wording] {π : Type} [StreamPeer π] {t : StreamTransport π}
    {now : Instant} {ctx : Context} {r : Request} {id : Nat} {rest : List Nat}
    {before answer line left : Bytes} {p : π} {response : Response}
    (hl : ctx.check now = .ok ()) (hopen : t.pool.closed = false)
    (hidle : t.pool.idle = id :: rest) (hroom : rest.length < t.pool.maxIdle)
    (hbox : t.wire.box? id = some before)
    (hstays : StreamPeer.hasClosed t.wire.peer id = false)
    (hanswer : StreamPeer.receive t.wire.peer now id (Frame.encode r.encode) = ([(id, answer)], p))
    (hline : before ++ answer = Frame.encode line ++ left)
    (hpasses : Frame.Passes t.maxFrameSize line) (hdecode : Response.decode line = .ok response) :
    ∃ t', t.exchange now ctx r = (.ok response, t') ∧ t'.pool = t.pool ∧
      t'.maxFrameSize = t.maxFrameSize ∧ t'.wire.peer = p ∧ t'.wire.box? id = some left := by
  obtain ⟨sent, hsent, hpeer, harrived⟩ := Wire.send_answered hstays hanswer hbox
  obtain ⟨read, hread, hpeer', hleft⟩ := Wire.receive?_of_passes hpasses (hline ▸ harrived)
  let lent : StreamTransport π := { t with pool := { t.pool with idle := rest } }
  have hlent : t.checkOut now = (.ok id, lent) := checkOut_of_idle hidle
  replace hsent : lent.wire.send now id (Frame.encode r.encode) = sent := hsent
  replace hread : sent.receive? lent.maxFrameSize id = some (.frame line, read) := hread
  have hkept : lent.pool.hasRoom = true := by simp [lent, Pool.hasRoom, hopen, hroom]
  have hback : lent.pool.checkIn id = t.pool := by
    rw [Pool.checkIn, if_pos hkept, ← hidle]
  refine ⟨{ t with wire := read }, ?_, rfl, rfl, hpeer'.trans hpeer, hleft⟩
  simp only [exchange, hl, hopen, hlent, converse, hsent, hread, responseOf, hdecode, checkIn,
    hkept, hback, Bool.false_eq_true, if_false, if_true]
  rfl

end StreamTransport

/-- The error of a call that has found the response to another request. -/
def StoreError.mismatch (got asked : UInt64) : StoreError :=
  .protocol s!"response id Some({got.toNat}) does not match request {asked.toNat}"

namespace RemoteArchive

theorem verdict_of_mismatch {response : Response} {got id : UInt64} (hid : response.id = some got)
    (hne : got ≠ id) : verdict id (.ok response) = .error (.mismatch got id) := by
  simp [verdict, Except.bind, hid, hne, StoreError.mismatch]

/-- Ids are counted in a word, and still no id is the next one. -/
theorem ne_add_one (id : UInt64) : id ≠ id + 1 := by
  intro h
  have hnat := congrArg UInt64.toNat h
  rw [UInt64.toNat_add, UInt64.toNat_one] at hnat
  have hlt := id.toNat_lt
  omega

section Behind

variable [Json.Wording] {π : Type} [StreamPeer π] {limit id : Nat} {P : π → Prop}

/-- An open archive whose next connection has a line left unread, which is a response to something
other than its next request. -/
structure Behind (limit : Nat) (P : π → Prop) (id : Nat) (c : RemoteArchive (StreamTransport π)) :
    Prop where
  notClosed : c.closed = false
  inUse : c.transport.pool.closed = false
  frameSize : c.transport.maxFrameSize = limit
  front : ∃ rest, c.transport.pool.idle = id :: rest ∧ rest.length < c.transport.pool.maxIdle
  peer : P c.transport.wire.peer
  unread : ∃ line got, TakenFor limit line got ∧ got ≠ c.nextId ∧
    c.transport.wire.box? id = some (Frame.encode line)

variable {c : RemoteArchive (StreamTransport π)} {now : Instant} {ctx : Context} {call : Call}

theorem Behind.taken (h : c.Behind limit P id)
    (hl : (bounded c.config.defaultTimeout now ctx).IsLive now) :
    c.taken? now ctx = some id := by
  obtain ⟨rest, hidle, -⟩ := h.front
  exact taken_of_front h.notClosed h.inUse hidle hl

/-- An exchange one line behind gets the response that was left for it, and leaves the one to its
own request. -/
theorem Behind.exchange (h : c.Behind limit P id) (hp : Prompt limit P)
    (hl : ctx.check now = .ok ()) {r : Request} (hplain : ∀ j ∈ r.params, j.Plain 0) :
    ∃ got response t', got ≠ c.nextId ∧ response.id = some got ∧
      Transport.exchange c.transport now ctx r = (.ok response, t') ∧
      t'.pool = c.transport.pool ∧ t'.maxFrameSize = limit ∧ P t'.wire.peer ∧
      ∃ answer, TakenFor limit answer r.id ∧ t'.wire.box? id = some (Frame.encode answer) := by
  obtain ⟨-, hinUse, hlimit, ⟨rest, hidle, hroom⟩, hpeer, line, got, hline, hne, hbox⟩ := h
  obtain ⟨response, hdecode, hid⟩ := hline.decodes
  obtain ⟨answer, p, hanswer, hp', hfits⟩ := hp.answers c.transport.wire.peer now id r hpeer hplain
  obtain ⟨t', hexchange, hpool, hlimit', rfl, hleft⟩ :=
    StreamTransport.exchange_reads_line hl hinUse hidle hroom hbox (hp.stays _ id hpeer) hanswer
      rfl (hlimit ▸ hline.passes) hdecode
  exact ⟨got, response, t', hne, hid, hexchange, hpool, hlimit'.trans hlimit, hp', answer, hfits,
    hleft⟩

/-- **A call one line behind** reads the line that was left for it, fails, and leaves the line with
which it was answered itself. -/
theorem Behind.perform (h : c.Behind limit P id) (hp : Prompt limit P)
    (hl : (bounded c.config.defaultTimeout now ctx).IsLive now) (hclose : call ≠ .close) :
    (∃ got, got ≠ c.nextId ∧ (c.perform now ctx call).1 = .error (.mismatch got c.nextId)) ∧
      (c.perform now ctx call).2.Behind limit P id := by
  obtain ⟨got, response, t', hne, hid, hsent, hpool, hlimit, hpeer, answer, hfits, hleft⟩ :=
    h.exchange hp hl (r := c.sent now ctx call.method call.params) call.plain_params
  rw [perform_of_open h.notClosed hclose, request_of_live hl, left_request_of_live hl, hsent,
    verdict_of_mismatch hid hne]
  exact ⟨⟨got, hne, rfl⟩, h.notClosed, hpool ▸ h.inUse, hlimit, hpool ▸ h.front, hpeer, answer, _,
    hfits, ne_add_one c.nextId, hleft⟩

/-- **A run one line behind** stays one line behind until the archive is closed. -/
theorem Behind.run (h : c.Behind limit P id) (hp : Prompt limit P)
    {calls : List (Instant × Context × Call)} (hcalls : ∀ asked ∈ calls, asked.2.2 ≠ .close) :
    (Archive.run c calls).2.Behind limit P id := by
  induction calls generalizing c with
  | nil => exact h
  | cons first calls ih =>
    obtain ⟨now, ctx, call⟩ := first
    have hclose : call ≠ .close := hcalls (now, ctx, call) List.mem_cons_self
    refine ih ?_ fun asked hasked => hcalls asked (List.mem_cons_of_mem _ hasked)
    show (c.perform now ctx call).2.Behind limit P id
    cases hl : (bounded c.config.defaultTimeout now ctx).check now with
    | error e =>
      rw [perform_of_open h.notClosed hclose, request_of_lost hl]
      exact h
    | ok => exact (h.perform hp hl hclose).2

/-- From now on until a close, every call gets that connection and fails for the response to another
request. -/
def OutOfStep (c : RemoteArchive (StreamTransport π)) (id : Nat) : Prop :=
  ∀ later, (∀ asked ∈ later, asked.2.2 ≠ .close) → ∀ now ctx call, call ≠ .close →
    (bounded (Archive.run c later).2.config.defaultTimeout now ctx).IsLive now →
      (Archive.run c later).2.taken? now ctx = some id ∧
        ∃ got, got ≠ (Archive.run c later).2.nextId ∧
          ((Archive.run c later).2.perform now ctx call).1 =
            .error (.mismatch got (Archive.run c later).2.nextId)

theorem Behind.outOfStep (h : c.Behind limit P id) (hp : Prompt limit P) : c.OutOfStep id := by
  intro later hlater now ctx call hclose hl
  have hlast := h.run hp hlater
  exact ⟨hlast.taken hl, (hlast.perform hp hl hclose).1⟩

end Behind

/-! ### Opened archives -/

section Opened

variable {π : Type} [StreamPeer π]

theorem pooled_of_opened [Json.Wording] {endpoint : String} {config : RemoteConfig}
    {start : Instant}
    {wire : Wire π} {c : RemoteArchive (StreamTransport π)} {t : StreamTransport π}
    (hopened : connect endpoint config start wire = (.ok c, t)) :
    c.transport.Pooled config.maxIdle := by
  unfold connect at hopened
  split at hopened
  · cases hopened
  · next t₀ hconnect =>
    have hp : StreamTransport.Pooled config.maxIdle (request ⟨t₀, config, 1, "", false⟩ start
        (Context.background.withTimeout start config.connectTimeout) .pingVersion []).2.transport :=
      (kept_pooled config.maxIdle).request (StreamTransport.pooled_of_connect hconnect) _ _
    unfold openOver at hopened
    simp only at hopened
    split at hopened
    · cases hopened
    · split at hopened
      · obtain rfl := Except.ok.inj (Prod.mk.inj hopened).1
        exact hp
      · cases hopened

theorem openOver_of_request {τ : Type} [Transport τ] {transport : τ} {config : RemoteConfig}
    {start : Instant} {c : RemoteArchive τ}
    (h : request ⟨transport, config, 1, "", false⟩ start
      (Context.background.withTimeout start config.connectTimeout) .pingVersion [] =
        (.ok (.string protocol.version), c)) :
    openOver transport config start =
      (.ok { c with status := handshakeStatus protocol.version }, c.transport) := by
  rw [openOver, h]
  simp [versionOf]

/-- **A connection is kept for a response, whoever it is for**, at any point of any run and whatever
the peer does. A call that hears no response loses its connection, which no later call gets. A call
that hears a response, also one with another id, leaves its connection to the next call, unless none
may be idle. So if it leaves a line unread there that is a response to something else, and the peer
answers every request with one line from then on, then every later call gets that connection, reads
the line that was left by the call before it, and fails. -/
theorem kept_for_any_response [Json.Wording] {endpoint : String} {config : RemoteConfig}
    {start : Instant}
    {wire : Wire π} {c : RemoteArchive (StreamTransport π)} {t : StreamTransport π}
    (hopened : connect endpoint config start wire = (.ok c, t))
    (earlier : List (Instant × Context × Call)) {now : Instant} {ctx : Context} {id : Nat}
    (htaken : (Archive.run c earlier).2.taken? now ctx = some id) (call : Call) :
    let before := (Archive.run c earlier).2
    let after := (before.perform now ctx call).2
    (¬ before.HearsResponse now ctx call →
      ∀ later now' ctx', (Archive.run after later).2.taken? now' ctx' ≠ some id) ∧
    (before.HearsResponse now ctx call → call ≠ .close → 0 < config.maxIdle →
      (∀ now' ctx', (bounded after.config.defaultTimeout now' ctx').IsLive now' →
        after.taken? now' ctx' = some id) ∧
      ∀ (P : π → Prop) (line : Bytes) (got : UInt64),
        Prompt after.transport.maxFrameSize P → P after.transport.wire.peer →
        after.transport.wire.inbox id = Frame.encode line →
        TakenFor after.transport.maxFrameSize line got → got ≠ after.nextId →
        after.OutOfStep id) := by
  intro before after
  have hp : before.transport.Pooled config.maxIdle :=
    (kept_pooled config.maxIdle).run (pooled_of_opened hopened) earlier
  constructor
  · intro hnone later now' ctx' htaken'
    have hgone : after.transport.Gone id := gone_of_no_response hp htaken hnone
    have hlast := (kept_gone id).run hgone later
    exact hlast.not_taken _ _ (taken?_eq_some_iff.mp htaken').2
  · intro hears hclose hkeeps
    obtain ⟨hopen, hinUse, rest, hidle⟩ := front_after_response hp hkeeps htaken hclose hears
    refine ⟨fun _ _ hl => taken_of_front hopen hinUse hidle hl,
      fun P line got hprompt hpeer hinbox hline hne => ?_⟩
    have hp' : after.transport.Pooled config.maxIdle := (kept_pooled config.maxIdle).perform hp call
    have hroom : rest.length < after.transport.pool.maxIdle := by
      have hlen := hp'.room
      rw [hidle] at hlen
      rw [hp'.maxIdle]
      exact hlen
    have hbox := Wire.box?_of_inbox hinbox (by simp [Frame.encode])
    have hbehind : after.Behind after.transport.maxFrameSize P id :=
      ⟨hopen, hinUse, rfl, ⟨rest, hidle, hroom⟩, hpeer, line, got, hline, hne, hbox⟩
    exact hbehind.outOfStep hprompt

end Opened

end RemoteArchive

/-! ### A peer that strays -/

/-- A peer that answers every request, and has something to say after the next answer. -/
structure Straying where
  extra : Bytes

namespace Straying

/-- The version for a handshake, and a number for every other request. -/
def resultOf (r : Request) : Json :=
  if r.method = Method.pingVersion.qualified RemoteConfig.default.ns then .string protocol.version
  else .number (.natural 7)

instance : StreamPeer Straying where
  connect := fun p _ _ => ([], p)
  receive := fun p _ id bytes =>
    match Service.requestOf? (Frame.stripTerminator bytes) with
    | some r => ([(id, Frame.encode (Response.grant r.id (resultOf r)) ++ p.extra)], ⟨[]⟩)
    | none => ([], p)
  hangUp := fun p _ _ => ([], p)
  hasClosed := fun _ _ => false

theorem receive_eq (p : Straying) (now : Instant) (id : Nat) {r : Request}
    (h : ∀ j ∈ r.params, j.Plain 0) :
    StreamPeer.receive p now id (Frame.encode r.encode) =
      ([(id, Frame.encode (Response.grant r.id (resultOf r)) ++ p.extra)], ⟨[]⟩) := by
  have hline : Frame.stripTerminator (Frame.encode r.encode) = r.encode :=
    Frame.stripTerminator_newline ((Json.printable_encode r.toJson).getLast?_ne (by decide))
  have hread := Service.requestOf?_encode fun j hj => (h j hj).mono (Nat.zero_le 125)
  simp only [StreamPeer.receive, hline, hread]

theorem takenFor_grant [Json.Wording] (id : UInt64) {result : Json} (hplain : result.Plain 126)
    (hlen : result.encode.length ≤ 20) :
    TakenFor protocol.defaultFrameSize (Response.grant id result) id := by
  refine ⟨Frame.passes_of_printable (by decide) (Json.printable_encode _) ?_, _,
    Response.decode_grant id hplain, rfl⟩
  rw [Response.grant, Response.length_encode_success]
  have hid := (Json.length_encode_natural id).2
  have hlimit : 73 ≤ protocol.defaultFrameSize := by decide
  omega

theorem takenFor_answer [Json.Wording] (r : Request) :
    TakenFor protocol.defaultFrameSize (Response.grant r.id (resultOf r)) r.id := by
  unfold resultOf
  split
  · exact takenFor_grant r.id trivial (by decide)
  · exact takenFor_grant r.id trivial (by decide)

theorem prompt [Json.Wording] :
    Prompt protocol.defaultFrameSize fun p : Straying => p.extra = [] := by
  refine ⟨fun _ _ _ => rfl, fun p now id r hp hplain => ?_⟩
  refine ⟨Response.grant r.id (resultOf r), ⟨[]⟩, ?_, rfl, takenFor_answer r⟩
  rw [receive_eq p now id hplain, hp, List.append_nil]

/-- The line that strays in. -/
def stray : Bytes := Response.grant 9 (.number (.natural 55))

/-- The transport to a peer that strays, after the first connection. -/
def dialed : StreamTransport Straying :=
  ⟨"127.0.0.1:8560", RemoteConfig.default.maxFrameSize, ⟨[0], 4, false⟩,
    ⟨.reachable, ⟨Frame.encode stray⟩, 1, [(0, [])]⟩⟩

theorem connect_eq : StreamTransport.connect "127.0.0.1:8560" .default 0
    (Wire.ofPeer .reachable ⟨Frame.encode stray⟩) = (.ok (), dialed) := by
  have hallowed : SocketAddress.dialRefusal? "127.0.0.1:8560" = none := by
    have hsplit : SocketAddress.splitLast? ':' "127.0.0.1:8560" = some ("127.0.0.1", "8560") := by
      decide +kernel
    rw [SocketAddress.dialRefusal?, hsplit]
    split
    · rfl
    · decide +kernel
  simp only [StreamTransport.connect, StreamTransport.dial, hallowed]
  rfl

/-- The first exchange gets its answer and leaves the line that strays in. -/
theorem exchange_dialed [Json.Wording] {ctx : Context} (hl : ctx.check 0 = .ok ()) {r : Request}
    (hplain : ∀ j ∈ r.params, j.Plain 0) :
    ∃ t', Transport.exchange dialed 0 ctx r =
        (.ok (Response.success r.id (resultOf r)).received, t') ∧
      t'.pool = dialed.pool ∧ t'.maxFrameSize = protocol.defaultFrameSize ∧
      t'.wire.peer = ⟨[]⟩ ∧ t'.wire.box? 0 = some (Frame.encode stray) := by
  have hresult : (resultOf r).Plain 126 := by
    unfold resultOf
    split <;> trivial
  exact StreamTransport.exchange_reads_line (t := dialed) hl rfl rfl (by decide) rfl rfl
    (receive_eq _ 0 0 hplain) rfl (takenFor_answer r).passes (Response.decode_grant r.id hresult)

end Straying

namespace RemoteArchive

open Straying in
/-- The handshake is answered, and the line behind the answer is left unread. -/
theorem opened_behind :
    ∃ (c : RemoteArchive (StreamTransport Straying)) (t : StreamTransport Straying),
      connect "127.0.0.1:8560" .default 0 (Wire.ofPeer .reachable ⟨Frame.encode stray⟩) =
        (.ok c, t) ∧
      c.config = .default ∧ c.Behind protocol.defaultFrameSize (fun p => p.extra = []) 0 := by
  let blank : RemoteArchive (StreamTransport Straying) := ⟨dialed, .default, 1, "", false⟩
  let ctx := Context.background.withTimeout 0 RemoteConfig.default.connectTimeout
  have hl : (bounded blank.config.defaultTimeout 0 ctx).IsLive 0 := by decide
  obtain ⟨t', hsent, hpool, hlimit, hpeer, hleft⟩ :=
    exchange_dialed hl (r := blank.sent 0 ctx .pingVersion []) fun _ hj => by cases hj
  have hreq : blank.request 0 ctx .pingVersion [] =
      (.ok (.string protocol.version), { blank with nextId := 2, transport := t' }) := by
    refine Prod.ext ?_ ?_
    · rw [request_of_live hl, hsent]
      rfl
    · rw [left_request_of_live hl, hsent]
      rfl
  let opened : RemoteArchive (StreamTransport Straying) :=
    { blank with nextId := 2, transport := t', status := handshakeStatus protocol.version }
  have hopened : connect "127.0.0.1:8560" .default 0 (Wire.ofPeer .reachable ⟨Frame.encode stray⟩) =
      (.ok opened, t') := by
    rw [connect, connect_eq]
    exact openOver_of_request hreq
  have hfront : ∃ rest, t'.pool.idle = 0 :: rest ∧ rest.length < t'.pool.maxIdle := by
    rw [hpool]
    exact ⟨[], rfl, by decide⟩
  have hunread : ∃ line got, TakenFor protocol.defaultFrameSize line got ∧ got ≠ opened.nextId ∧
      t'.wire.box? 0 = some (Frame.encode line) :=
    ⟨stray, 9, takenFor_grant 9 trivial (by decide), show (9 : UInt64) ≠ 2 by decide, hleft⟩
  exact ⟨opened, t', hopened, rfl, rfl, congrArg Pool.closed hpool, hlimit, hfront,
    congrArg extra hpeer, hunread⟩

/-- A number is asked for twice, and both calls read what was said before they asked. -/
theorem kept_for_any_response_of_stray :
    ∃ (c : RemoteArchive (StreamTransport Straying)) (t : StreamTransport Straying),
      connect "127.0.0.1:8560" .default 0 (Wire.ofPeer .reachable ⟨Frame.encode Straying.stray⟩) =
        (.ok c, t) ∧
      c.taken? 0 .background = some 0 ∧ c.HearsResponse 0 .background .count ∧
      (c.perform 0 .background .count).2.OutOfStep 0 := by
  obtain ⟨c, t, hopened, hconfig, hbehind⟩ := opened_behind
  have hl : (bounded c.config.defaultTimeout 0 .background).IsLive 0 := by
    rw [hconfig]
    decide
  have htaken : (Archive.run c []).2.taken? 0 .background = some 0 := hbehind.taken hl
  have hears : c.HearsResponse 0 .background .count := by
    obtain ⟨-, response, t', -, -, hsent, -⟩ := hbehind.exchange Straying.prompt hl
      (r := c.sent 0 .background (Call.method .count) (Call.params .count)) fun _ hj => by cases hj
    exact (hearsResponse_iff hl).mpr ⟨response, by rw [hsent]⟩
  have hnext := (hbehind.perform Straying.prompt hl (show Call.count ≠ .close by simp)).2
  obtain ⟨line, got, hline, hne, hbox⟩ := hnext.unread
  have hkept := (kept_for_any_response hopened [] htaken .count).2 hears (by simp) (by decide)
  have hinbox : (c.perform 0 .background .count).2.transport.wire.inbox 0 = Frame.encode line := by
    rw [Wire.inbox_eq, hbox, Option.getD_some]
  exact ⟨c, t, hopened, htaken, hears, hkept.2 (fun p => p.extra = []) line got
    (hnext.frameSize ▸ Straying.prompt) hnext.peer hinbox (hnext.frameSize ▸ hline) hne⟩

/-- **One stray line makes more than one call fail.** The first call after the handshake fails for
the response to another request; the next call gets the same connection and fails as well. -/
theorem stray_line_fails_next_call :
    ∃ (c : RemoteArchive (StreamTransport Straying)) (t : StreamTransport Straying),
      connect "127.0.0.1:8560" .default 0 (Wire.ofPeer .reachable ⟨Frame.encode Straying.stray⟩) =
        (.ok c, t) ∧
      let after := (c.perform 0 .background .count).2
      (c.taken? 0 .background = some 0 ∧ ∃ got, got ≠ c.nextId ∧
        (c.perform 0 .background .count).1 = .error (.mismatch got c.nextId)) ∧
      after.taken? 0 .background = some 0 ∧ ∃ got, got ≠ after.nextId ∧
        (after.perform 0 .background .count).1 = .error (.mismatch got after.nextId) := by
  obtain ⟨c, t, hopened, hconfig, hbehind⟩ := opened_behind
  have hl : (bounded c.config.defaultTimeout 0 .background).IsLive 0 := by
    rw [hconfig]
    decide
  obtain ⟨hfails, hnext⟩ := hbehind.perform Straying.prompt hl (show Call.count ≠ .close by simp)
  have hl' : (bounded (c.perform 0 .background .count).2.config.defaultTimeout 0 .background).IsLive
      0 := by
    rw [config_perform]
    exact hl
  exact ⟨c, t, hopened, ⟨hbehind.taken hl, hfails⟩, hnext.taken hl',
    (hnext.perform Straying.prompt hl' (by simp)).1⟩

end RemoteArchive

end ColdArchive
