import ColdArchive.Proofs.Files.Answers
import ColdArchive.Proofs.Service.Dispatch

/-!
# A remote archive in place of the one behind it

Over a peer in the same program, and while there is time, a remote archive answers every call as the
archive behind the service would, and leaves it in the state in which the call itself would. Only
failures of files come back as their wording.
-/

namespace ColdArchive

/-! ### Time -/

/-- The context is not canceled, and when the request is sent it has a whole millisecond left, with
`timeout` for a call that has no deadline. -/
structure Context.HasTime (ctx : Context) (now : Instant) (timeout : Duration) : Prop where
  notCanceled : ctx.isCanceled now = false
  left : now + (RemoteArchive.lag + Duration.ofMillis 1) ≤ ctx.deadline.getD (now + timeout)

namespace RemoteArchive

/-- The context of a request: every request has a deadline. -/
def bounded (timeout : Duration) (now : Instant) (ctx : Context) : Context :=
  if ctx.deadline.isSome then ctx else ctx.boundedBy now timeout

/-- The request that is sent for a method. -/
def sent {τ : Type} (c : RemoteArchive τ) (now : Instant) (ctx : Context) (m : Method)
    (params : List Json) : Request :=
  (Request.make c.nextId (m.qualified c.config.ns) params).withRemaining
    ((bounded c.config.defaultTimeout now ctx).remaining (now + lag))

theorem lag_pos (now : Instant) : now < now + (lag + Duration.ofMillis 1) :=
  Nat.lt_add_of_pos_right (by decide)

theorem deadline_bounded (timeout : Duration) (now : Instant) (ctx : Context) :
    (bounded timeout now ctx).deadline = some (ctx.deadline.getD (now + timeout)) := by
  cases hd : ctx.deadline <;> simp [bounded, Context.boundedBy, hd]

theorem token_bounded (timeout : Duration) (now : Instant) (ctx : Context) :
    (bounded timeout now ctx).token = ctx.token := by
  cases hd : ctx.deadline <;> simp [bounded, Context.boundedBy, hd]

section Time

variable {ctx : Context} {now : Instant} {timeout : Duration}

theorem isLive_of_hasTime (h : ctx.HasTime now timeout) : ctx.IsLive now := by
  refine Context.isLive_iff.mpr ⟨h.notCanceled, ?_⟩
  unfold Context.isExpired
  cases hd : ctx.deadline with
  | none => rfl
  | some deadline =>
    have hl := h.left
    rw [hd, Option.getD_some] at hl
    simpa using Nat.lt_of_lt_of_le (lag_pos now) hl

theorem isLive_bounded (h : ctx.HasTime now timeout) : (bounded timeout now ctx).IsLive now := by
  refine Context.isLive_iff.mpr ⟨?_, ?_⟩
  · rw [Context.isCanceled, token_bounded]
    exact h.notCanceled
  · rw [Context.isExpired, deadline_bounded]
    simpa using Nat.lt_of_lt_of_le (lag_pos now) h.left

/-- What is sent of the time that is left allows for the request to be handled. -/
theorem remaining_bounded (h : ctx.HasTime now timeout) (r : Request) :
    ∃ n : UInt64, (r.withRemaining ((bounded timeout now ctx).remaining (now + lag))).deadlineMillis
      = some n ∧ 0 < n.toNat := by
  have hl := h.left
  rw [Request.withRemaining, Context.remaining, deadline_bounded]
  refine ⟨_, rfl, ?_⟩
  generalize ctx.deadline.getD (now + timeout) = deadline at hl
  have hm : 0 < Duration.millis (deadline - (now + lag)) := by
    refine Nat.div_pos (Nat.le_sub_of_add_le' ?_) (by decide)
    rw [Nat.add_assoc]
    exact hl
  have hlt : min (Duration.millis (deadline - (now + lag))) Request.greatestMillis < wordLimit :=
    Nat.lt_of_le_of_lt (Nat.min_le_right _ _) (by decide)
  rw [toNat_ofNat hlt]
  exact Nat.lt_min.mpr ⟨hm, by decide⟩

end Time

/-! ### This side -/

section ThisSide

variable {τ : Type} [Transport τ] {c : RemoteArchive τ} {now : Instant} {ctx : Context}

/-- Nothing is sent for an archive that is closed on this side. -/
theorem perform_of_closed (hc : c.closed = true) (call : Call) :
    c.perform now ctx call = (if call = .close then .ok .done else .error .closed, c) := by
  cases call <;> simp [perform, hc]

theorem perform_of_open {call : Call} (hc : c.closed = false) (hclose : call ≠ .close) :
    c.perform now ctx call =
      ((c.request now ctx call.method call.params).1.bind call.readReply,
        (c.request now ctx call.method call.params).2) := by
  cases call <;> first | exact absurd rfl hclose | simp [perform, hc]

theorem close_of_open (hc : c.closed = false) {answer : Except StoreError Json}
    {c' : RemoteArchive τ}
    (hreq : request { c with closed := true } now ctx .close [] = (answer, c')) :
    c.perform now ctx .close =
      (answer.map fun _ => .done, { c' with transport := Transport.close c'.transport now }) := by
  simp only [perform, hc, hreq]
  rfl

end ThisSide

/-! ### One request -/

variable {σ : Type} [Archive σ]

section Request

variable [Json.Wording] {service : Service} {now : Instant} {s s' : σ}

/-- A peer in the same program is heard as it answers. -/
theorem exchange_eq {link : Loopback (Served σ)} {ctx : Context} (hl : ctx.IsLive now)
    (hpeer : link.peer = ⟨service, s⟩) (hcon : link.connected = true) {r : Request}
    {response : Response} (hplain : response.Plain)
    (hr : service.handleLine (.at now) Token.live r.encode s = (response, s')) :
    Transport.exchange link now ctx r =
      (.ok response.received, { link with peer := ⟨service, s'⟩ }) := by
  have hl : ctx.check now = .ok () := hl
  show Loopback.exchange link now ctx r = _
  simp only [Loopback.exchange, hl, hcon, if_true, hpeer, LinePeer.answer, hr,
    Response.decode_encode hplain]

/-- The line of a request with some time left is answered as its method is. -/
theorem handleLine_eq (htime : 0 < service.requestTimeout) {r : Request} {m : Method}
    (hv : r.rpcVersion = protocol.rpcVersion) (hm : r.method = m.qualified service.ns)
    (hp : ∀ j ∈ r.params, j.Plain 0)
    (hn : ∃ n : UInt64, r.deadlineMillis = some n ∧ 0 < n.toNat) {answer : Except Fault Json}
    (ha : ∀ ctx : Context, ctx.IsLive now →
      Service.dispatch (.at now) ctx m r.params s = (answer, s')) :
    service.handleLine (.at now) Token.live r.encode s = (Service.respond r.id m answer, s') := by
  obtain ⟨n, hn, hpos⟩ := hn
  have hplain : ∀ j ∈ r.params, j.Plain 125 := by
    intro j hj
    exact (hp j hj).mono (Nat.zero_le _)
  rw [service.handleLine_encode (.at now) Token.live hplain,
    service.handleRequest_qualified (.at now) Token.live hv hm,
    Readings.started_at, ha _ (service.isLive_contextFor htime now hn hpos)]

/-- **A request over a peer in the same program** comes back with the answer of the service. -/
theorem request_eq {c : RemoteArchive (Loopback (Served σ))}
    (hpeer : c.transport.peer = ⟨service, s⟩) (hcon : c.transport.connected = true)
    (hns : c.config.ns = service.ns) (htime : 0 < service.requestTimeout) {ctx : Context}
    (hctx : ctx.HasTime now c.config.defaultTimeout) {m : Method} {params : List Json}
    (hp : ∀ j ∈ params, j.Plain 0) {answer : Except Fault Json}
    (ha : ∀ ctx' : Context, ctx'.IsLive now →
      Service.dispatch (.at now) ctx' m params s = (answer, s'))
    (hplain : ∀ id, (Service.respond id m answer).Plain) :
    c.request now ctx m params =
      (answer.mapError Fault.toError,
        { c with
          nextId := c.nextId + 1
          transport := { c.transport with peer := ⟨service, s'⟩ } }) := by
  let r := (Request.make c.nextId (m.qualified c.config.ns) params).withRemaining
    ((bounded c.config.defaultTimeout now ctx).remaining (now + lag))
  have hm : r.method = m.qualified service.ns := by
    rw [← hns]
    rfl
  have hr : service.handleLine (.at now) Token.live r.encode s =
      (Service.respond c.nextId m answer, s') :=
    handleLine_eq htime rfl hm hp (remaining_bounded hctx _) ha
  have hl := isLive_bounded hctx
  have hexchange := exchange_eq hl hpeer hcon (hplain c.nextId) hr
  have hlive : (bounded c.config.defaultTimeout now ctx).check now = .ok () := hl
  have hid : (Service.respond c.nextId m answer).received.id = some c.nextId :=
    Service.id_respond c.nextId m answer
  unfold request
  rw [show (if ctx.deadline.isSome then ctx else ctx.boundedBy now c.config.defaultTimeout)
    = bounded c.config.defaultTimeout now ctx from rfl]
  simp only [hlive, show (Request.make c.nextId (m.qualified c.config.ns) params).withRemaining
    ((bounded c.config.defaultTimeout now ctx).remaining (now + lag)) = r from rfl, hexchange, hid,
    if_true, Response.outcome_received, Service.outcome_respond]

end Request

end RemoteArchive

/-! ### A remote archive and the archive behind it -/

/-- An error as it comes back from the other side: failures of files come back as their wording. -/
def StoreError.relayed : StoreError → StoreError
  | .corrupted reason => .engine (StoreError.corrupted reason).message
  | .io cause => .engine (StoreError.io cause).message
  | e => e

/-- The outcome of a call as it comes back from the other side. -/
def Outcome.relayed (o : Outcome) : Outcome := o.mapError StoreError.relayed

namespace RemoteArchive

variable {σ : Type} [Archive σ]

theorem toError_ofError {e : StoreError} (h : e.IsLocal) (hf : e.Fits) :
    (Fault.ofError e).toError = e.relayed := by
  rw [Fault.toError_ofError hf]
  cases e <;> first | exact h.elim | rfl

/-- **The outcome of a call crosses the wire.** -/
theorem outcome_relayed {call : Call} {o : Outcome} (h : o.IsLocal call) (hf : o.Fits) :
    ((((o.map Reply.toJson).mapError Fault.ofError).mapError Fault.toError).bind call.readReply) =
      o.relayed := by
  cases o with
  | ok reply => exact Call.readReply_toJson (h.suits reply rfl) hf
  | error e => exact congrArg Except.error (toError_ofError (h.fails e rfl) hf)

theorem plain_answer {o : Outcome} (id : UInt64) (m : Method) :
    (Service.respond id m ((o.map Reply.toJson).mapError Fault.ofError)).Plain := by
  cases o with
  | ok reply => exact Service.plain_respond_ok id m reply.plain_toJson
  | error e => exact Service.plain_respond_error id m e

/-- The remote archive with these settings stands before the archive `s` behind the service, and is
closed only if that is. -/
structure Fronts (config : RemoteConfig) (service : Service)
    (c : RemoteArchive (Loopback (Served σ))) (s : σ) : Prop where
  config : c.config = config
  peer : c.transport.peer = ⟨service, s⟩
  connected : c.closed = false → c.transport.connected = true
  closed : c.closed = true → Archive.IsClosed s

section Run

variable [Json.Wording] {config : RemoteConfig} {service : Service}
  {c : RemoteArchive (Loopback (Served σ))} {s : σ} {now : Instant} {ctx : Context} {call : Call}

/-- **The handshake** finds the version in use and leaves the archive as it is. -/
theorem openOver_eq (hns : config.ns = service.ns) (htime : 0 < service.requestTimeout)
    (hconnect : lag + Duration.ofMillis 1 ≤ config.connectTimeout) (start : Instant) (s : σ) :
    ∃ c, (openOver (Loopback.ofPeer (Served.mk service s)) config start).1 = .ok c ∧
      Fronts config service c s := by
  have hctx : (Context.background.withTimeout start config.connectTimeout).HasTime start
      config.defaultTimeout := ⟨rfl, Nat.add_le_add_left hconnect start⟩
  have hreq : request ⟨Loopback.ofPeer (Served.mk service s), config, 1, "", false⟩ start
      (Context.background.withTimeout start config.connectTimeout) .pingVersion [] = _ :=
    request_eq rfl rfl hns htime hctx (fun j hj => by cases hj)
      (fun ctx' hl => Service.dispatch_pingVersion hl s)
      fun id => Service.plain_respond_ok id _ trivial
  rw [openOver, hreq]
  exact ⟨_, rfl, rfl, rfl, fun _ => rfl, fun hc => by cases hc⟩

variable [LocalArchive σ]

/-- A request for a call, over an open transport. -/
theorem request_call (call : Call) (hpeer : c.transport.peer = ⟨service, s⟩)
    (hcon : c.transport.connected = true) (hns : c.config.ns = service.ns)
    (htime : 0 < service.requestTimeout)
    (hctx : ctx.HasTime now c.config.defaultTimeout) (hcall : call.Fits) :
    c.request now ctx call.method call.params =
      ((((Archive.perform s now ctx call).1.map Reply.toJson).mapError Fault.ofError).mapError
          Fault.toError,
        { c with
          nextId := c.nextId + 1
          transport := { c.transport with
            peer := ⟨service, (Archive.perform s now ctx call).2⟩ } }) := by
  refine request_eq hpeer hcon hns htime hctx call.plain_params ?_
    fun id => plain_answer id call.method
  intro ctx' hl
  rw [Service.dispatch_call hl hcall, Readings.performed_at,
    LocalArchive.live s now now ctx' ctx call hl (isLive_of_hasTime hctx)]

/-- **One call** has the same outcome on both sides, and leaves the same archive behind. -/
theorem Fronts.perform (h : Fronts config service c s) (hns : config.ns = service.ns)
    (htime : 0 < service.requestTimeout) (hctx : ctx.HasTime now config.defaultTimeout)
    (hcall : call.Fits) (hfit : (Archive.perform s now ctx call).1.Fits) :
    (Archive.perform c now ctx call).1 = (Archive.perform s now ctx call).1.relayed ∧
      Fronts config service (Archive.perform c now ctx call).2
        (Archive.perform s now ctx call).2 := by
  obtain ⟨rfl, hpeer, hcon, hclosed⟩ := h
  show (c.perform now ctx call).1 = _ ∧ Fronts _ service (c.perform now ctx call).2 _
  by_cases hclose : call = .close
  · subst hclose
    cases hc : c.closed with
    | true =>
      -- the second close asks for nothing, and the archive behind was closed by the first
      rw [perform_of_closed hc, hclosed hc now ctx .close (isLive_of_hasTime hctx)]
      exact ⟨rfl, rfl, hpeer, hcon, hclosed⟩
    | false =>
      obtain ⟨hdone, hs⟩ := LocalArchive.close s now ctx
      have hreq : request { c with closed := true } now ctx .close [] = _ :=
        request_call .close hpeer (hcon hc) hns htime hctx hcall
      rw [close_of_open hc hreq, hdone]
      exact ⟨rfl, rfl, rfl, fun hopen => (by cases hopen), fun _ => hs⟩
  · cases hc : c.closed with
    | true =>
      rw [perform_of_closed hc, hclosed hc now ctx call (isLive_of_hasTime hctx), if_neg hclose]
      exact ⟨rfl, rfl, hpeer, hcon, hclosed⟩
    | false =>
      rw [perform_of_open hc hclose, request_call call hpeer (hcon hc) hns htime hctx hcall]
      refine ⟨outcome_relayed (LocalArchive.outcome s now ctx call) hfit, rfl, rfl,
        fun _ => hcon hc, ?_⟩
      intro hclosed
      rw [hc] at hclosed
      cases hclosed

/-- **A run of calls** has the same outcomes on both sides. -/
theorem Fronts.run (h : Fronts config service c s) (hns : config.ns = service.ns)
    (htime : 0 < service.requestTimeout) {calls : List (Instant × Context × Call)}
    (hcalls : ∀ now ctx call, (now, ctx, call) ∈ calls →
      ctx.HasTime now config.defaultTimeout ∧ call.Fits)
    (hfit : ∀ o ∈ (Archive.run s calls).1, o.Fits) :
    (Archive.run c calls).1 = (Archive.run s calls).1.map Outcome.relayed ∧
      Fronts config service (Archive.run c calls).2 (Archive.run s calls).2 := by
  induction calls generalizing c s with
  | nil => exact ⟨rfl, h⟩
  | cons first calls ih =>
    obtain ⟨now, ctx, call⟩ := first
    obtain ⟨hctx, hcall⟩ := hcalls now ctx call (by simp)
    obtain ⟨ho, hnext⟩ := h.perform hns htime hctx hcall (hfit _ (by simp [Archive.run]))
    obtain ⟨hos, hlast⟩ := ih hnext (fun now ctx call hm => hcalls now ctx call (by simp [hm]))
      fun o hm => hfit o (by simp [Archive.run, hm])
    simp only [Archive.run, List.map_cons]
    exact ⟨by rw [ho, hos], hlast⟩

/-- **A remote archive stands in for the one behind it.** Over a peer in the same program, in the
namespace of the service and while neither a context nor the time of the service runs out, a
remote archive on an archive of either kind, in whatever state that is found, answers every call as
the call itself would be answered, except that failures of files come back as their wording; and the
archive behind it is left in the state in which the calls themselves leave it. The numbers that are
sent and answered are of 64 bits. -/
theorem run_substitutes (hns : config.ns = service.ns) (htime : 0 < service.requestTimeout)
    (hconnect : lag + Duration.ofMillis 1 ≤ config.connectTimeout) (start : Instant)
    (s : Hosted × Disk) {calls : List (Instant × Context × Call)}
    (hcalls : ∀ now ctx call, (now, ctx, call) ∈ calls →
      ctx.HasTime now config.defaultTimeout ∧ call.Fits)
    (hfit : ∀ o ∈ (Archive.run s calls).1, o.Fits) :
    ∃ c, (openOver (Loopback.ofPeer (Served.mk service s)) config start).1 = .ok c ∧
      (Archive.run c calls).1 = (Archive.run s calls).1.map Outcome.relayed ∧
      (Archive.run c calls).2.transport.peer = ⟨service, (Archive.run s calls).2⟩ := by
  obtain ⟨c, hc, hfronts⟩ := openOver_eq hns htime hconnect start s
  obtain ⟨hos, hlast⟩ := hfronts.run hns htime hcalls hfit
  exact ⟨c, hc, hos, hlast.peer⟩

end Run

/-- Calls on an empty archive in memory, with the settings unless others are chosen. -/
theorem run_substitutes_after_close :
    let calls : List (Instant × Context × Call) :=
      [(0, .background, .append 0 .empty), (1, .background, .read .hash 0),
        (2, .background, .truncate 7), (3, .background, .close), (4, .background, .count)]
    ∃ c, (openOver (Loopback.ofPeer (Served.mk (Service.ofConfig .default)
        (Hosted.memory .empty, Disk.empty))) .default 0).1 = .ok c ∧
      (Archive.run c calls).1 = [.ok .done, .ok (.blob []),
        .error (.invalidTruncateTarget 7 1), .ok .done, .error .closed] := by
  intro calls
  have hrun : (Archive.run (Hosted.memory .empty, Disk.empty) calls).1 = [.ok .done, .ok (.blob []),
      .error (.invalidTruncateTarget 7 1), .ok .done, .error .closed] := rfl
  have hcalls : ∀ now ctx call, (now, ctx, call) ∈ calls →
      ctx.HasTime now RemoteConfig.default.defaultTimeout ∧ call.Fits := by
    intro now ctx call hm
    simp only [calls, List.mem_cons, List.not_mem_nil, or_false, Prod.mk.injEq] at hm
    rcases hm with ⟨rfl, rfl, rfl⟩ | ⟨rfl, rfl, rfl⟩ | ⟨rfl, rfl, rfl⟩ | ⟨rfl, rfl, rfl⟩ |
      ⟨rfl, rfl, rfl⟩ <;>
    exact ⟨⟨rfl, by decide⟩, by simp [Call.Fits, wordLimit]⟩
  have hfit : ∀ o ∈ (Archive.run (Hosted.memory .empty, Disk.empty) calls).1, o.Fits := by
    rw [hrun]
    simp [Outcome.Fits, Reply.Fits, StoreError.Fits, wordLimit]
  obtain ⟨c, hc, ho, -⟩ := run_substitutes
    (show RemoteConfig.default.ns = (Service.ofConfig .default).ns from rfl) (by decide) (by decide)
    0 (Hosted.memory .empty, Disk.empty) hcalls hfit
  exact ⟨c, hc, ho.trans (congrArg (List.map Outcome.relayed) hrun)⟩

end RemoteArchive

end ColdArchive
