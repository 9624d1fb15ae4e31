import ColdArchive.Proofs.Remote.Substitution
import ColdArchive.Proofs.Service.Responses

/-!
# Closing from afar

A remote archive is closed on this side by the first close, whatever becomes of the request, and only
that close is sent. If it is granted, the archive behind was closed, and stays so. If it fails, every
later close is granted all the same, so what that says about the archive behind depends on the first.
-/

namespace ColdArchive

theorem Response.error_eq_none_of_outcome {r : Response} {result : Json}
    (h : r.outcome = .ok result) : r.error = none := by
  unfold outcome at h
  split at h
  · cases h
  · next hnone => exact hnone

/-! ### The side of the service -/

namespace Service

variable {σ : Type} [Archive σ] [LocalArchive σ]

/-- A close that a service grants has closed the archive, in whatever namespace it was asked for. -/
theorem isClosed_of_granted [Json.Wording] (s : Service) (now : Readings) (token : Token)
    {r : Request} {ns : String}
    (hm : r.method = Method.close.qualified ns) (hp : r.params = []) {a : σ}
    (hgranted : (s.handleLine now token r.encode a).1.error = none) :
    Archive.IsClosed (s.handleLine now token r.encode a).2 := by
  rcases handleLine_cases s now token r.encode a with
    ⟨response, hrefused, herror⟩ | ⟨call, ctx, response, hcall, hanswered, -, -⟩
  · rw [hrefused] at hgranted
    exact absurd hgranted herror
  · obtain ⟨r', m, hr, hm', hparams⟩ := callOf?_eq_some_iff.mp hcall
    obtain rfl : r = r' := Option.some.inj ((requestOf?_encode (by simp [hp])).symm.trans hr)
    obtain rfl : Method.close = m := (Method.qualified_injective (hm.symm.trans hm')).2
    obtain rfl : WireCall.close = call := Except.ok.inj hparams
    rw [hanswered]
    exact (LocalArchive.close a now.performed ctx).2

end Service

namespace RemoteArchive

/-- No close among the calls has failed. -/
def ClosesGranted (calls : List (Instant × Context × Call)) (outcomes : List Outcome) : Prop :=
  ∀ exchange ∈ calls.zip outcomes, exchange.1.2.2 = .close → exchange.2 = .ok .done

/-! ### This side -/

section ThisSide

variable {τ : Type} [Transport τ] {c : RemoteArchive τ} {now : Instant} {ctx : Context}

theorem request_of_lost {m : Method} {params : List Json} {e : StoreError}
    (hlost : (bounded c.config.defaultTimeout now ctx).check now = .error e) :
    c.request now ctx m params = (.error e, c) := by
  unfold bounded at hlost
  simp only [request, hlost]

/-- **What becomes of a request**: there is no time for it, or it is sent, and a result is that of
the response. -/
theorem request_cases (c : RemoteArchive τ) (now : Instant) (ctx : Context) (m : Method)
    (params : List Json) :
    (∃ e, c.request now ctx m params = (.error e, c)) ∨
      ∃ r answer transport, r.method = m.qualified c.config.ns ∧ r.params = params ∧
        Transport.exchange c.transport now (bounded c.config.defaultTimeout now ctx) r =
          (answer, transport) ∧
        (c.request now ctx m params).2 =
          { c with nextId := c.nextId + 1, transport := transport } ∧
        ∀ result, (c.request now ctx m params).1 = .ok result →
          ∃ response, answer = .ok response ∧ response.outcome = .ok result := by
  cases hlive : (bounded c.config.defaultTimeout now ctx).check now with
  | error e => exact .inl ⟨e, request_of_lost hlive⟩
  | ok =>
    refine .inr ⟨(Request.make c.nextId (m.qualified c.config.ns) params).withRemaining
      ((bounded c.config.defaultTimeout now ctx).remaining (now + lag)), _, _, rfl, rfl, rfl, ?_⟩
    unfold bounded at hlive ⊢
    simp only [request, hlive]
    split
    · next e he => exact ⟨rfl, fun _ h => by cases h⟩
    · next response hresponse =>
      split
      · exact ⟨rfl, fun _ h => ⟨response, hresponse, h⟩⟩
      · split
        · exact ⟨rfl, fun _ h => ⟨response, hresponse, h⟩⟩
        · exact ⟨rfl, fun _ h => by cases h⟩

theorem closed_request (c : RemoteArchive τ) (now : Instant) (ctx : Context) (m : Method)
    (params : List Json) : (c.request now ctx m params).2.closed = c.closed := by
  rcases c.request_cases now ctx m params with ⟨e, h⟩ | ⟨r, answer, transport, -, -, -, h, -⟩ <;>
    rw [h]

theorem closed_of_openOver {transport : τ} {config : RemoteConfig} {start : Instant}
    (h : (openOver transport config start).1 = .ok c) : c.closed = false := by
  unfold openOver at h
  simp only at h
  split at h
  · cases h
  · split at h
    · cases h
      exact closed_request _ _ _ _ _
    · cases h

/-- A close closes this side, and nothing opens it again. -/
theorem closed_perform (c : RemoteArchive τ) (now : Instant) (ctx : Context) (call : Call) :
    (c.perform now ctx call).2.closed = true ↔ c.closed = true ∨ call = .close := by
  cases hc : c.closed with
  | true => simp [perform_of_closed hc, hc]
  | false =>
    by_cases hclose : call = .close
    · subst hclose
      simp [perform, hc, closed_request]
    · simp [perform_of_open hc hclose, closed_request, hc, hclose]

theorem closed_run (c : RemoteArchive τ) (calls : List (Instant × Context × Call)) :
    (Archive.run c calls).2.closed = true ↔
      c.closed = true ∨ ∃ asked ∈ calls, asked.2.2 = .close := by
  induction calls generalizing c with
  | nil => simp [Archive.run]
  | cons first calls ih =>
    obtain ⟨now, ctx, call⟩ := first
    have hfirst : (Archive.perform c now ctx call).2.closed = true ↔ _ :=
      c.closed_perform now ctx call
    simp [Archive.run, ih, hfirst, or_assoc]

/-- A close for which there is no time is not sent, but closes this side. -/
theorem close_of_lost (hc : c.closed = false) {e : StoreError}
    (hlost : (bounded c.config.defaultTimeout now ctx).check now = .error e) :
    c.perform now ctx .close =
      (.error e, { c with closed := true, transport := Transport.close c.transport now }) := by
  have hreq : request { c with closed := true } now ctx .close [] =
      (.error e, { c with closed := true }) := request_of_lost hlost
  rw [close_of_open hc hreq]
  rfl

end ThisSide

/-! ### Both sides -/

section BothSides

variable [Json.Wording] {σ : Type} [Archive σ]

/-- The archive behind the service at the other end. -/
def behind (c : RemoteArchive (Loopback (Served σ))) : σ := c.transport.peer.archive

/-- A response from a peer in the same program is the one that its service made. -/
theorem exchange_ok {link link' : Loopback (Served σ)} {now : Instant} {ctx : Context} {r : Request}
    {response : Response} (h : Transport.exchange link now ctx r = (.ok response, link')) :
    response = (link.peer.service.handleLine (.at now) Token.live r.encode
        link.peer.archive).1.received ∧
      link'.peer.archive =
        (link.peer.service.handleLine (.at now) Token.live r.encode link.peer.archive).2 := by
  cases hl : ctx.check now with
  | error e => simp [Transport.exchange, Loopback.exchange, hl] at h
  | ok =>
    cases hcon : link.connected with
    | false => simp [Transport.exchange, Loopback.exchange, hl, hcon] at h
    | true =>
      have hplain :=
        link.peer.service.plain_handleLine (.at now) Token.live r.encode link.peer.archive
      -- the answer is a name from here on, so that nothing below evaluates the service
      generalize hanswer :
        link.peer.service.handleLine (.at now) Token.live r.encode link.peer.archive = answered
        at hplain ⊢
      obtain ⟨response, s⟩ := answered
      rw [exchange_eq hl rfl hcon hplain hanswer] at h
      cases h
      exact ⟨rfl, rfl⟩

/-- What a request did on the other side if it came back with a result. -/
theorem request_ok {c c' : RemoteArchive (Loopback (Served σ))} {now : Instant} {ctx : Context}
    {m : Method} {params : List Json} {result : Json}
    (h : c.request now ctx m params = (.ok result, c')) :
    ∃ r : Request, r.method = m.qualified c.config.ns ∧ r.params = params ∧
      (c.transport.peer.service.handleLine (.at now) Token.live r.encode c.behind).1.error = none ∧
      c'.behind = (c.transport.peer.service.handleLine (.at now) Token.live r.encode c.behind).2 := by
  rcases c.request_cases now ctx m params with
    ⟨e, hlost⟩ | ⟨r, answer, transport, hm, hp, hexchange, hafter, hresult⟩
  · rw [hlost] at h
    cases h
  · rw [h] at hafter hresult
    obtain ⟨response, rfl, houtcome⟩ := hresult result rfl
    obtain ⟨rfl, harchive⟩ := exchange_ok hexchange
    refine ⟨r, hm, hp, ?_, ?_⟩
    · rw [Response.outcome_received] at houtcome
      exact Response.error_eq_none_of_outcome houtcome
    · exact (congrArg behind hafter).trans harchive

variable [LocalArchive σ] {c : RemoteArchive (Loopback (Served σ))} {now : Instant} {ctx : Context}

/-- **A close that is sent and granted** has closed the archive behind. -/
theorem isClosed_of_close (hc : c.closed = false)
    (hgranted : (c.perform now ctx .close).1 = .ok .done) :
    Archive.IsClosed (c.perform now ctx .close).2.behind := by
  obtain ⟨answer, c', hreq⟩ : ∃ answer c',
      request { c with closed := true } now ctx .close [] = (answer, c') := ⟨_, _, rfl⟩
  rw [close_of_open hc hreq] at hgranted ⊢
  cases answer with
  | error e => cases hgranted
  | ok result =>
    obtain ⟨r, hm, hp, hnone, hbehind⟩ := request_ok hreq
    have hclosed := Service.isClosed_of_granted _ _ _ hm hp hnone
    rw [← hbehind] at hclosed
    exact hclosed

/-- What is closed on this side is closed on the other. -/
def ClosedBehind (c : RemoteArchive (Loopback (Served σ))) : Prop :=
  c.closed = true → Archive.IsClosed c.behind

theorem ClosedBehind.perform (h : c.ClosedBehind) {call : Call}
    (hgranted : call = .close → (c.perform now ctx call).1 = .ok .done) :
    (c.perform now ctx call).2.ClosedBehind := by
  cases hc : c.closed with
  | true =>
    rw [perform_of_closed hc]
    exact h
  | false =>
    -- only a close can close this side, and this one was granted
    intro hclosed
    have hclose : call = .close := by simpa [hc] using (c.closed_perform now ctx call).mp hclosed
    subst hclose
    exact isClosed_of_close hc (hgranted rfl)

theorem ClosedBehind.run (h : c.ClosedBehind)
    {calls : List (Instant × Context × Call)}
    (hgranted : ClosesGranted calls (Archive.run c calls).1) :
    (Archive.run c calls).2.ClosedBehind := by
  induction calls generalizing c with
  | nil => exact h
  | cons first calls ih =>
    obtain ⟨now, ctx, call⟩ := first
    simp only [Archive.run, ClosesGranted, List.zip_cons_cons, List.forall_mem_cons] at hgranted ⊢
    exact ih (h.perform hgranted.1) hgranted.2

end BothSides

/-- **What a granted close tells.** For an archive of either kind, in whatever state it is found,
behind a peer in the same program, and for calls under whatever contexts: if no close before has
failed, a close that is granted leaves the archive behind closed. If one has, every later close is
granted without anything being sent. -/
theorem isClosed_of_closes_granted [Json.Wording] {service : Service} {config : RemoteConfig}
    {start : Instant} {s : Hosted × Disk} {c : RemoteArchive (Loopback (Served (Hosted × Disk)))}
    (hopen : (openOver (Loopback.ofPeer (Served.mk service s)) config start).1 = .ok c)
    (calls : List (Instant × Context × Call)) (now : Instant) (ctx : Context) :
    let after := (Archive.run c calls).2
    (ClosesGranted calls (Archive.run c calls).1 →
      (Archive.perform after now ctx .close).1 = .ok .done →
        Archive.IsClosed (Archive.perform after now ctx .close).2.behind) ∧
    (¬ ClosesGranted calls (Archive.run c calls).1 →
      Archive.perform after now ctx .close = (.ok .done, after)) := by
  intro after
  have hstart : c.ClosedBehind := by
    intro hclosed
    rw [closed_of_openOver hopen] at hclosed
    cases hclosed
  constructor
  · intro hcalls hgranted
    have hlast : (after.perform now ctx .close).2.ClosedBehind :=
      (hstart.run hcalls).perform fun _ => hgranted
    exact hlast ((after.closed_perform now ctx .close).mpr (.inr rfl))
  · intro hcalls
    obtain ⟨exchange, hmem, hclose, -⟩ :
        ∃ exchange ∈ calls.zip (Archive.run c calls).1, exchange.1.2.2 = .close ∧
          exchange.2 ≠ .ok .done := by
      simpa [ClosesGranted] using hcalls
    have hclosed : after.closed = true :=
      (c.closed_run calls).mpr (.inr ⟨exchange.1, (List.of_mem_zip hmem).1, hclose⟩)
    exact perform_of_closed hclosed .close

/-- An append and two closes, all of them granted. -/
theorem isClosed_of_closes_granted_after_append :
    let calls : List (Instant × Context × Call) :=
      [(0, .background, .append 0 .empty), (1, .background, .close)]
    ∃ c, (openOver (Loopback.ofPeer (Served.mk (Service.ofConfig .default)
        (Hosted.memory .empty, Disk.empty))) .default 0).1 = .ok c ∧
      (Archive.run c calls).1 = [.ok .done, .ok .done] ∧
      Archive.IsClosed
        (Archive.perform (Archive.run c calls).2 2 .background .close).2.behind := by
  intro calls
  obtain ⟨c, hopen, hfronts⟩ := openOver_eq
    (show RemoteConfig.default.ns = (Service.ofConfig .default).ns from rfl) (by decide) (by decide)
    0 (Hosted.memory .empty, Disk.empty)
  have hcalls : ∀ now ctx call, (now, ctx, call) ∈ calls →
      ctx.HasTime now RemoteConfig.default.defaultTimeout ∧ call.Fits := by
    intro now ctx call hm
    simp only [calls, List.mem_cons, List.not_mem_nil, or_false, Prod.mk.injEq] at hm
    rcases hm with ⟨rfl, rfl, rfl⟩ | ⟨rfl, rfl, rfl⟩ <;>
    exact ⟨⟨rfl, by decide⟩, by simp [Call.Fits, wordLimit]⟩
  have hrun : (Archive.run (Hosted.memory .empty, Disk.empty) calls).1 =
      [.ok .done, .ok .done] := rfl
  have houtcomes : (Archive.run c calls).1 = [.ok .done, .ok .done] := by
    rw [(hfronts.run rfl (by decide) hcalls (by rw [hrun]; simp [Outcome.Fits, Reply.Fits])).1, hrun]
    rfl
  have hclosed : (Archive.run c calls).2.closed = true :=
    (c.closed_run calls).mpr (.inr ⟨(1, .background, .close), by simp [calls], rfl⟩)
  refine ⟨c, hopen, houtcomes, (isClosed_of_closes_granted hopen calls 2 .background).1 ?_ ?_⟩
  · rw [houtcomes]
    simp [ClosesGranted, calls]
  · exact congrArg Prod.fst (perform_of_closed hclosed .close)

/-- A close that was canceled before it could be sent is followed by one that is granted, and the
archive behind goes on answering. -/
theorem granted_close_leaves_open :
    let calls : List (Instant × Context × Call) :=
      [(1, Context.background.withToken .fired, .close), (2, .background, .close)]
    ∃ c, (openOver (Loopback.ofPeer (Served.mk (Service.ofConfig .default)
        (Hosted.memory .empty, Disk.empty))) .default 0).1 = .ok c ∧
      (Archive.run c calls).1 = [.error .canceled, .ok .done] ∧
      ¬ Archive.IsClosed (Archive.run c calls).2.behind := by
  intro calls
  obtain ⟨c, hopen, hfronts⟩ := openOver_eq
    (show RemoteConfig.default.ns = (Service.ofConfig .default).ns from rfl) (by decide) (by decide)
    0 (Hosted.memory .empty, Disk.empty)
  have hfirst : Archive.perform c 1 (Context.background.withToken .fired) .close =
      (.error .canceled, { c with closed := true, transport := Transport.close c.transport 1 }) :=
    close_of_lost (closed_of_openOver hopen) rfl
  generalize hafter : { c with closed := true, transport := Transport.close c.transport 1 } = after
    at hfirst
  have hsecond : Archive.perform after 2 .background .close = (.ok .done, after) :=
    perform_of_closed (by rw [← hafter]) .close
  have hbehind : after.behind = (Hosted.memory .empty, Disk.empty) := by
    rw [← hafter]
    exact congrArg Served.archive hfronts.peer
  have hrun : Archive.run c calls = ([.error .canceled, .ok .done], after) := by
    simp only [calls, Archive.run, hfirst, hsecond]
  refine ⟨c, hopen, by rw [hrun], fun hclosed => ?_⟩
  rw [hrun] at hclosed
  have hcount := congrArg Prod.fst (hclosed 3 .background .count rfl)
  rw [hbehind] at hcount
  cases (show (.ok (.number 0) : Outcome) = .error .closed from hcount)

end RemoteArchive

end ColdArchive
