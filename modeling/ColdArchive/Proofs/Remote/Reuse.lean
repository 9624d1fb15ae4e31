import ColdArchive.Proofs.Remote.Acceptance
import ColdArchive.Remote.Connect

/-!
# Which connections are used again

A call takes the connection in front of the pool, or a new one where the pool is empty. If it hears
no response, the connection is let go, and no later call gets it. If it hears one, the connection
goes in front, and the next call gets it. Whose response it was is asked only afterwards.
-/

namespace ColdArchive

/-! ### What becomes of the pool -/

namespace StreamTransport

section Places

variable {π : Type} {t t' : StreamTransport π} {id : Nat}

/-- A connection was lent: the one in front of the pool, or a new one where the pool is empty. -/
structure Lends (t : StreamTransport π) (id : Nat) (t' : StreamTransport π) : Prop where
  maxIdle : t'.pool.maxIdle = t.pool.maxIdle
  closed : t'.pool.closed = t.pool.closed
  source : (t.pool.idle = id :: t'.pool.idle ∧ t'.wire.dialed = t.wire.dialed) ∨
    (t.pool.idle = [] ∧ t'.pool.idle = [] ∧ id = t.wire.dialed ∧
      t'.wire.dialed = t.wire.dialed + 1)

/-- The idle connections are different ones that were made, and no more than the limit. -/
structure Pooled (limit : Nat) (t : StreamTransport π) : Prop where
  nodup : t.pool.idle.Nodup
  made : ∀ id ∈ t.pool.idle, id < t.wire.dialed
  maxIdle : t.pool.maxIdle = limit
  room : t.pool.idle.length ≤ limit

/-- The connection was made and is not in the pool any more. -/
structure Gone (id : Nat) (t : StreamTransport π) : Prop where
  made : id < t.wire.dialed
  notIdle : id ∉ t.pool.idle

variable {limit : Nat}

theorem Lends.pooled (h : t.Lends id t') (hp : t.Pooled limit) : t'.Pooled limit ∧ t'.Gone id := by
  have hmax : t'.pool.maxIdle = limit := h.maxIdle.trans hp.maxIdle
  rcases h.source with ⟨hidle, hdialed⟩ | ⟨hidle, hidle', rfl, hdialed⟩
  · obtain ⟨hid, hrest⟩ := List.nodup_cons.mp (hidle ▸ hp.nodup)
    have hmade := hp.made
    have hroom := hp.room
    rw [hidle] at hmade hroom
    rw [← hdialed] at hmade
    exact ⟨⟨hrest, fun k hk => hmade k (List.mem_cons_of_mem _ hk), hmax,
      Nat.le_of_succ_le hroom⟩, hmade id List.mem_cons_self, hid⟩
  · exact ⟨⟨by simp [hidle'], by simp [hidle'], hmax, by simp [hidle']⟩,
      hdialed ▸ Nat.lt_succ_self _, by simp [hidle']⟩

theorem Lends.gone (h : t.Lends id t') {lost : Nat} (hgone : t.Gone lost) :
    lost ≠ id ∧ t'.Gone lost := by
  obtain ⟨hmade, hnot⟩ := hgone
  rcases h.source with ⟨hidle, hdialed⟩ | ⟨-, hidle', rfl, hdialed⟩
  · rw [hidle, List.mem_cons, not_or] at hnot
    exact ⟨hnot.1, hdialed ▸ hmade, hnot.2⟩
  · exact ⟨Nat.ne_of_lt hmade, hdialed ▸ Nat.lt_succ_of_lt hmade, by simp [hidle']⟩

/-- There is room for a connection that was lent, unless none may be idle. -/
theorem Lends.room (h : t.Lends id t') (hp : t.Pooled limit) (hkeeps : 0 < limit) :
    t'.pool.idle.length < t'.pool.maxIdle := by
  rw [h.maxIdle, hp.maxIdle]
  rcases h.source with ⟨hidle, -⟩ | ⟨-, hidle, -, -⟩
  · have hroom := hp.room
    rw [hidle] at hroom
    exact hroom
  · simpa [hidle] using hkeeps

theorem mem_checkIn {p : Pool Nat} {k : Nat} (h : k ∈ (p.checkIn id).idle) :
    k = id ∨ k ∈ p.idle := by
  unfold Pool.checkIn at h
  split at h
  · exact List.mem_cons.mp h
  · exact .inr h

theorem Pooled.returned (hp : t.Pooled limit) (hgone : t.Gone id)
    (hpool : t'.pool = t.pool.checkIn id) (hdialed : t'.wire.dialed = t.wire.dialed) :
    t'.Pooled limit := by
  have hmax : (t.pool.checkIn id).maxIdle = limit := by
    rw [← hp.maxIdle, Pool.checkIn]
    split <;> rfl
  have hnodup : (t.pool.checkIn id).idle.Nodup := by
    rw [Pool.checkIn]
    split
    · exact List.nodup_cons.mpr ⟨hgone.notIdle, hp.nodup⟩
    · exact hp.nodup
  have hroom := Pool.length_checkIn_le id (hp.maxIdle.symm ▸ hp.room)
  refine ⟨hpool ▸ hnodup, fun k hk => ?_, hpool ▸ hmax, hpool ▸ hmax ▸ hroom⟩
  rw [hdialed]
  rcases mem_checkIn (hpool ▸ hk) with rfl | hk
  · exact hgone.made
  · exact hp.made k hk

theorem Gone.returned {lost : Nat} (hgone : t.Gone lost) (hne : lost ≠ id)
    (hpool : t'.pool = t.pool.checkIn id) (hdialed : t'.wire.dialed = t.wire.dialed) :
    t'.Gone lost := by
  refine ⟨hdialed ▸ hgone.made, fun hm => ?_⟩
  rcases mem_checkIn (hpool ▸ hm) with h | h
  · exact hne h
  · exact hgone.notIdle h

theorem Pooled.congr (hp : t.Pooled limit) (hpool : t'.pool = t.pool)
    (hdialed : t'.wire.dialed = t.wire.dialed) : t'.Pooled limit :=
  ⟨hpool ▸ hp.nodup, by rw [hpool, hdialed]; exact hp.made, hpool ▸ hp.maxIdle, hpool ▸ hp.room⟩

theorem Gone.congr (hgone : t.Gone id) (hpool : t'.pool = t.pool)
    (hdialed : t'.wire.dialed = t.wire.dialed) : t'.Gone id :=
  ⟨hdialed ▸ hgone.made, hpool ▸ hgone.notIdle⟩

end Places

section Lending

variable {π : Type} [StreamPeer π] {t t' : StreamTransport π} {now : Instant} {ctx : Context}
  {r : Request} {id : Nat}

/-- The connection that a call gets, if it gets that far. -/
def taken? (t : StreamTransport π) (now : Instant) (ctx : Context) : Option Nat :=
  match ctx.check now with
  | .error _ => none
  | .ok () => if t.pool.closed then none else (t.checkOut now).1.toOption

theorem checkOut_of_idle {rest : List Nat} (h : t.pool.idle = id :: rest) :
    t.checkOut now = (.ok id, { t with pool := { t.pool with idle := rest } }) := by
  simp [checkOut, Pool.checkOut, h]

theorem checkOut_of_empty (h : t.pool.idle = []) : t.checkOut now = t.dial now := by
  simp [checkOut, Pool.checkOut, h]

theorem dial_cases (t : StreamTransport π) (now : Instant) :
    (∃ e, t.dial now = (.error e, t)) ∨
      ∃ wire : Wire π, t.dial now = (.ok t.wire.dialed, { t with wire := wire }) ∧
        wire.dialed = t.wire.dialed + 1 := by
  unfold dial
  split
  · exact .inl ⟨_, rfl⟩
  · unfold Wire.dial
    cases hnetwork : t.wire.network with
    | isolated => exact .inl ⟨_, rfl⟩
    | reachable => exact .inr ⟨_, rfl, rfl⟩

theorem lends_of_checkOut (h : t.checkOut now = (.ok id, t')) : t.Lends id t' := by
  cases hidle : t.pool.idle with
  | cons k rest =>
    rw [checkOut_of_idle hidle] at h
    obtain ⟨hk, rfl⟩ := Prod.mk.inj h
    obtain rfl := Except.ok.inj hk
    exact ⟨rfl, rfl, .inl ⟨hidle, rfl⟩⟩
  | nil =>
    rw [checkOut_of_empty hidle] at h
    rcases t.dial_cases now with ⟨e, hdial⟩ | ⟨wire, hdial, hdialed⟩
    · cases hdial.symm.trans h
    · obtain ⟨hk, rfl⟩ := Prod.mk.inj (hdial.symm.trans h)
      obtain rfl := Except.ok.inj hk
      exact ⟨rfl, rfl, .inr ⟨hidle, hidle, rfl, hdialed⟩⟩

theorem eq_of_checkOut_fails {e : StoreError} (h : t.checkOut now = (.error e, t')) : t' = t := by
  cases hidle : t.pool.idle with
  | cons k rest =>
    rw [checkOut_of_idle hidle] at h
    cases h
  | nil =>
    rw [checkOut_of_empty hidle] at h
    rcases t.dial_cases now with ⟨e', hdial⟩ | ⟨wire, hdial, -⟩
    · exact (Prod.mk.inj (h.symm.trans hdial)).2
    · cases hdial.symm.trans h

/-- **What becomes of an exchange**: it gets no connection and nothing changes, or it goes over the
one that it gets. -/
theorem exchange_cases [Json.Wording] (t : StreamTransport π) (now : Instant) (ctx : Context)
    (r : Request) :
    (t.taken? now ctx = none ∧ ∃ e, t.exchange now ctx r = (.error e, t)) ∨
      ∃ id t', t.taken? now ctx = some id ∧ t.pool.closed = false ∧ t.Lends id t' ∧
        t.exchange now ctx r = t'.converse now ctx r id := by
  unfold taken? exchange
  cases ctx.check now with
  | error e => exact .inl ⟨rfl, e, rfl⟩
  | ok =>
    cases hclosed : t.pool.closed with
    | true => exact .inl ⟨rfl, _, rfl⟩
    | false =>
      obtain ⟨lent, t', hout⟩ : ∃ lent t', t.checkOut now = (lent, t') := ⟨_, _, rfl⟩
      simp only [hout]
      cases lent with
      | error e =>
        obtain rfl := eq_of_checkOut_fails hout
        exact .inl ⟨rfl, e, rfl⟩
      | ok id => exact .inr ⟨id, t', rfl, trivial, lends_of_checkOut hout, rfl⟩

theorem pool_checkIn (t : StreamTransport π) (now : Instant) (id : Nat) :
    (t.checkIn now id).pool = t.pool.checkIn id := by
  unfold checkIn Pool.checkIn
  split <;> rfl

theorem dialed_checkIn (t : StreamTransport π) (now : Instant) (id : Nat) :
    (t.checkIn now id).wire.dialed = t.wire.dialed := by
  unfold checkIn
  split <;> rfl

theorem dialed_send (w : Wire π) (now : Instant) (id : Nat) (bytes : Bytes) :
    (w.send now id bytes).dialed = w.dialed := by
  unfold Wire.send
  split <;> rfl

theorem dialed_close (t : StreamTransport π) (now : Instant) :
    (t.close now).wire.dialed = t.wire.dialed := by
  have hdrained : ∀ (idle : List Nat) (w : Wire π),
      (idle.foldl (fun wire id => wire.hangUp now id) w).dialed = w.dialed := by
    intro idle
    induction idle with
    | nil => exact fun _ => rfl
    | cons k idle ih => exact fun w => ih (w.hangUp now k)
  exact hdrained t.pool.idle t.wire

/-- **A connection is kept for a response**, whatever its id, and let go for everything else. -/
theorem converse_cases [Json.Wording] (t : StreamTransport π) (now : Instant) (ctx : Context)
    (r : Request) (id : Nat) :
    (t.converse now ctx r id).2.wire.dialed = t.wire.dialed ∧
      ((∃ response, (t.converse now ctx r id).1 = .ok response ∧
          (t.converse now ctx r id).2.pool = t.pool.checkIn id) ∨
        ∃ e, (t.converse now ctx r id).1 = .error e ∧
          (t.converse now ctx r id).2.pool = t.pool) := by
  have hsent := dialed_send t.wire now id (Frame.encode r.encode)
  simp only [converse]
  generalize t.wire.send now id (Frame.encode r.encode) = wire at hsent
  cases hfound : wire.receive? t.maxFrameSize id with
  | none => exact ⟨hsent, .inr ⟨_, rfl, rfl⟩⟩
  | some received =>
    obtain ⟨found, wire'⟩ := received
    have hread : wire'.dialed = wire.dialed := by
      unfold Wire.receive? at hfound
      split at hfound
      · obtain ⟨-, rfl⟩ := Prod.mk.inj (Option.some.inj hfound)
        rfl
      · cases hfound
    simp only
    split
    · next response _ =>
      exact ⟨(dialed_checkIn _ now id).trans (hread.trans hsent),
        .inl ⟨response, rfl, pool_checkIn _ now id⟩⟩
    · next e _ => exact ⟨hread.trans hsent, .inr ⟨e, rfl, rfl⟩⟩

end Lending

/-! ### What is let go stays away -/

section Exchanges

variable {π : Type} [StreamPeer π] {t t' : StreamTransport π} {now : Instant} {ctx : Context}
  {r : Request} {id limit : Nat}

/-- The first connection of a transport finds its place in the pool. -/
theorem pooled_of_connect {endpoint : String} {config : RemoteConfig} {wire : Wire π}
    (h : connect endpoint config now wire = (.ok (), t)) : t.Pooled config.maxIdle := by
  have hblank : Pooled config.maxIdle
      ⟨endpoint, config.maxFrameSize, Pool.empty config.maxIdle, wire⟩ :=
    ⟨List.nodup_nil, fun _ h => (List.not_mem_nil h).elim, rfl, Nat.zero_le _⟩
  simp only [connect] at h
  split at h
  · cases h
  · next hdial =>
    obtain rfl := (Prod.mk.inj h).2
    obtain ⟨hp, hgone⟩ := (lends_of_checkOut ((checkOut_of_empty rfl).trans hdial)).pooled hblank
    exact hp.returned hgone (pool_checkIn _ now _) (dialed_checkIn _ now _)

theorem Pooled.close (hp : t.Pooled limit) (now : Instant) : (t.close now).Pooled limit :=
  ⟨List.nodup_nil, fun _ h => (List.not_mem_nil h).elim, hp.maxIdle, Nat.zero_le _⟩

theorem Gone.close (hgone : t.Gone id) (now : Instant) : (t.close now).Gone id :=
  ⟨(dialed_close t now).symm ▸ hgone.made, List.not_mem_nil⟩

theorem taken?_of_front (hl : ctx.IsLive now) (hopen : t.pool.closed = false) {rest : List Nat}
    (hidle : t.pool.idle = id :: rest) : t.taken? now ctx = some id := by
  have hcheck : ctx.check now = .ok () := hl
  simp [taken?, hcheck, hopen, checkOut_of_idle hidle, Except.toOption]

variable [Json.Wording]

theorem Pooled.converse (hp : t.Pooled limit) (hgone : t.Gone id) :
    (t.converse now ctx r id).2.Pooled limit := by
  obtain ⟨hdialed, ⟨-, -, hpool⟩ | ⟨-, -, hpool⟩⟩ := t.converse_cases now ctx r id
  · exact hp.returned hgone hpool hdialed
  · exact hp.congr hpool hdialed

theorem Pooled.exchange (hp : t.Pooled limit) : (t.exchange now ctx r).2.Pooled limit := by
  rcases t.exchange_cases now ctx r with ⟨-, e, h⟩ | ⟨id, t', -, -, hlends, h⟩
  · rw [h]
    exact hp
  · obtain ⟨hp', hgone⟩ := hlends.pooled hp
    rw [h]
    exact hp'.converse hgone

theorem Gone.exchange (hgone : t.Gone id) : (t.exchange now ctx r).2.Gone id := by
  rcases t.exchange_cases now ctx r with ⟨-, e, h⟩ | ⟨id', t', -, -, hlends, h⟩
  · rw [h]
    exact hgone
  · obtain ⟨hne, hgone'⟩ := hlends.gone hgone
    rw [h]
    obtain ⟨hdialed, ⟨-, -, hpool⟩ | ⟨-, -, hpool⟩⟩ := t'.converse_cases now ctx r id'
    · exact hgone'.returned hne hpool hdialed
    · exact hgone'.congr hpool hdialed

/-- **What is gone is not taken.** -/
theorem Gone.not_taken (hgone : t.Gone id) (now : Instant) (ctx : Context) :
    t.taken? now ctx ≠ some id := by
  intro htaken
  -- any request will do to see which connection is lent
  rcases t.exchange_cases now ctx (.make 0 "" []) with
    ⟨hnone, -⟩ | ⟨id', t', hid', -, hlends, -⟩
  · cases hnone.symm.trans htaken
  · obtain rfl := Option.some.inj (hid'.symm.trans htaken)
    exact (hlends.gone hgone).1 rfl

/-- **An exchange without a response loses its connection.** -/
theorem gone_of_exchange_fails (hp : t.Pooled limit) (htaken : t.taken? now ctx = some id)
    {e : StoreError} (hfails : (t.exchange now ctx r).1 = .error e) :
    (t.exchange now ctx r).2.Gone id := by
  rcases t.exchange_cases now ctx r with ⟨hnone, -⟩ | ⟨id', t', hid', -, hlends, h⟩
  · cases hnone.symm.trans htaken
  · obtain rfl := Option.some.inj (hid'.symm.trans htaken)
    rw [h] at hfails ⊢
    obtain ⟨hdialed, ⟨response, hok, -⟩ | ⟨-, -, hpool⟩⟩ := t'.converse_cases now ctx r id'
    · cases hok.symm.trans hfails
    · exact (hlends.pooled hp).2.congr hpool hdialed

/-- **After a response the connection is in front**, if any may be idle. -/
theorem front_of_exchange (hp : t.Pooled limit) (hkeeps : 0 < limit)
    (htaken : t.taken? now ctx = some id) {response : Response}
    (hok : (t.exchange now ctx r).1 = .ok response) :
    (t.exchange now ctx r).2.pool.closed = false ∧
      ∃ rest, (t.exchange now ctx r).2.pool.idle = id :: rest := by
  rcases t.exchange_cases now ctx r with ⟨hnone, -⟩ | ⟨id', t', hid', hopen, hlends, h⟩
  · cases hnone.symm.trans htaken
  · obtain rfl := Option.some.inj (hid'.symm.trans htaken)
    have hroom := hlends.room hp hkeeps
    have hopen' : t'.pool.closed = false := hlends.closed.trans hopen
    rw [h] at hok ⊢
    obtain ⟨-, ⟨-, -, hpool⟩ | ⟨e, he, -⟩⟩ := t'.converse_cases now ctx r id'
    · rw [hpool]
      simp [Pool.checkIn, Pool.hasRoom, hopen', hroom]
    · cases hok.symm.trans he

end Exchanges

end StreamTransport

/-! ### Runs -/

namespace RemoteArchive

section Transports

variable {τ : Type} [Transport τ] {c : RemoteArchive τ} {now : Instant} {ctx : Context}

theorem left_request_of_live {m : Method} {params : List Json}
    (hl : (bounded c.config.defaultTimeout now ctx).check now = .ok ()) :
    (c.request now ctx m params).2 =
      { c with
        nextId := c.nextId + 1
        transport := (Transport.exchange c.transport now
          (bounded c.config.defaultTimeout now ctx) (c.sent now ctx m params)).2 } := by
  unfold bounded at hl
  simp only [request, hl]
  split
  · rfl
  · split
    · rfl
    · split <;> rfl

theorem transport_close (hc : c.closed = false) :
    (c.perform now ctx .close).2.transport =
      Transport.close (request { c with closed := true } now ctx .close []).2.transport now := by
  obtain ⟨answer, c', hreq⟩ : ∃ answer c',
      request { c with closed := true } now ctx .close [] = (answer, c') := ⟨_, _, rfl⟩
  rw [close_of_open hc hreq, hreq]

theorem config_request (c : RemoteArchive τ) (now : Instant) (ctx : Context) (m : Method)
    (params : List Json) :
    (c.request now ctx m params).2.config = c.config := by
  rcases c.request_cases now ctx m params with ⟨e, h⟩ | ⟨r, answer, transport, -, -, -, h, -⟩ <;>
    rw [h]

theorem config_perform (c : RemoteArchive τ) (call : Call) :
    (c.perform now ctx call).2.config = c.config := by
  cases hc : c.closed with
  | true => rw [perform_of_closed hc]
  | false =>
    by_cases hclose : call = .close
    · subst hclose
      obtain ⟨answer, c', hreq⟩ : ∃ answer c',
          request { c with closed := true } now ctx .close [] = (answer, c') := ⟨_, _, rfl⟩
      have hconfig := config_request { c with closed := true } now ctx .close []
      rw [hreq] at hconfig
      rw [close_of_open hc hreq]
      exact hconfig
    · rw [perform_of_open hc hclose]
      exact c.config_request now ctx call.method call.params

/-- What every exchange and every closing of a transport keeps. -/
structure Kept (P : τ → Prop) : Prop where
  exchange : ∀ {t : τ} (now : Instant) (ctx : Context) (r : Request),
    P t → P (Transport.exchange t now ctx r).2
  close : ∀ {t : τ} (now : Instant), P t → P (Transport.close t now)

variable {P : τ → Prop}

theorem Kept.request (hkept : Kept P) (h : P c.transport) (m : Method) (params : List Json) :
    P (c.request now ctx m params).2.transport := by
  rcases c.request_cases now ctx m params with ⟨e, hreq⟩ | ⟨r, answer, t, -, -, hsent, hreq, -⟩
  · rw [hreq]
    exact h
  · have hexchange := hkept.exchange now (bounded c.config.defaultTimeout now ctx) r h
    rw [hsent] at hexchange
    rw [hreq]
    exact hexchange

theorem Kept.perform (hkept : Kept P) (h : P c.transport) (call : Call) :
    P (c.perform now ctx call).2.transport := by
  cases hc : c.closed with
  | true => rwa [perform_of_closed hc]
  | false =>
    by_cases hclose : call = .close
    · subst hclose
      rw [transport_close hc]
      exact hkept.close now (hkept.request (c := { c with closed := true }) h .close [])
    · rw [perform_of_open hc hclose]
      exact hkept.request h call.method call.params

/-- **What every exchange and every closing keeps, a run keeps.** -/
theorem Kept.run (hkept : Kept P) (h : P c.transport) (calls : List (Instant × Context × Call)) :
    P (Archive.run c calls).2.transport := by
  induction calls generalizing c with
  | nil => exact h
  | cons first calls ih => exact ih (hkept.perform h first.2.2)

end Transports

section Streams

variable {π : Type} [StreamPeer π] {c : RemoteArchive (StreamTransport π)} {now : Instant}
  {ctx : Context} {id : Nat}

/-- The connection that a call on an open archive gets, if it gets that far. -/
def taken? (c : RemoteArchive (StreamTransport π)) (now : Instant) (ctx : Context) : Option Nat :=
  if c.closed then none
  else c.transport.taken? now (bounded c.config.defaultTimeout now ctx)

theorem taken?_eq_some_iff : c.taken? now ctx = some id ↔ c.closed = false ∧
    c.transport.taken? now (bounded c.config.defaultTimeout now ctx) = some id := by
  unfold taken?
  cases c.closed <;> simp

theorem live_of_taken (h : c.taken? now ctx = some id) :
    (bounded c.config.defaultTimeout now ctx).check now = .ok () := by
  have htaken := (taken?_eq_some_iff.mp h).2
  unfold StreamTransport.taken? at htaken
  split at htaken
  · cases htaken
  · next hl => exact hl

theorem taken_of_front (hopen : c.closed = false) (hinUse : c.transport.pool.closed = false)
    {rest : List Nat} (hidle : c.transport.pool.idle = id :: rest)
    (hl : (bounded c.config.defaultTimeout now ctx).IsLive now) : c.taken? now ctx = some id :=
  taken?_eq_some_iff.mpr ⟨hopen, StreamTransport.taken?_of_front hl hinUse hidle⟩

variable [Json.Wording]

theorem kept_pooled (limit : Nat) :
    Kept (τ := StreamTransport π) (StreamTransport.Pooled limit) :=
  ⟨fun _ _ _ h => h.exchange, fun now h => h.close now⟩

theorem kept_gone (id : Nat) : Kept (τ := StreamTransport π) (StreamTransport.Gone id) :=
  ⟨fun _ _ _ h => h.exchange, fun now h => h.close now⟩

/-- The bytes that a call hears are a response, of whatever id. -/
def HearsResponse (c : RemoteArchive (StreamTransport π)) (now : Instant)
    (ctx : Context) (call : Call) : Prop :=
  ∃ bytes response, c.heard? now ctx call.method call.params = some bytes ∧
    Response.decode bytes = .ok response

theorem hearsResponse_iff (hl : (bounded c.config.defaultTimeout now ctx).check now = .ok ())
    {call : Call} : c.HearsResponse now ctx call ↔ ∃ response,
      (Transport.exchange c.transport now (bounded c.config.defaultTimeout now ctx)
        (c.sent now ctx call.method call.params)).1 = .ok response := by
  unfold HearsResponse heard?
  simp only [hl]
  cases hheard : HearsBytes.heard? c.transport now (bounded c.config.defaultTimeout now ctx)
      (c.sent now ctx call.method call.params) with
  | none =>
    obtain ⟨e, he⟩ := HearsBytes.exchange_of_none hheard
    simp [he]
  | some bytes => simp [HearsBytes.exchange_of_some hheard]

/-- **A call that hears no response loses its connection.** -/
theorem gone_of_no_response {limit : Nat} (hp : c.transport.Pooled limit)
    (htaken : c.taken? now ctx = some id) {call : Call} (hnone : ¬ c.HearsResponse now ctx call) :
    (c.perform now ctx call).2.transport.Gone id := by
  have hl := live_of_taken htaken
  obtain ⟨hopen, htaken'⟩ := taken?_eq_some_iff.mp htaken
  obtain ⟨e, he⟩ : ∃ e, (Transport.exchange c.transport now
      (bounded c.config.defaultTimeout now ctx) (c.sent now ctx call.method call.params)).1 =
        .error e := by
    rw [hearsResponse_iff hl] at hnone
    cases hanswer : (Transport.exchange c.transport now
        (bounded c.config.defaultTimeout now ctx) (c.sent now ctx call.method call.params)).1 with
    | error e => exact ⟨e, rfl⟩
    | ok response => exact absurd ⟨response, hanswer⟩ hnone
  have hgone := StreamTransport.gone_of_exchange_fails hp htaken' he
  by_cases hclose : call = .close
  · subst hclose
    have hleft : (request { c with closed := true } now ctx .close []).2 = _ :=
      left_request_of_live hl
    rw [transport_close hopen, hleft]
    exact hgone.close now
  · rw [perform_of_open hopen hclose, left_request_of_live hl]
    exact hgone

/-- **A call that hears a response leaves its connection in front.** -/
theorem front_after_response {limit : Nat} (hp : c.transport.Pooled limit)
    (hkeeps : 0 < limit) (htaken : c.taken? now ctx = some id) {call : Call} (hclose : call ≠ .close)
    (hears : c.HearsResponse now ctx call) :
    let after := (c.perform now ctx call).2
    after.closed = false ∧ after.transport.pool.closed = false ∧
      ∃ rest, after.transport.pool.idle = id :: rest := by
  have hl := live_of_taken htaken
  obtain ⟨hopen, htaken'⟩ := taken?_eq_some_iff.mp htaken
  obtain ⟨response, hresponse⟩ := (hearsResponse_iff hl).mp hears
  rw [perform_of_open hopen hclose, left_request_of_live hl]
  exact ⟨hopen, StreamTransport.front_of_exchange hp hkeeps htaken' hresponse⟩

end Streams

end RemoteArchive

end ColdArchive
