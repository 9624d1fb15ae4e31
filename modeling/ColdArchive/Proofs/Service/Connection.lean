import ColdArchive.Proofs.Files.Answers
import ColdArchive.Proofs.Message.Stream
import ColdArchive.Service.Listener

/-!
# A connection is served in order

However the bytes of a peer are cut into pieces on their way, what is sent back is the responses to
the frames among them, in their order, each on a line of its own. The first frame that is too long is
refused and ends the connection, so nothing from there on is looked at.
-/

namespace ColdArchive

namespace Service

section Lines

variable [Json.Wording] {σ : Type} [Archive σ]

/-- The responses to lines that are handled one after the other, and the archive after them. -/
def handleAll (s : Service) (now : Instant) (token : Token) : List Bytes → σ → List Response × σ
  | [], a => ([], a)
  | line :: lines, a =>
    let (response, a) := s.handleLine (.at now) token line a
    let (responses, a) := s.handleAll now token lines a
    (response :: responses, a)

variable (s : Service) (now : Instant) (token : Token)

theorem handleAll_append (lines more : List Bytes) (a : σ) :
    s.handleAll now token (lines ++ more) a =
      ((s.handleAll now token lines a).1 ++
          (s.handleAll now token more (s.handleAll now token lines a).2).1,
        (s.handleAll now token more (s.handleAll now token lines a).2).2) := by
  induction lines generalizing a with
  | nil => rfl
  | cons line lines ih => simp only [List.cons_append, handleAll, ih]

end Lines

/-! ### Time -/

section Time

variable {σ : Type} [Archive σ]

theorem check_contextFor (s : Service) (now now' : Instant) (r : Request) :
    (s.contextFor now Token.live r).check now = (s.contextFor now' Token.live r).check now' := by
  have expired : ∀ now, (s.contextFor now Token.live r).isExpired now =
      (s.contextFor 0 Token.live r).isExpired 0 := by
    intro now
    have spent (time budget : Nat) : time + budget ≤ time ↔ 0 + budget ≤ 0 := by omega
    exact decide_eq_decide.mpr (spent now _)
  have canceled : ∀ now, (s.contextFor now Token.live r).isCanceled now = false := fun _ => rfl
  simp only [Context.check, canceled, expired now, expired now']

variable [LocalArchive σ]

theorem perform_of_isLive {now now' : Instant} {ctx ctx' : Context} (hl : ctx.IsLive now)
    (hl' : ctx'.IsLive now') (call : WireCall) (a : σ) :
    call.perform a now ctx = call.perform a now' ctx' := by
  have hown : call.ownAnswer now ctx = call.ownAnswer now' ctx' := by
    unfold WireCall.ownAnswer
    rw [show ctx.check now = .ok () from hl, show ctx'.check now' = .ok () from hl']
  unfold WireCall.perform
  split
  · rfl
  · rw [hown]
  · next asked _ => rw [LocalArchive.live a now now' ctx ctx' asked hl hl']

theorem dispatch_now (s : Service) (now now' : Instant) (r : Request) (m : Method) (a : σ) :
    dispatch (.at now) (s.contextFor now Token.live r) m r.params a =
      dispatch (.at now') (s.contextFor now' Token.live r) m r.params a := by
  have hcheck := s.check_contextFor now now' r
  simp only [dispatch, Readings.checked_at, Readings.performed_at, hcheck]
  split
  · rfl
  · split
    · rfl
    · next hl =>
      split
      · rfl
      · next call _ => rw [perform_of_isLive (hcheck.trans hl) hl call a]

variable [Json.Wording]

/-- **A line that nobody gives up is answered the same at any time.** -/
theorem handleLine_now (s : Service) (now now' : Instant) (line : Bytes) (a : σ) :
    s.handleLine (.at now) Token.live line a = s.handleLine (.at now') Token.live line a := by
  unfold handleLine
  split
  · rfl
  · split
    · next r _ =>
      simp only [handleRequest, Readings.started_at, s.dispatch_now now now' r]
    · rfl

theorem handleAll_now (s : Service) (now now' : Instant) (lines : List Bytes) (a : σ) :
    s.handleAll now Token.live lines a = s.handleAll now' Token.live lines a := by
  induction lines generalizing a with
  | nil => rfl
  | cons line lines ih => simp only [handleAll, s.handleLine_now now now', ih]

end Time

/-! ### Bytes that have come -/

/-- The frames that are answered. -/
def answerable (frames : List Bytes) : List Bytes := frames.filter fun frame => decide (frame ≠ [])

/-- What is answered in the place of a frame that cannot be read. -/
def refusals (limit : Nat) : Frame.Found → List Response
  | .tooLong => [tooLongResponse limit]
  | _ => []

/-- The only refusal is of a frame that is too long, and it names no request. -/
theorem refusals_tell (limit : Nat) (found : Frame.Found) :
    (found = .tooLong → ∃ response, refusals limit found = [response] ∧ response.id = none ∧
      response.error.map Fault.code = some (-32600)) ∧
    (found ≠ .tooLong → refusals limit found = []) := by
  cases found with
  | tooLong => exact ⟨fun _ => ⟨_, rfl, rfl, rfl⟩, fun h => absurd rfl h⟩
  | frame payload => exact ⟨fun h => (by cases h), fun _ => rfl⟩
  | finished => exact ⟨fun h => (by cases h), fun _ => rfl⟩
  | torn => exact ⟨fun h => (by cases h), fun _ => rfl⟩
  | uncountable => exact ⟨fun h => (by cases h), fun _ => rfl⟩

section Serving

theorem answerable_append (frames more : List Bytes) :
    answerable (frames ++ more) = answerable frames ++ answerable more := List.filter_append ..

theorem sendAll_append (responses more : List Response) :
    Frame.sendAll Response.encode (responses ++ more) =
      Frame.sendAll Response.encode responses ++ Frame.sendAll Response.encode more :=
  List.flatMap_append

variable [Json.Wording] {σ : Type} [Archive σ]

/-- What becomes of bytes that have come: what is sent for them, the connection and the archive. The
frames among them are found whatever comes behind. -/
inductive Serves (s : Service) (limit : Nat) (now : Instant) (bs : Bytes) (a : σ) :
    Bytes → Connection → σ → Prop where
  /-- The bytes behind the last frame are no frame yet. -/
  | waits {frames : List Bytes} {unread : Bytes} (hwait : Frame.isReady limit unread = false)
      (hread : ∀ more, Frame.readAll limit (bs ++ more) =
        (frames ++ (Frame.readAll limit (unread ++ more)).1,
          (Frame.readAll limit (unread ++ more)).2)) :
      Serves s limit now bs a
        (Frame.sendAll Response.encode (s.handleAll now Token.live (answerable frames) a).1)
        (.serving unread) (s.handleAll now Token.live (answerable frames) a).2
  /-- No frame can come any more. -/
  | ends {frames : List Bytes} {found : Frame.Found}
      (hread : ∀ more, Frame.readAll limit (bs ++ more) = (frames, found)) :
      Serves s limit now bs a
        (Frame.sendAll Response.encode
          ((s.handleAll now Token.live (answerable frames) a).1 ++ refusals limit found))
        .closed (s.handleAll now Token.live (answerable frames) a).2

theorem answerFrame_eq (s : Service) (now : Instant) (frame : Bytes) (a : σ) :
    s.answerFrame now Token.live frame a =
      (Frame.sendAll Response.encode (s.handleAll now Token.live (answerable [frame]) a).1,
        (s.handleAll now Token.live (answerable [frame]) a).2) := by
  by_cases h : frame = []
  · simp [answerFrame, answerable, handleAll, Frame.sendAll, h]
  · simp [answerFrame, answerable, handleAll, Frame.sendAll, h]

/-- What is served later comes behind what was served before. -/
theorem Serves.after {s : Service} {limit : Nat} {now : Instant} {bs rest : Bytes}
    {frames : List Bytes} {a a' : σ} {sent : Bytes} {c : Connection}
    (hread : ∀ more, Frame.readAll limit (bs ++ more) =
      (frames ++ (Frame.readAll limit (rest ++ more)).1, (Frame.readAll limit (rest ++ more)).2))
    (h : s.Serves limit now rest (s.handleAll now Token.live (answerable frames) a).2 sent c a') :
    s.Serves limit now bs a
      (Frame.sendAll Response.encode (s.handleAll now Token.live (answerable frames) a).1 ++ sent)
      c a' := by
  cases h with
  | @waits later unread hwait hlater =>
    have hall : ∀ more, Frame.readAll limit (bs ++ more) =
        ((frames ++ later) ++ (Frame.readAll limit (unread ++ more)).1,
          (Frame.readAll limit (unread ++ more)).2) := by
      intro more
      rw [hread, hlater, List.append_assoc]
    have hserves : s.Serves limit now bs a _ _ _ := .waits hwait hall
    rwa [answerable_append, handleAll_append, sendAll_append] at hserves
  | @ends later found hlater =>
    have hall : ∀ more, Frame.readAll limit (bs ++ more) = (frames ++ later, found) := by
      intro more
      rw [hread, hlater]
    have hserves : s.Serves limit now bs a _ _ _ := .ends hall
    rwa [answerable_append, handleAll_append, List.append_assoc, sendAll_append] at hserves

/-- Bytes that show that no frame comes end the connection. -/
theorem Serves.of_not_frame {s : Service} {limit : Nat} {now : Instant} {bs rest : Bytes} {a : σ}
    {found : Frame.Found} (hready : Frame.isReady limit bs = true)
    (hread : Frame.read limit bs = (found, rest)) (hnot : ∀ payload, found ≠ .frame payload) :
    s.Serves limit now bs a (Frame.sendAll Response.encode (refusals limit found)) .closed a := by
  have hnone : ∀ more, Frame.readAll limit (bs ++ more) = ([], found) := by
    intro more
    have hmore := Frame.read_append_of_isReady hready more
    rw [hread] at hmore
    rw [Frame.readAll_of_not_frame (hmore ▸ hnot), hmore]
  exact .ends hnone

/-- The frames among the bytes that have arrived are answered, and no more is. -/
theorem serves_serve (s : Service) (limit : Nat) (now : Instant) (arrived : Bytes) (a : σ) :
    s.Serves limit now arrived a (s.serve limit now Token.live false arrived a).1
      (s.serve limit now Token.live false arrived a).2.1
      (s.serve limit now Token.live false arrived a).2.2 := by
  fun_induction s.serve limit now Token.live false arrived a with
  | case1 arrived a hwait =>
    have hnone : ∀ more, Frame.readAll limit (arrived ++ more) =
        ([] ++ (Frame.readAll limit (arrived ++ more)).1,
          (Frame.readAll limit (arrived ++ more)).2) := fun _ => rfl
    exact .waits (by simpa using hwait) hnone
  | case2 arrived a hready frame rest hread _ sent a₁ hsent more c a' hserve ih =>
    have hready : Frame.isReady limit arrived = true := by simpa using hready
    rw [answerFrame_eq] at hsent
    obtain ⟨rfl, rfl⟩ := Prod.mk.inj hsent
    rw [hserve] at ih
    have hone : ∀ later, Frame.readAll limit (arrived ++ later) =
        ([frame] ++ (Frame.readAll limit (rest ++ later)).1,
          (Frame.readAll limit (rest ++ later)).2) := by
      intro later
      have hfirst := Frame.read_append_of_isReady hready later
      rw [hread] at hfirst
      exact Frame.readAll_of_frame hfirst
    exact .after hone ih
  | case3 arrived a hready rest hread =>
    have hserves : s.Serves limit now arrived a _ _ _ :=
      .of_not_frame (by simpa using hready) hread fun _ => Frame.Found.noConfusion
    simpa [Frame.sendAll, refusals] using hserves
  | case4 arrived a hready rest hread =>
    exact .of_not_frame (by simpa using hready) hread fun _ => Frame.Found.noConfusion
  | case5 arrived a hready rest hread =>
    exact .of_not_frame (by simpa using hready) hread fun _ => Frame.Found.noConfusion
  | case6 arrived a hready rest hread =>
    exact .of_not_frame (by simpa using hready) hread fun _ => Frame.Found.noConfusion

/-- Where no frame ends, the end of the stream ends the connection, and nothing is answered. -/
theorem serve_ended (s : Service) {limit : Nat} {arrived : Bytes}
    (hwait : Frame.isReady limit arrived = false) (now : Instant) (token : Token) (a : σ) :
    s.serve limit now token true arrived a = ([], .closed, a) := by
  have hend := Frame.read_of_not_isReady hwait
  rw [serve]
  split
  · next hnot => simp at hnot
  · split
    · next frame rest hread => rcases hend with h | h <;> rw [hread] at h <;> cases h
    · next rest hread => rcases hend with h | h <;> rw [hread] at h <;> cases h
    all_goals rfl

end Serving

/-! ### What is sent in the end -/

section Session

variable [Json.Wording] {σ : Type} [Archive σ] {s : Service} {limit : Nat} {now : Instant}
  {bs piece unread : Bytes}
  {a a' a'' : σ} {sent more : Bytes} {c : Connection}

/-- Serving what waits together with what comes is serving all that has come. -/
theorem Serves.arrive (h : s.Serves limit now bs a sent (.serving unread) a')
    (hpiece : s.Serves limit now (unread ++ piece) a' more c a'') :
    s.Serves limit now (bs ++ piece) a (sent ++ more) c a'' := by
  cases h with
  | @waits frames _ hwait hread =>
    refine Serves.after (fun later => ?_) hpiece
    rw [List.append_assoc, hread, List.append_assoc]

/-- What comes after the end is not looked at. -/
theorem Serves.ignore (h : s.Serves limit now bs a sent .closed a') (piece : Bytes) :
    s.Serves limit now (bs ++ piece) a sent .closed a' := by
  cases h with
  | @ends frames found hread =>
    exact .ends fun more => by rw [List.append_assoc, hread]

/-- What is served is the frames of all that has come. -/
theorem Serves.exact (h : s.Serves limit now bs a sent c a') :
    sent = Frame.sendAll Response.encode
        ((s.handleAll now Token.live (answerable (Frame.readAll limit bs).1) a).1 ++
          refusals limit (Frame.readAll limit bs).2) ∧
      a' = (s.handleAll now Token.live (answerable (Frame.readAll limit bs).1) a).2 ∧
      ((Frame.readAll limit bs).2 = .tooLong → c = .closed) := by
  cases h with
  | @waits frames unread hwait hread =>
    have hend := Frame.read_of_not_isReady hwait
    have hnot : ∀ payload, (Frame.read limit unread).1 ≠ .frame payload := by
      intro payload hp
      rcases hend with h | h <;> cases h.symm.trans hp
    have hall : Frame.readAll limit bs = (frames, (Frame.read limit unread).1) := by
      simpa [Frame.readAll_of_not_frame hnot] using hread []
    rw [hall]
    rcases hend with h | h <;> simp [h, refusals]
  | @ends frames found hread =>
    have hall : Frame.readAll limit bs = (frames, found) := by simpa using hread []
    rw [hall]
    exact ⟨rfl, rfl, fun _ => rfl⟩

theorem Serves.not_waiting (h : s.Serves limit now bs a sent c a') (unread : Bytes) :
    c ≠ .waiting unread := by
  cases h <;> exact Connection.noConfusion

variable [LocalArchive σ]

/-- What is served does not depend on when it comes. -/
theorem Serves.at (now' : Instant) (h : s.Serves limit now bs a sent c a') :
    s.Serves limit now' bs a sent c a' := by
  cases h with
  | waits hwait hread =>
    rw [s.handleAll_now now now']
    exact .waits hwait hread
  | ends hread =>
    rw [s.handleAll_now now now']
    exact .ends hread

end Session

end Service

/-- What is sent on a connection. -/
def Sent.on (id : Nat) (sent : Sent) : Bytes :=
  sent.flatMap fun (other, bytes) => if other = id then bytes else []

theorem Sent.on_cons (id : Nat) (bytes : Bytes) (others : Sent) :
    Sent.on id (Sent.cons id bytes others) = bytes ++ Sent.on id others := by
  unfold Sent.cons
  split
  · next h => rw [h, List.nil_append]
  · simp [Sent.on]

namespace Listener

section Session

variable [Json.Wording] {σ : Type} [Archive σ]

/-- Pieces of a stream arrive on a connection: what is sent on it, and the listener and the archive
after that. -/
def deliverAll (id : Nat) :
    List (Instant × Bytes) → Listener → σ → Bytes × Listener × σ
  | [], l, a => ([], l, a)
  | (now, piece) :: pieces, l, a =>
    let (sent, l, a) := l.deliver now id piece a
    let (more, l, a) := deliverAll id pieces l a
    (Sent.on id sent ++ more, l, a)

/-- A peer connects and sends a stream in pieces. -/
def session (l : Listener) (start : Instant) (id : Nat) (pieces : List (Instant × Bytes)) (a : σ) :
    Bytes × Listener × σ :=
  let (sent, l, a) := l.connect start id a
  let (more, l, a) := deliverAll id pieces l a
  (Sent.on id sent ++ more, l, a)

end Session

/-! ### One connection among idle ones -/

/-- No connection waits to be taken up. -/
def NoneWaits (l : Listener) : Prop := ∀ c ∈ l.connections, ∀ unread, c.2 ≠ .waiting unread

/-- The listener with one more connection. -/
def withConnection (l : Listener) (id : Nat) (c : Connection) : Listener :=
  { l with connections := l.connections ++ [(id, c)] }

section Taking

variable [Json.Wording] {σ : Type} [Archive σ] {l : Listener} {id : Nat} {now : Instant}

theorem takeUpAll_of_noneWaits {connections : List (Nat × Connection)}
    (h : ∀ c ∈ connections, ∀ unread, c.2 ≠ .waiting unread) (busy : Nat) (a : σ) :
    l.takeUpAll now busy connections a = ([], connections, a) := by
  induction connections with
  | nil => rfl
  | cons c connections ih =>
    obtain ⟨n, c⟩ := c
    have ih := ih fun c hc => h c (List.mem_cons_of_mem _ hc)
    cases c with
    | waiting unread => exact absurd rfl (h (n, .waiting unread) (by simp) unread)
    | serving unread => simp [takeUpAll, ih]
    | closed => simp [takeUpAll, ih]

theorem takeUpAll_newest (l : Listener) (id : Nat) (now : Instant)
    {connections : List (Nat × Connection)}
    (h : ∀ c ∈ connections, ∀ unread, c.2 ≠ .waiting unread) {busy : Nat}
    (hroom : busy < l.maxConnections) (unread : Bytes) (a : σ) :
    l.takeUpAll now busy (connections ++ [(id, .waiting unread)]) a =
      ([(id, (l.service.serve l.maxFrameSize now Token.live false unread a).1)],
        connections ++
          [(id, (l.service.serve l.maxFrameSize now Token.live false unread a).2.1)],
        (l.service.serve l.maxFrameSize now Token.live false unread a).2.2) := by
  induction connections with
  | nil => simp [takeUpAll, hroom]
  | cons c connections ih =>
    obtain ⟨n, c⟩ := c
    have ih := ih fun c hc => h c (List.mem_cons_of_mem _ hc)
    cases c with
    | waiting unread => exact absurd rfl (h (n, .waiting unread) (by simp) unread)
    | serving unread => simp [takeUpAll, ih]
    | closed => simp [takeUpAll, ih]

theorem takeUp_withConnection (hwaits : l.NoneWaits) {c : Connection}
    (hc : ∀ unread, c ≠ .waiting unread) (a : σ) :
    (l.withConnection id c).takeUp now a = ([], l.withConnection id c, a) := by
  have hall : ∀ other ∈ (l.withConnection id c).connections, ∀ unread,
      other.2 ≠ .waiting unread := by
    intro other hother
    rcases List.mem_append.mp hother with hother | hother
    · exact hwaits other hother
    · rw [List.mem_singleton.mp hother]
      exact hc
  rw [takeUp, takeUpAll_of_noneWaits hall]

/-- A connection is taken up at once if there is room for it. -/
theorem connect_eq (hwaits : l.NoneWaits) (hroom : l.serving < l.maxConnections) (a : σ) :
    l.connect now id a =
      ([(id, (l.service.serve l.maxFrameSize now Token.live false [] a).1)],
        l.withConnection id (l.service.serve l.maxFrameSize now Token.live false [] a).2.1,
        (l.service.serve l.maxFrameSize now Token.live false [] a).2.2) := by
  have hserving : (l.withConnection id (.waiting [])).serving = l.serving := by
    simp [serving, withConnection, Connection.isServing]
  have htake := (l.withConnection id (.waiting [])).takeUpAll_newest id now hwaits
    (hserving.symm ▸ hroom) [] a
  unfold connect takeUp
  exact congrArg (fun taken => (taken.1, { l with connections := taken.2.1 }, taken.2.2)) htake

end Taking

section Setting

variable {l : Listener} {id : Nat} (hnew : ∀ c ∈ l.connections, c.1 ≠ id)
include hnew

theorem connection_withConnection (c : Connection) : (l.withConnection id c).connection id = c := by
  have hnone : l.connections.lookup id = none := by
    rw [List.lookup_eq_none_iff]
    intro other hother
    simpa using Ne.symm (hnew other hother)
  simp [connection, withConnection, List.lookup_append, hnone]

theorem set_withConnection (c c' : Connection) :
    (l.withConnection id c).set id c' = l.withConnection id c' := by
  have hkept : (l.set id c').connections = l.connections :=
    (List.map_congr_left fun other hother => by simp [hnew other hother]).trans
      (List.map_id l.connections)
  have hset : ((l.withConnection id c).set id c').connections =
      (l.set id c').connections ++ [(id, c')] := by
    simp [set, withConnection]
  rw [hkept] at hset
  exact congrArg (fun connections => { l with connections := connections }) hset

/-- A connection that is served changes nothing for the idle ones. -/
theorem proceed_withConnection [Json.Wording] {σ : Type} [Archive σ] (hwaits : l.NoneWaits)
    (c : Connection) {now : Instant} {ended : Bool} {arrived sent : Bytes} {c' : Connection}
    {a a' : σ}
    (hserve : l.service.serve l.maxFrameSize now Token.live ended arrived a = (sent, c', a'))
    (hc : ∀ unread, c' ≠ .waiting unread) :
    (l.withConnection id c).proceed now id ended arrived a =
      (Sent.cons id sent [], l.withConnection id c', a') := by
  have hserve : (l.withConnection id c).service.serve (l.withConnection id c).maxFrameSize now
      Token.live ended arrived a = (sent, c', a') := hserve
  simp only [proceed, hserve, set_withConnection hnew, takeUp_withConnection hwaits hc]

end Setting

/-! ### Served in order -/

section Order

variable [Json.Wording] {σ : Type} [Archive σ] {l : Listener} {id : Nat} {now : Instant}
  {bs sent : Bytes} {a a' : σ} {c : Connection}

/-- **A peer that goes away is sent nothing more**, whether it does so between two frames or inside
one, and the archive is left as it is. -/
theorem hangUp_of_serves (hnew : ∀ c ∈ l.connections, c.1 ≠ id) (hwaits : l.NoneWaits)
    (h : l.service.Serves l.maxFrameSize now bs a sent c a') (later : Instant) :
    (l.withConnection id c).hangUp later id a' = ([], l.withConnection id .closed, a') := by
  unfold hangUp
  rw [connection_withConnection hnew]
  cases h with
  | waits hwait _ =>
    exact proceed_withConnection hnew hwaits _ (l.service.serve_ended hwait later Token.live _)
      fun _ => Connection.noConfusion
  | ends _ => rfl

variable [LocalArchive σ]

/-- A piece that arrives is served behind what has been served. -/
theorem serves_deliver (hnew : ∀ c ∈ l.connections, c.1 ≠ id) (hwaits : l.NoneWaits)
    (h : l.service.Serves l.maxFrameSize now bs a sent c a') (time : Instant) (piece : Bytes) :
    ∃ others c' a'', (l.withConnection id c).deliver time id piece a' =
        (others, l.withConnection id c', a'') ∧
      l.service.Serves l.maxFrameSize now (bs ++ piece) a (sent ++ Sent.on id others) c' a'' := by
  unfold deliver
  rw [connection_withConnection hnew]
  cases c with
  | waiting unread => exact absurd rfl (h.not_waiting unread)
  | closed => exact ⟨_, _, _, rfl, by simpa [Sent.on] using h.ignore piece⟩
  | serving unread =>
    have hserves := (l.service.serves_serve l.maxFrameSize time (unread ++ piece) a').at now
    refine ⟨_, _, _, proceed_withConnection hnew hwaits _ rfl hserves.not_waiting, ?_⟩
    rw [Sent.on_cons, show Sent.on id [] = [] from rfl, List.append_nil]
    exact h.arrive hserves

theorem serves_deliverAll (hnew : ∀ c ∈ l.connections, c.1 ≠ id) (hwaits : l.NoneWaits)
    (pieces : List (Instant × Bytes)) (h : l.service.Serves l.maxFrameSize now bs a sent c a') :
    ∃ more c' a'', deliverAll id pieces (l.withConnection id c) a' =
        (more, l.withConnection id c', a'') ∧
      l.service.Serves l.maxFrameSize now (bs ++ (pieces.map Prod.snd).flatten) a (sent ++ more)
        c' a'' := by
  induction pieces generalizing bs sent c a' with
  | nil => exact ⟨_, _, _, rfl, by simpa using h⟩
  | cons piece pieces ih =>
    obtain ⟨others, c₁, a₁, hdeliver, hfirst⟩ := serves_deliver hnew hwaits h piece.1 piece.2
    obtain ⟨more, c', a'', hall, hserves⟩ := ih hfirst
    refine ⟨Sent.on id others ++ more, c', a'', ?_, ?_⟩
    · simp [deliverAll, hdeliver, hall]
    · simpa using hserves

/-- What a peer sends is served as a whole, however it is cut. -/
theorem serves_session (hnew : ∀ c ∈ l.connections, c.1 ≠ id) (hwaits : l.NoneWaits)
    (hroom : l.serving < l.maxConnections) (start now : Instant) (pieces : List (Instant × Bytes))
    (a : σ) :
    ∃ sent c a', l.session start id pieces a = (sent, l.withConnection id c, a') ∧
      l.service.Serves l.maxFrameSize now (pieces.map Prod.snd).flatten a sent c a' := by
  have hstart := (l.service.serves_serve l.maxFrameSize start [] a).at now
  obtain ⟨more, c, a', hall, hserves⟩ := serves_deliverAll hnew hwaits pieces hstart
  refine ⟨_, c, a', ?_, hserves⟩
  simp [session, connect_eq hwaits hroom, hall, Sent.on]

/-- **A connection is served in order, up to the first frame that is too long.** A peer is taken up
while the other connections are idle, and sends any bytes, in any pieces. It is sent one line for
each frame that is not empty, in the order of the frames: the response to that frame from the archive
that those before it left. If the frames end because one is too long, one refusal without an id
follows and the connection is closed; otherwise nothing more is sent, also when the peer then goes
away between two frames or inside one. The archive is left by exactly those frames. -/
theorem served_in_order (l : Listener) (id : Nat) (hnew : ∀ c ∈ l.connections, c.1 ≠ id)
    (hwaits : l.NoneWaits) (hroom : l.serving < l.maxConnections) (start now later : Instant)
    (pieces : List (Instant × Bytes)) (a : Hosted × Disk) :
    let read := Frame.readAll l.maxFrameSize (pieces.map Prod.snd).flatten
    let handled :=
      l.service.handleAll now Token.live (read.1.filter fun frame => decide (frame ≠ [])) a
    let served := l.session start id pieces a
    ∃ refusals : List Response,
      served.1 = (handled.1 ++ refusals).flatMap (fun response => Frame.encode response.encode) ∧
      (∀ response ∈ handled.1 ++ refusals, Frame.newline ∉ response.encode) ∧
      served.2.2 = handled.2 ∧
      (read.2 = .tooLong → served.2.1.connection id = .closed ∧ ∃ refusal, refusals = [refusal] ∧
        refusal.id = none ∧ refusal.error.map Fault.code = some (-32600)) ∧
      (read.2 ≠ .tooLong → refusals = []) ∧
      (served.2.1.hangUp later id served.2.2).1 = [] ∧
      (served.2.1.hangUp later id served.2.2).2.2 = served.2.2 := by
  obtain ⟨sent, c, a', hsession, hserves⟩ := serves_session hnew hwaits hroom start now pieces a
  obtain ⟨hsent, hhandled, hclosed⟩ := hserves.exact
  have htell := Service.refusals_tell l.maxFrameSize
    (Frame.readAll l.maxFrameSize (pieces.map Prod.snd).flatten).2
  have hgone := hangUp_of_serves hnew hwaits hserves later
  simp only [hsession]
  refine ⟨_, hsent, ?_, hhandled, ?_, htell.2, ?_, ?_⟩
  · exact fun response _ => (Json.printable_encode response.toJson).not_mem (by decide)
  · intro hlong
    rw [connection_withConnection hnew]
    exact ⟨hclosed hlong, htell.1 hlong⟩
  · rw [hgone]
  · rw [hgone]

end Order

/-- A request as long as the limit, an empty frame and a line one byte longer than the limit, in
pieces that do not fit the frames, with one more request behind them. -/
theorem served_in_order_of_long_line :
    let l : Listener :=
      ⟨.ofConfig .default, .v4 [127, 0, 0, 1] 8560, 2, 64, [(0, .serving [0x5b]), (1, .closed)]⟩
    let request :=
      utf8 "\x7b\"jsonrpc\":\"2.0\",\"id\":7,\"method\":\"freezer_ancients\",\"params\":[]\x7d"
    let stream := Frame.encode request ++ Frame.encode [Frame.carriageReturn] ++
      Frame.encode (List.replicate 65 0x78) ++ Frame.encode request
    let served := l.session 0 2 [(1, stream.take 60), (2, stream.drop 60)]
      (Hosted.memory .empty, Disk.empty)
    ∃ refusal : Response,
      served.1 = utf8 "\x7b\"jsonrpc\":\"2.0\",\"id\":7,\"result\":0\x7d\n" ++
        Frame.encode refusal.encode ∧
      refusal.id = none ∧ served.2.1.connection 2 = .closed := by
  intro l request stream served
  have hframes : Frame.readAll l.maxFrameSize ([((1 : Nat), stream.take 60),
      (2, stream.drop 60)].map Prod.snd).flatten = ([request, []], .tooLong) := by decide +kernel
  have hanswer : (l.service.handleAll 0 Token.live
        ([request, []].filter fun frame => decide (frame ≠ []))
        (Hosted.memory .empty, Disk.empty)).1.flatMap
        (fun response => Frame.encode response.encode) =
      utf8 "\x7b\"jsonrpc\":\"2.0\",\"id\":7,\"result\":0\x7d\n" := by decide +kernel
  obtain ⟨refusals, hsent, -, -, hlong, -⟩ := served_in_order l 2 (by decide)
    (by simp [NoneWaits, l]) (by decide) 0 0 3 [(1, stream.take 60), (2, stream.drop 60)]
    (Hosted.memory .empty, Disk.empty)
  rw [hframes] at hsent hlong
  obtain ⟨hclosed, refusal, rfl, hid, -⟩ := hlong rfl
  refine ⟨refusal, ?_, hid, hclosed⟩
  rw [hsent, List.flatMap_append, hanswer, List.flatMap_singleton]

end Listener

end ColdArchive
