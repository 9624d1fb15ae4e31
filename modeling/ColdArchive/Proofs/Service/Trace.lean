import ColdArchive.Proofs.Files.Answers
import ColdArchive.Proofs.Files.Records
import ColdArchive.Proofs.Service.Dispatch
import ColdArchive.Proofs.Service.Log

/-!
# What clients are granted

Lines come in from any clients, in any order, at any times, and most of them may be no requests.
What is granted of them makes a safe log, over an archive in memory as over one in files: every
granted line asks for a call, the call reaches the archive as it was asked, and the archive answers
by its records.
-/

namespace ColdArchive

/-- A line that came in, when it was handled, and the token of its connection. -/
structure Arrival where
  now : Readings
  token : Token
  line : Bytes

namespace Service

/-- The call that a line asks for, if it asks for one. -/
def callOf? (s : Service) (line : Bytes) : Option WireCall := do
  let j ← Json.ofBytes? line
  let r ← (Request.ofJson j).toOption
  let m ← Method.resolve? s.ns r.method
  (WireCall.ofParams r.params m).toOption

/-- The responses to lines, one after the other. -/
def handleLines [Json.Wording] {σ : Type} [Archive σ] (s : Service) :
    σ → List Arrival → List Response
  | _, [] => []
  | a, arrival :: rest =>
    let (response, a) := s.handleLine arrival.now arrival.token arrival.line a
    response :: handleLines s a rest

/-- The call that a response without an error grants. -/
def grant? (s : Service) (arrival : Arrival) (response : Response) : Option Grant :=
  match response.error with
  | some _ => none
  | none => (s.callOf? arrival.line).map fun call => ⟨call, response.result.getD .null⟩

/-- The log of what was granted. -/
def grants (s : Service) (arrivals : List Arrival) (responses : List Response) : List Grant :=
  (arrivals.zip responses).filterMap fun (arrival, response) => s.grant? arrival response

/-- Whatever lines come in, a response without an error answers a call, and what is granted makes a
safe log. -/
def ServesSafely [Json.Wording] {σ : Type} [Archive σ] (s : Service) (a : σ) : Prop :=
  ∀ arrivals : List Arrival, (s.handleLines a arrivals).length = arrivals.length ∧
    (∀ exchange ∈ arrivals.zip (s.handleLines a arrivals), exchange.2.error = none →
      (s.callOf? exchange.1.line).isSome) ∧
    LogSafe (s.grants arrivals (s.handleLines a arrivals))

/-! ### One line -/

section Line

variable {σ : Type} [Archive σ]

/-- What becomes of a method with parameters: it is refused before the archive is asked, or it is
a call, and the call is answered. -/
theorem dispatch_cases (now : Readings) (ctx : Context) (m : Method) (params : List Json) (a : σ) :
    (∃ fault, dispatch now ctx m params a = (.error fault, a)) ∨
      ∃ call, WireCall.ofParams params m = .ok call ∧ ctx.IsLive now.checked ∧
        dispatch now ctx m params a =
          ((call.perform a now.performed ctx).1.mapError Fault.ofError,
            (call.perform a now.performed ctx).2) := by
  unfold dispatch
  split
  · exact .inl ⟨_, rfl⟩
  · split
    · exact .inl ⟨_, rfl⟩
    · next hlive =>
      split
      · exact .inl ⟨_, rfl⟩
      · next call hcall => exact .inr ⟨call, hcall, hlive, rfl⟩

/-- A line asks for a call if it is a request whose method and parameters make that call. -/
theorem callOf?_eq_some_iff {s : Service} {line : Bytes} {call : WireCall} :
    s.callOf? line = some call ↔ ∃ r m, requestOf? line = some r ∧ r.method = m.qualified s.ns ∧
      WireCall.ofParams r.params m = .ok call := by
  have hbind : s.callOf? line = (requestOf? line).bind fun r =>
      (Method.resolve? s.ns r.method).bind fun m => (WireCall.ofParams r.params m).toOption := by
    simp [callOf?, requestOf?, Option.bind_assoc]
  have hok : ∀ x : Except Fault WireCall, x.toOption = some call ↔ x = .ok call := by
    intro x
    cases x <;> simp [Except.toOption]
  simp [hbind, Option.bind_eq_some_iff, Method.resolve?_eq_some_iff, hok]

/-- **What becomes of a line**: it is refused before the archive is asked, or it asks for a call,
and the call decides. -/
theorem handleLine_cases [Json.Wording] (s : Service) (now : Readings) (token : Token)
    (line : Bytes) (a : σ) :
    (∃ response, s.handleLine now token line a = (response, a) ∧ response.error ≠ none) ∨
      ∃ call ctx response, s.callOf? line = some call ∧
        s.handleLine now token line a = (response, (call.perform a now.performed ctx).2) ∧
        (∀ result, (call.perform a now.performed ctx).1 = .ok result →
          response.error = none ∧ response.result = some result) ∧
        ∀ e, (call.perform a now.performed ctx).1 = .error e → response.error ≠ none := by
  have decided := s.decided_handleLine now token line a
  generalize s.handleLine now token line a = handled at decided ⊢
  obtain ⟨response, a'⟩ := handled
  cases decided with
  | @dispatched r m hasks =>
    rcases dispatch_cases now (s.contextFor now.started token r) m r.params a with
      ⟨fault, hd⟩ | ⟨call, hp, -, hd⟩
    · rw [hd]
      exact .inl ⟨_, rfl, Option.some_ne_none _⟩
    · rw [hd]
      refine .inr ⟨call, _, _, callOf?_eq_some_iff.mpr ⟨r, m, hasks.request, hasks.method, hp⟩,
        rfl, fun result ho => ?_, fun e ho => ?_⟩
      · rw [ho]
        exact ⟨rfl, rfl⟩
      · rw [ho]
        exact Option.some_ne_none _
  | _ => exact .inl ⟨_, rfl, Option.some_ne_none _⟩

end Line

/-! ### What a call on the wire asks for -/

/-- What a call on the wire asks of the archive. -/
inductive Asks : WireCall → Call → Prop where
  | close : Asks .close .close
  | has (category : String) (c : Category) (n : Nat) : Asks (.hasAncient category n) (.has c n)
  | read {category : String} {c : Category} (h : Category.ofName? category = some c) (n : Nat) :
      Asks (.ancient category n) (.read c n)
  | count : Asks .ancients .count
  | size (category : String) (c : Category) : Asks (.ancientSize category) (.size c)
  | append (n : Nat) {envelopes : ByCategory String} {record : Record}
      (h : WireCall.openRecord envelopes = .ok record) :
      Asks (.appendAncient n envelopes) (.append n record)
  | truncate (target : Nat) : Asks (.truncateAncients target) (.truncate target)
  | sync : Asks .sync .sync

section Asks

variable {call : WireCall} {asked : Call}

theorem ofName?_of_ofName {category : String} {c : Category}
    (h : Category.ofName category = .ok c) : Category.ofName? category = some c := by
  unfold Category.ofName at h
  split at h
  · next hc =>
    cases h
    exact hc
  · cases h

theorem asks_of_toCall? (h : call.toCall? = .ok (some asked)) : Asks call asked := by
  cases call with
  | close =>
    cases h
    exact .close
  | pingVersion => cases h
  | hasAncient category n =>
    obtain ⟨c, -, rfl⟩ := Option.map_eq_some_iff.mp (Except.ok.inj h)
    exact .has category c n
  | ancient category n =>
    obtain ⟨c, hc, h⟩ := bind_eq_ok h
    cases h
    exact .read (ofName?_of_ofName hc) n
  | ancients =>
    cases h
    exact .count
  | ancientSize category =>
    obtain ⟨c, -, h⟩ := bind_eq_ok h
    cases h
    exact .size category c
  | appendAncient n envelopes =>
    obtain ⟨record, hrecord, h⟩ := bind_eq_ok h
    cases h
    exact .append n hrecord
  | truncateAncients target =>
    cases h
    exact .truncate target
  | sync =>
    cases h
    exact .sync

/-- What asks nothing of the archive is granted by any records. -/
theorem granted_of_toCall?_none (h : call.toCall? = .ok none) (state : Option (List Record))
    (result : Json) : Granted state ⟨call, result⟩ state := by
  cases call with
  | pingVersion => exact .pingVersion state result
  | hasAncient category n => exact .hasAncient state category n result
  | ancient category n =>
    obtain ⟨c, -, h⟩ := bind_eq_ok h
    cases h
  | ancientSize category =>
    obtain ⟨c, -, h⟩ := bind_eq_ok h
    cases h
  | appendAncient n envelopes =>
    obtain ⟨record, -, h⟩ := bind_eq_ok h
    cases h
  | _ => cases h

/-- **A call that the records answer is granted by them.** -/
theorem granted_of_answered (ha : Asks call asked) {records records' : List Record} {reply : Reply}
    (h : Answered records asked (.ok reply) records') :
    Granted (some records) ⟨call, reply.toJson⟩ (some records') := by
  cases h with
  | has c n =>
    cases ha
    exact .hasAncient _ _ _ _
  | read c hn =>
    cases ha with
    | read hc => exact .ancient hc hn
  | count =>
    cases ha
    exact .ancients records
  | size c =>
    cases ha
    exact .ancientSize records _ _
  | append record =>
    cases ha with
    | append _ hrecord => exact .appendAncient hrecord _
  | truncate ht =>
    cases ha
    exact .truncateAncients ht _
  | sync =>
    cases ha
    exact .sync records _

end Asks

/-! ### Archives that have records -/

/-- Archives for which it holds answer their calls by the records. -/
def AnswersByRecords {σ : Type} [Archive σ] (has : σ → List Record → Prop) : Prop :=
  ∀ a records, has a records → ∀ now ctx call, Context.IsLive ctx now → call ≠ .close →
    ∃ records', Answered records call (Archive.perform a now ctx call).1 records' ∧
      has (Archive.perform a now ctx call).2 records'

/-- The archive has the records, or is closed. -/
def Stands {σ : Type} [Archive σ] (has : σ → List Record → Prop) (a : σ) :
    Option (List Record) → Prop
  | some records => has a records
  | none => Archive.IsClosed a

section Records

variable {σ : Type} [Archive σ] [LocalArchive σ] {has : σ → List Record → Prop}

/-- **A call is granted by the records of the archive**, or leaves them as they are. -/
theorem perform_stands (hhas : AnswersByRecords has) {a : σ} {state : Option (List Record)}
    (h : Stands has a state) (now : Instant) (ctx : Context) (call : WireCall) :
    ∃ state', Stands has (call.perform a now ctx).2 state' ∧
      (∀ result, (call.perform a now ctx).1 = .ok result → Granted state ⟨call, result⟩ state') ∧
      ∀ e, (call.perform a now ctx).1 = .error e → state' = state := by
  unfold WireCall.perform
  split
  · exact ⟨state, h, fun _ ho => (by cases ho), fun _ _ => rfl⟩
  · next hnone =>
    exact ⟨state, h, fun result _ => granted_of_toCall?_none hnone state result, fun _ _ => rfl⟩
  next asked hasked =>
  have asks := asks_of_toCall? hasked
  by_cases hc : asked = .close
  · subst hc
    cases asks
    obtain ⟨hdone, hclosed⟩ := LocalArchive.close a now ctx
    refine ⟨none, hclosed, fun result _ => .close state result, fun e he => ?_⟩
    simp only [hdone] at he
    cases he
  cases hl : ctx.check now with
  | error stop =>
    simp only [LocalArchive.stopped a now ctx asked stop hl hc]
    exact ⟨state, h, fun _ ho => (by cases ho), fun _ _ => rfl⟩
  | ok _ =>
  cases state with
  | none =>
    simp only [h now ctx asked hl, if_neg hc]
    exact ⟨none, h, fun _ ho => (by cases ho), fun _ _ => rfl⟩
  | some records =>
    obtain ⟨records', hanswered, hhas'⟩ := hhas a records h now ctx asked hl hc
    generalize Archive.perform a now ctx asked = answered at hanswered hhas'
    obtain ⟨outcome, a'⟩ := answered
    refine ⟨some records', hhas', ?_⟩
    cases outcome with
    | ok reply =>
      refine ⟨fun result ho => ?_, fun _ he => by cases he⟩
      cases ho
      exact granted_of_answered asks hanswered
    | error e =>
      refine ⟨fun _ ho => (by cases ho), fun _ _ => ?_⟩
      cases hanswered
      rfl

/-- **What one line preserves**: what was granted is granted by the records. -/
theorem handleLine_stands [Json.Wording] (hhas : AnswersByRecords has) (s : Service) {a : σ}
    {state : Option (List Record)} (h : Stands has a state) (arrival : Arrival) :
    ∃ response a' state', s.handleLine arrival.now arrival.token arrival.line a = (response, a') ∧
      Stands has a' state' ∧
      (response.error = none → (s.callOf? arrival.line).isSome) ∧
      (∀ g, s.grant? arrival response = some g → Granted state g state') ∧
      (s.grant? arrival response = none → state' = state) := by
  obtain ⟨now, token, line⟩ := arrival
  rcases s.handleLine_cases now token line a with
    ⟨response, hline, herror⟩ | ⟨call, ctx, response, hcall, hline, hok, hrefused⟩
  · obtain ⟨fault, hfault⟩ := Option.ne_none_iff_exists'.mp herror
    have hgrant : s.grant? ⟨now, token, line⟩ response = none := by simp only [grant?, hfault]
    refine ⟨response, a, state, hline, h, fun hnone => absurd hnone herror, fun g hg => ?_,
      fun _ => rfl⟩
    rw [hgrant] at hg
    cases hg
  · obtain ⟨state', hstands, hgranted, hkept⟩ := perform_stands hhas h now.performed ctx call
    refine ⟨response, _, state', hline, hstands, fun _ => by rw [hcall]; rfl, ?_⟩
    cases ho : (call.perform a now.performed ctx).1 with
    | ok result =>
      obtain ⟨herror, hresult⟩ := hok result ho
      have hgrant : s.grant? ⟨now, token, line⟩ response = some ⟨call, result⟩ := by
        simp only [grant?, herror, hresult, hcall, Option.map_some, Option.getD_some]
      rw [hgrant]
      exact ⟨fun g hg => Option.some.inj hg ▸ hgranted result ho, fun hn => by cases hn⟩
    | error e =>
      obtain ⟨fault, hfault⟩ := Option.ne_none_iff_exists'.mp (hrefused e ho)
      have hgrant : s.grant? ⟨now, token, line⟩ response = none := by simp only [grant?, hfault]
      rw [hgrant]
      exact ⟨fun g hg => (by cases hg), fun _ => hkept e ho⟩

/-- **What a run of lines preserves**: what was granted makes a log. -/
theorem handleLines_logged [Json.Wording] (hhas : AnswersByRecords has) (s : Service)
    (arrivals : List Arrival) {a : σ} {log : List Grant} {state : Option (List Record)} (hlog : Logged log state)
    (h : Stands has a state) :
    (s.handleLines a arrivals).length = arrivals.length ∧
      (∀ exchange ∈ arrivals.zip (s.handleLines a arrivals), exchange.2.error = none →
        (s.callOf? exchange.1.line).isSome) ∧
      ∃ state', Logged (log ++ s.grants arrivals (s.handleLines a arrivals)) state' := by
  induction arrivals generalizing a log state with
  | nil =>
    refine ⟨rfl, fun _ hm => absurd hm List.not_mem_nil, state, ?_⟩
    simpa [grants, handleLines] using hlog
  | cons arrival rest ih =>
    obtain ⟨response, a', state', hline, hstands, hasks, hgranted, hkept⟩ :=
      handleLine_stands hhas s h arrival
    have hlines : s.handleLines a (arrival :: rest) = response :: s.handleLines a' rest := by
      simp only [handleLines, hline]
    have hlog' : Logged (log ++ (s.grant? arrival response).toList) state' := by
      cases hg : s.grant? arrival response with
      | none =>
        rw [hkept hg]
        simpa using hlog
      | some g => exact hlog.snoc (hgranted g hg)
    obtain ⟨hlength, hall, final, hfinal⟩ := ih hlog' hstands
    rw [hlines]
    refine ⟨congrArg Nat.succ hlength, ?_, final, ?_⟩
    · intro exchange hm
      rcases List.mem_cons.mp hm with rfl | hm
      · exact hasks
      · exact hall exchange hm
    · rw [List.append_assoc] at hfinal
      simp only [grants, List.zip_cons_cons, List.filterMap_cons]
      cases hg : s.grant? arrival response with
      | none =>
        rw [hg] at hfinal
        exact hfinal
      | some g =>
        rw [hg] at hfinal
        exact hfinal

/-- An archive without records serves safely if it answers by those that it comes to have. -/
theorem servesSafely [Json.Wording] (hhas : AnswersByRecords has) (s : Service) {a : σ}
    (h : has a []) : s.ServesSafely a := by
  intro arrivals
  have start : Stands has a (some []) := h
  obtain ⟨hlength, hall, state, hlogged⟩ := handleLines_logged hhas s arrivals .nil start
  exact ⟨hlength, hall, hlogged.safe⟩

end Records

theorem answersByRecords_memory : AnswersByRecords Memory.Has :=
  fun _ _ h _ _ _ hl hc => h.perform hl hc

theorem answersByRecords_files (id : DirectoryId) :
    AnswersByRecords fun (archive : FileArchive × Disk) =>
      FileArchive.Has id archive.1 archive.2 := by
  intro archive records h now ctx call hl hc
  obtain ⟨records', hanswered, hhas, -⟩ := h.perform hl hc
  exact ⟨records', hanswered, hhas⟩

/-- **What clients are granted is safe**, whoever they are and whatever they send, over an archive
in memory and over one in files that nobody else touches, whatever writes the device refuses. -/
theorem grants_safe [Json.Wording] (s : Service) :
    s.ServesSafely Memory.empty ∧
      ∀ directory id d, FileArchive.Vacant directory id d → d.faults.Reports →
        d.faults.Obliging → ∃ a d', FileArchive.openAt directory d = .ok a d' ∧
          s.ServesSafely (a, d') := by
  refine ⟨servesSafely answersByRecords_memory s .empty, fun directory id d hvacant hr hp => ?_⟩
  obtain ⟨a, d', ho, hh, -⟩ := hvacant.opens_empty hr hp
  exact ⟨a, d', ho, servesSafely (answersByRecords_files id) s hh⟩

/-- Two clients append at one number, and one of them closes the archive. Each line is handled within
some microseconds. -/
def quarrel : List Arrival :=
  let line (m : Method) (params : List Json) : Bytes :=
    (Request.make 1 (m.qualified protocol.defaultNamespace) params).encode
  [line .appendAncient (.ofNat 0 :: ["0X1A", "0x", "0x", "0x", "0x"].map .string),
    utf8 "no request",
    line .appendAncient (.ofNat 0 :: ["0x2b", "0x", "0x", "0x", "0x"].map .string),
    line .ancient [.string "hashes", .ofNat 0],
    line .truncateAncients [.ofNat 0],
    line .appendAncient (.ofNat 0 :: ["0x2b", "0x", "0x", "0x", "0x"].map .string),
    line .close [],
    line .ancients []].map fun line => ⟨⟨0, 1000, 5000, by decide, by decide⟩, .live, line⟩

/-- What is granted of the quarrel, with the texts that are answered. -/
def settlement (a : FileArchive) (d : Disk) : List (WireCall × Option String) :=
  let s : Service := .ofConfig .default
  (s.grants quarrel (s.handleLines (a, d) quarrel)).map fun g => (g.call, g.result.asString?)

/-- Of the two appends at one number, the second is granted after a truncation. -/
theorem grants_safe_of_quarrel :
    ∃ a d, FileArchive.openAt "." .empty = .ok a d ∧
      ServesSafely (.ofConfig .default) (a, d) ∧
      settlement a d = [(.appendAncient 0 ⟨"0X1A", "0x", "0x", "0x", "0x"⟩, none),
        (.ancient "hashes" 0, some "0x1a"), (.truncateAncients 0, none),
        (.appendAncient 0 ⟨"0x2b", "0x", "0x", "0x", "0x"⟩, none), (.close, none)] := by
  obtain ⟨a, d, ho, hsafe⟩ := (grants_safe (.ofConfig .default)).2 "." 0 .empty
    FileArchive.vacant_emptyDisk FaultPlan.reports_reliable FaultPlan.obliging_reliable
  refine ⟨a, d, ho, hsafe, ?_⟩
  -- the opened archive and its disk, evaluated
  have hsettled : ((FileArchive.openAt ".").run' .empty).map (fun a =>
      settlement a (finalState (FileArchive.openAt "." .empty))) =
      some [(.appendAncient 0 ⟨"0X1A", "0x", "0x", "0x", "0x"⟩, none),
        (.ancient "hashes" 0, some "0x1a"), (.truncateAncients 0, none),
        (.appendAncient 0 ⟨"0x2b", "0x", "0x", "0x", "0x"⟩, none), (.close, none)] := by
    decide +kernel
  have hrun : (FileArchive.openAt ".").run' .empty = some a := by
    delta EStateM.run' EStateM.run
    rw [ho]
  have hdisk : finalState (FileArchive.openAt "." .empty) = d := by rw [ho]; rfl
  rw [hdisk, hrun, Option.map_some] at hsettled
  exact Option.some.inj hsettled

end Service

end ColdArchive
