import ColdArchive.Proofs.Files.Refusals
import ColdArchive.Proofs.Service.Trace

/-!
# Requests that are refused

A line may be no request, ask for no method, have wrong parameters, come too late, or be refused by
the archive in the middle of a change. Whatever the cause is, a response with an error says that
nothing was changed, and so does one without an error unless the line asked for a change.
-/

namespace ColdArchive

/-- The call may change the archive that it is made to. -/
def WireCall.Changes : WireCall → Prop
  | .close | .appendAncient .. | .truncateAncients _ => True
  | _ => False

namespace Service

/-- Lines that are refused leave an archive the same, those that are granted may change it only if
they ask for it, and those that come too late are refused. -/
structure RefusesCleanly [Json.Wording] {σ : Type} [Archive σ] (s : Service) (same : σ → σ → Prop)
    (a : σ) :
    Prop where
  refused : ∀ now token line, (s.handleLine now token line a).1.error ≠ none →
    same a (s.handleLine now token line a).2
  granted : ∀ now token line, (s.handleLine now token line a).1.error = none →
    ∃ call, s.callOf? line = some call ∧ (call.Changes ∨ (s.handleLine now token line a).2 = a)
  /-- Also a close is refused, and whatever else asks nothing of the archive. -/
  canceled : ∀ now token line, token.isFired now.checked = true →
    (s.handleLine now token line a).1.error ≠ none
  late : ∀ now token line r, requestOf? line = some r → r.deadlineMillis = some 0 →
    (s.handleLine now token line a).1.error ≠ none

section Lines

variable {σ : Type} [Archive σ] {s : Service} {now : Readings} {token : Token} {line : Bytes}
  {a : σ}

/-! ### Requests that come too late -/

theorem not_isLive_of_isFired {r : Request} (h : token.isFired now.checked = true) :
    ¬ (s.contextFor now.started token r).IsLive now.checked := by
  have hcanceled : (s.contextFor now.started token r).isCanceled now.checked = true := h
  rw [Context.isLive_iff, hcanceled]
  simp

theorem not_isLive_of_no_time {r : Request} (h : r.deadlineMillis = some 0) :
    ¬ (s.contextFor now.started token r).IsLive now.checked := by
  have hexpired : (s.contextFor now.started token r).isExpired now.checked = true := by
    simp [contextFor, budgetFor, h, Context.isExpired, Context.withToken, Context.withTimeout,
      Duration.ofMillis, now.started_le_checked]
  rw [Context.isLive_iff, hexpired]
  simp

/-- **A line is refused if its request is given up** before it is handled. -/
theorem error_of_not_isLive [Json.Wording]
    (h : ∀ r, requestOf? line = some r →
      ¬ (s.contextFor now.started token r).IsLive now.checked) :
    (s.handleLine now token line a).1.error ≠ none := by
  have decided := s.decided_handleLine now token line a
  generalize s.handleLine now token line a = handled at decided ⊢
  obtain ⟨response, a'⟩ := handled
  cases decided with
  | @dispatched r m hasks =>
    rcases dispatch_cases now (s.contextFor now.started token r) m r.params a with
      ⟨fault, hd⟩ | ⟨call, -, hl, -⟩
    · rw [hd]
      exact Option.some_ne_none _
    · exact absurd hl (h r hasks.request)
  | _ => exact Option.some_ne_none _

/-! ### Requests that reach the archive -/

/-- A call asks one call of the archive at most, and what is left is left by that. -/
theorem perform_cases (call : WireCall) (a : σ) (now : Instant) (ctx : Context) :
    (call.perform a now ctx).2 = a ∨
      ∃ asked, Asks call asked ∧ (call.perform a now ctx).2 = (Archive.perform a now ctx asked).2 ∧
        ∀ e, (call.perform a now ctx).1 = .error e →
          (Archive.perform a now ctx asked).1 = .error e := by
  unfold WireCall.perform
  split
  · exact .inl rfl
  · exact .inl rfl
  · next asked hasked =>
    exact .inr ⟨asked, asks_of_toCall? hasked, rfl, fun _ he => Except.map_eq_error_iff.mp he⟩

theorem Asks.changes {call : WireCall} {asked : Call} (h : Asks call asked)
    (hc : asked.Changes) : call.Changes := by
  cases h <;> trivial

/-- **A service refuses cleanly over an archive that does.** -/
theorem refusesCleanly [Json.Wording] {same : σ → σ → Prop} (hself : same a a)
    (hrefused : ∀ now ctx call e, (Archive.perform a now ctx call).1 = .error e →
      same a (Archive.perform a now ctx call).2)
    (hstill : ∀ now ctx call, ¬ Call.Changes call → (Archive.perform a now ctx call).2 = a)
    (s : Service) : s.RefusesCleanly same a where
  refused now token line herror := by
    rcases s.handleLine_cases now token line a with
      ⟨response, hline, -⟩ | ⟨call, ctx, response, -, hline, hok, -⟩
    · rw [hline]
      exact hself
    · rw [hline] at herror ⊢
      rcases perform_cases call a now.performed ctx with hsame | ⟨asked, -, hstate, herr⟩
      · rw [hsame]
        exact hself
      · rw [hstate]
        cases ho : (call.perform a now.performed ctx).1 with
        | ok result => exact absurd (hok result ho).1 herror
        | error e => exact hrefused now.performed ctx asked e (herr e ho)
  granted now token line hnone := by
    rcases s.handleLine_cases now token line a with
      ⟨response, hline, herror⟩ | ⟨call, ctx, response, hcall, hline, -, -⟩
    · rw [hline] at hnone
      exact absurd hnone herror
    · refine ⟨call, hcall, ?_⟩
      rw [hline]
      rcases perform_cases call a now.performed ctx with hsame | ⟨asked, hasks, hstate, -⟩
      · exact .inr hsame
      · by_cases hc : asked.Changes
        · exact .inl (hasks.changes hc)
        · exact .inr (hstate.trans (hstill now.performed ctx asked hc))
  canceled _ _ _ hfired := error_of_not_isLive fun _ _ => not_isLive_of_isFired hfired
  late _ _ _ r hr hzero := error_of_not_isLive fun r' hr' => by
    obtain rfl := Option.some.inj (hr.symm.trans hr')
    exact not_isLive_of_no_time hzero

end Lines

/-! ### Every service -/

/-- **What is refused leaves no trace**, over any archive in memory, and over one in files as long
as nobody else changes its files, whatever limit the device sets them. -/
theorem refuses_without_trace [Json.Wording] (s : Service) :
    (∀ m : Memory, s.RefusesCleanly (fun before after => after = before) m) ∧
      ∀ directory id a d, FileArchive.Used directory id a d →
        s.RefusesCleanly (fun (before after : FileArchive × Disk) =>
          after.1 = before.1 ∧ Disk.Touches [] before.2 after.2) (a, d) ∧
        ∀ now token line, FileArchive.Used directory id (s.handleLine now token line (a, d)).2.1
          (s.handleLine now token line (a, d)).2.2 := by
  constructor
  · intro m
    apply refusesCleanly
    · rfl
    · exact fun _ _ _ e he => Memory.perform_unchanged (.inr ⟨e, he⟩)
    · exact fun _ _ _ hc => Memory.perform_unchanged (.inl hc)
  · intro directory id a d h
    constructor
    · apply refusesCleanly
      · exact ⟨rfl, .refl _ _⟩
      · exact fun _ _ _ _ he => h.owns.refused he
      · exact fun _ _ _ hc => FileArchive.perform_of_not_changes hc
    · intro now token line
      rcases s.handleLine_cases now token line (a, d) with
        ⟨response, hline, -⟩ | ⟨call, ctx, response, -, hline, -, -⟩
      · rw [hline]
        exact h
      · rw [hline]
        rcases perform_cases call (a, d) now.performed ctx with hsame | ⟨asked, -, hstate, -⟩
        · rw [hsame]
          exact h
        · rw [hstate]
          exact h.happened (.call now.performed ctx asked)

/-- The last blob of a record is too long for the device: what was written of the others is gone. -/
theorem refuses_without_trace_of_long_blob :
    let s : Service := .ofConfig .default
    let now : Readings := ⟨0, 1000, 5000, by decide, by decide⟩
    let call : Call := .append 0 ⟨[2], [2], [2], [2], List.replicate 20 2⟩
    let line := (Request.make 1 (call.method.qualified s.ns) call.params).encode
    ∃ a d, FileArchive.Used "." 0 a d ∧ (s.handleLine now .live line (a, d)).1.error ≠ none ∧
      (s.handleLine now .live line (a, d)).2.1 = a ∧
      Disk.Touches [] d (s.handleLine now .live line (a, d)).2.2 := by
  intro s now call line
  have vacant : FileArchive.Vacant "." 0 (Disk.empty.limited 16) :=
    FileArchive.vacant_emptyDisk.withFaults _
  obtain ⟨a, o, d, hopen, hs, he, hfaults⟩ :=
    vacant.opens (FaultPlan.reports_capped _) (FaultPlan.obliging_capped _)
  have used : FileArchive.Used "." 0 a d :=
    .opened vacant.free (FaultPlan.reports_capped _) (FaultPlan.obliging_capped _) hopen
  let ctx := s.contextFor now.started .live (.make 1 (call.method.qualified s.ns) call.params)
  have live : ctx.IsLive now.checked ∧ ctx.IsLive now.performed := by decide
  have hrefused : (Archive.perform (a, d) now.performed ctx call).1 = .error (.io .tooLarge) := by
    obtain ⟨s', -, happend, -⟩ := FileM.append_exact hs.wired hfaults he
      ⟨[2], [2], [2], [2], List.replicate 20 2⟩
    have hfrozen : (a.state o d).frozen = 0 := (he.length .hash).symm
    rw [if_neg (by decide), hfrozen] at happend
    show (a.perform d now.performed ctx call).1 = _
    rw [FileArchive.perform_of_live live.2 (by simp [call]), FileArchive.work_eq hs.opened]
    simp only [call, FileM.perform, bind_apply, happend]
  have herror : (s.handleLine now .live line (a, d)).1.error ≠ none := by
    have fits : call.Fits := show 0 < wordLimit by decide
    have hparams : (Request.make 1 (call.method.qualified s.ns) call.params).params = call.params :=
      rfl
    rw [s.handleLine_encode now .live fun j hj => (call.plain_params j hj).mono (Nat.zero_le _),
      s.handleRequest_qualified now .live rfl rfl, hparams, dispatch_call live.1 fits, hrefused]
    exact Option.some_ne_none _
  exact ⟨a, d, used, herror,
    ((refuses_without_trace s).2 "." 0 a d used).1.refused now .live line herror⟩

end Service

end ColdArchive
