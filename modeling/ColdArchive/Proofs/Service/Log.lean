import ColdArchive.Proofs.Disk.Changes
import ColdArchive.Proofs.Envelope
import ColdArchive.Service.WireCall

/-!
# Logs of granted calls

What clients are granted by a served archive makes a log. A log is safe if it could be that of one
list of records: no number is given twice unless it was cut off in between, what is read was the
last to be appended there, and after a close nothing is granted that asks for records (`LogSafe`).
A log is safe if every call in it was granted by the records that the calls before it left
(`Logged`).
-/

namespace ColdArchive

/-- A call that was granted, with its result. -/
structure Grant where
  call : WireCall
  result : Json

/-- The number of records after one more granted call. -/
def Grant.count (n : Nat) (g : Grant) : Nat :=
  match g.call with
  | .appendAncient _ _ => n + 1
  | .truncateAncients target => target
  | _ => n

/-- The number of records that the granted appends and truncations imply. -/
def implied (log : List Grant) : Nat := log.foldl Grant.count 0

/-- The call asks for the records, or to change or keep them. -/
def WireCall.NeedsRecords : WireCall → Prop
  | appendAncient _ _ | truncateAncients _ | ancient _ _ | ancients | ancientSize _ | sync => True
  | close | pingVersion | hasAncient _ _ => False

/-- The blob of a category was given for a number, last of all, and was not cut off since. -/
def Given (log : List Grant) (c : Category) (n : Nat) (envelope : String) : Prop :=
  ∃ before envelopes result after,
    log = before ++ ⟨.appendAncient n envelopes, result⟩ :: after ∧
      envelope = envelopes.get c ∧
      (∀ envelopes result, ⟨.appendAncient n envelopes, result⟩ ∉ after) ∧
      ∀ target result, ⟨.truncateAncients target, result⟩ ∈ after → n < target

/-- A log of calls that one list of records could grant. -/
structure LogSafe (log : List Grant) : Prop where
  /-- Between two appends at one number, the number was cut off. -/
  apart : ∀ before n envelopes result between envelopes' result' after,
    log = before ++ ⟨.appendAncient n envelopes, result⟩ :: between ++
      ⟨.appendAncient n envelopes', result'⟩ :: after →
    ∃ target result, target ≤ n ∧ ⟨.truncateAncients target, result⟩ ∈ between
  /-- An append is at the number of records. -/
  inOrder : ∀ before n envelopes result after,
    log = before ++ ⟨.appendAncient n envelopes, result⟩ :: after → n = implied before
  /-- A truncation adds no records. -/
  within : ∀ before target result after,
    log = before ++ ⟨.truncateAncients target, result⟩ :: after → target ≤ implied before
  /-- A read answers the envelope that was given last, with small letters, of the same bytes. -/
  read : ∀ before category n result after,
    log = before ++ ⟨.ancient category n, result⟩ :: after →
    ∃ c envelope blob, Category.ofName? category = some c ∧ Given before c n envelope ∧
      Envelope.decode envelope = .ok blob ∧ result = .string (Envelope.encode blob) ∧
      utf8 (Envelope.encode blob) = (utf8 envelope).map Envelope.lowered
  /-- The count is the number of records. -/
  counted : ∀ before result after,
    log = before ++ ⟨.ancients, result⟩ :: after → result = .ofNat (implied before)
  /-- After a close nothing is granted that needs records. -/
  closed : ∀ before result after,
    log = before ++ ⟨.close, result⟩ :: after → ∀ g ∈ after, ¬ g.call.NeedsRecords

/-! ### Calls granted by records -/

/-- How records grant a call, and the records that are left; there are none to ask for once the
archive was closed. -/
inductive Granted : Option (List Record) → Grant → Option (List Record) → Prop where
  | close (state : Option (List Record)) (result : Json) : Granted state ⟨.close, result⟩ none
  | pingVersion (state : Option (List Record)) (result : Json) :
      Granted state ⟨.pingVersion, result⟩ state
  | hasAncient (state : Option (List Record)) (category : String) (n : Nat) (result : Json) :
      Granted state ⟨.hasAncient category n, result⟩ state
  | ancient {records : List Record} {category : String} {c : Category} {n : Nat} {record : Record}
      (hc : Category.ofName? category = some c) (hn : records[n]? = some record) :
      Granted (some records) ⟨.ancient category n, .string (Envelope.encode (record.get c))⟩
        (some records)
  | ancients (records : List Record) :
      Granted (some records) ⟨.ancients, .ofNat records.length⟩ (some records)
  | ancientSize (records : List Record) (category : String) (result : Json) :
      Granted (some records) ⟨.ancientSize category, result⟩ (some records)
  | appendAncient {records : List Record} {envelopes : ByCategory String} {record : Record}
      (h : WireCall.openRecord envelopes = .ok record) (result : Json) :
      Granted (some records) ⟨.appendAncient records.length envelopes, result⟩
        (some (records ++ [record]))
  | truncateAncients {records : List Record} {target : Nat} (h : target ≤ records.length)
      (result : Json) :
      Granted (some records) ⟨.truncateAncients target, result⟩ (some (records.take target))
  | sync (records : List Record) (result : Json) :
      Granted (some records) ⟨.sync, result⟩ (some records)

/-- A log of calls each granted by the records that the calls before it left. -/
inductive Logged : List Grant → Option (List Record) → Prop where
  | nil : Logged [] (some [])
  | snoc {log : List Grant} {state state' : Option (List Record)} {g : Grant}
      (h : Logged log state) (hg : Granted state g state') : Logged (log ++ [g]) state'

section Logged

variable {log : List Grant} {g : Grant} {state state' : Option (List Record)}
  {records : List Record} {n : Nat}

theorem implied_concat (log : List Grant) (g : Grant) :
    implied (log ++ [g]) = g.count (implied log) := by
  rw [implied, List.foldl_append]
  rfl

/-- Every call of a log was granted by what the calls before it left. -/
theorem Logged.granted (h : Logged log state) {before after : List Grant}
    (heq : log = before ++ g :: after) :
    ∃ state₁ state₂, Logged before state₁ ∧ Granted state₁ g state₂ := by
  induction h generalizing after with
  | nil => simp at heq
  | @snoc log state state' last h hg ih =>
    rcases List.eq_nil_or_concat after with rfl | ⟨after, last', rfl⟩
    · obtain ⟨rfl, hlast⟩ := List.append_inj' heq rfl
      cases hlast
      exact ⟨state, state', h, hg⟩
    · rw [List.concat_eq_append, ← List.cons_append, ← List.append_assoc] at heq
      exact ih (List.append_inj' heq rfl).1

/-- A closed archive stays closed. -/
theorem Granted.eq_none (h : Granted none g state') : state' = none := by
  cases h <;> rfl

theorem Granted.not_needsRecords (h : Granted none g state') : ¬ g.call.NeedsRecords := by
  cases h <;> exact id

theorem Granted.length (h : Granted (some records) g state') {records' : List Record}
    (hs : state' = some records') : records'.length = g.count records.length := by
  cases h <;> cases hs <;> simp only [Grant.count, List.length_append, List.length_take,
    List.length_cons, List.length_nil]
  omega

/-- The records are as many as the log implies. -/
theorem Logged.length (h : Logged log state) (hs : state = some records) :
    records.length = implied log := by
  induction h generalizing records with
  | nil =>
    cases hs
    rfl
  | @snoc log state state' g h hg ih =>
    cases state with
    | none => cases hg.eq_none.symm.trans hs
    | some before => rw [implied_concat, ← ih rfl, hg.length hs]

/-- Nothing is left of the records after a close. -/
theorem Logged.eq_none (h : Logged log state) {result : Json} (hc : ⟨.close, result⟩ ∈ log) :
    state = none := by
  induction h with
  | nil => cases hc
  | snoc h hg ih =>
    rcases List.mem_append.mp hc with hc | hc
    · rw [ih hc] at hg
      exact hg.eq_none
    · cases List.mem_singleton.mp hc
      cases hg
      rfl

/-! ### Where records come from -/

/-- An append at the number gave the record, last of all, and it was not cut off since. -/
def Entered (log : List Grant) (n : Nat) (record : Record) : Prop :=
  ∃ before envelopes result after,
    log = before ++ ⟨.appendAncient n envelopes, result⟩ :: after ∧
      WireCall.openRecord envelopes = .ok record ∧
      (∀ envelopes result, ⟨.appendAncient n envelopes, result⟩ ∉ after) ∧
      ∀ target result, ⟨.truncateAncients target, result⟩ ∈ after → n < target

/-- A call that neither appends at the number nor cuts it off lets the record be. -/
theorem Entered.concat {record : Record} (h : Entered log n record)
    (happend : ∀ envelopes result, g ≠ ⟨.appendAncient n envelopes, result⟩)
    (htruncate : ∀ target result, g = ⟨.truncateAncients target, result⟩ → n < target) :
    Entered (log ++ [g]) n record := by
  obtain ⟨before, envelopes, result, after, rfl, hopen, hnot, hspare⟩ := h
  refine ⟨before, envelopes, result, after ++ [g], by simp, hopen, ?_, ?_⟩
  · intro envelopes result hm
    rcases List.mem_append.mp hm with hm | hm
    · exact hnot _ _ hm
    · exact happend _ _ (List.mem_singleton.mp hm).symm
  · intro target result hm
    rcases List.mem_append.mp hm with hm | hm
    · exact hspare _ _ hm
    · exact htruncate _ _ (List.mem_singleton.mp hm).symm

/-- The records of a log were entered by its appends. -/
theorem Logged.entered (h : Logged log state) (hs : state = some records) {record : Record}
    (hn : records[n]? = some record) : Entered log n record := by
  induction h generalizing records with
  | nil =>
    cases hs
    cases hn
  | @snoc log state state' g h hg ih =>
    cases hg with
    | appendAncient hopen result =>
      cases hs
      next records₀ envelopes record₀ =>
      rcases Nat.lt_trichotomy n records₀.length with hlt | rfl | hgt
      · rw [List.getElem?_append_left hlt] at hn
        refine (ih rfl hn).concat (fun _ _ he => ?_) (by simp)
        simp only [Grant.mk.injEq, WireCall.appendAncient.injEq] at he
        omega
      · rw [List.getElem?_append_right (Nat.le_refl _), Nat.sub_self] at hn
        cases hn
        exact ⟨log, envelopes, result, [], rfl, hopen, by simp, by simp⟩
      · rw [List.getElem?_eq_none (by rw [List.length_append, List.length_singleton]; omega)] at hn
        cases hn
    | @truncateAncients records₀ target ht result =>
      cases hs
      have hlt : n < target := by
        have := (List.getElem?_eq_some_iff.mp hn).1
        rw [List.length_take] at this
        omega
      rw [List.getElem?_take_of_lt hlt] at hn
      refine (ih rfl hn).concat (by simp) fun _ _ he => ?_
      simp only [Grant.mk.injEq, WireCall.truncateAncients.injEq] at he
      omega
    | close => cases hs
    | _ => exact (ih hs hn).concat (by simp) (by simp)

/-- The blobs of a record come from its envelopes. -/
theorem decode_of_openRecord {envelopes : ByCategory String} {record : Record}
    (h : WireCall.openRecord envelopes = .ok record) (c : Category) :
    Envelope.decode (envelopes.get c) = .ok (record.get c) := by
  have opened : ∀ {text : String} {blob : Blob}, WireCall.openEnvelope text = .ok blob →
      Envelope.decode text = .ok blob := by
    intro text blob ho
    unfold WireCall.openEnvelope at ho
    cases hd : Envelope.decode text with
    | ok blob' =>
      rw [hd] at ho
      cases ho
      rfl
    | error e =>
      rw [hd] at ho
      cases ho
  obtain ⟨hash, h₁, h⟩ := bind_eq_ok h
  obtain ⟨header, h₂, h⟩ := bind_eq_ok h
  obtain ⟨body, h₃, h⟩ := bind_eq_ok h
  obtain ⟨receipts, h₄, h⟩ := bind_eq_ok h
  obtain ⟨difficulty, h₅, h⟩ := bind_eq_ok h
  cases h
  cases c with
  | hash => exact opened h₁
  | header => exact opened h₂
  | body => exact opened h₃
  | receipts => exact opened h₄
  | difficulty => exact opened h₅

/-- What is entered was given in each category. -/
theorem Entered.given {record : Record} (h : Entered log n record) (c : Category) :
    ∃ envelope, Given log c n envelope ∧ Envelope.decode envelope = .ok (record.get c) := by
  obtain ⟨before, envelopes, result, after, hlog, hopen, hnot, hspare⟩ := h
  exact ⟨envelopes.get c, ⟨before, envelopes, result, after, hlog, rfl, hnot, hspare⟩,
    decode_of_openRecord hopen c⟩

/-! ### Safety -/

/-- A number below the count stays so while it is not cut off. -/
theorem lt_implied_append {before between : List Grant} (hn : n < implied before)
    (h : ∀ target result, ⟨.truncateAncients target, result⟩ ∈ between → n < target) :
    n < implied (before ++ between) := by
  induction between generalizing before with
  | nil => rwa [List.append_nil]
  | cons g between ih =>
    rw [← List.singleton_append, ← List.append_assoc]
    refine ih ?_ fun target result hm => h target result (List.mem_cons_of_mem _ hm)
    rw [implied_concat]
    obtain ⟨call, result⟩ := g
    cases call with
    | appendAncient => exact Nat.lt_succ_of_lt hn
    | truncateAncients target => exact h target result (List.mem_cons_self ..)
    | _ => exact hn

theorem Logged.inOrder (h : Logged log state) {before after : List Grant}
    {envelopes : ByCategory String} {result : Json}
    (heq : log = before ++ ⟨.appendAncient n envelopes, result⟩ :: after) : n = implied before := by
  obtain ⟨state₁, state₂, h₁, hg⟩ := h.granted heq
  cases hg
  exact h₁.length rfl

/-- **A log of calls granted one after the other by records is safe.** -/
theorem Logged.safe (h : Logged log state) : LogSafe log where
  apart before n envelopes result between envelopes' result' after heq := by
    have hfirst : n = implied before := h.inOrder (heq.trans (List.append_assoc _ _ _))
    have hsecond : n = implied (before ++ ⟨.appendAncient n envelopes, result⟩ :: between) :=
      h.inOrder heq
    have hlt : n < implied (before ++ [⟨.appendAncient n envelopes, result⟩]) := by
      rw [implied_concat, ← hfirst]
      exact Nat.lt_succ_self n
    -- without a cut the second append would be past its number
    refine Classical.byContradiction fun hnot => ?_
    have hpast := lt_implied_append hlt fun target result hm =>
      Nat.lt_of_not_le fun hle => hnot ⟨target, result, hle, hm⟩
    rw [List.append_assoc, List.singleton_append, ← hsecond] at hpast
    exact Nat.lt_irrefl n hpast
  inOrder before n envelopes result after heq := h.inOrder heq
  within before target result after heq := by
    obtain ⟨state₁, state₂, h₁, hg⟩ := h.granted heq
    cases hg with
    | truncateAncients ht => exact h₁.length rfl ▸ ht
  read before category n result after heq := by
    obtain ⟨state₁, state₂, h₁, hg⟩ := h.granted heq
    cases hg with
    | @ancient records _ c _ record hc hn =>
      obtain ⟨envelope, hgiven, hdecode⟩ := (h₁.entered rfl hn).given c
      exact ⟨c, envelope, record.get c, hc, hgiven, hdecode, rfl,
        Envelope.utf8_encode_of_decode hdecode⟩
  counted before result after heq := by
    obtain ⟨state₁, state₂, h₁, hg⟩ := h.granted heq
    cases hg with
    | ancients records => rw [h₁.length rfl]
  closed before result after heq g hm := by
    obtain ⟨before', after', rfl⟩ := List.append_of_mem hm
    have hlog : log = (before ++ ⟨.close, result⟩ :: before') ++ g :: after' :=
      heq.trans (List.append_assoc before (_ :: before') _).symm
    obtain ⟨state₁, state₂, h₁, hg⟩ := h.granted hlog
    have hclose : (⟨.close, result⟩ : Grant) ∈ before ++ ⟨.close, result⟩ :: before' := by simp
    rw [h₁.eq_none hclose] at hg
    exact hg.not_needsRecords

end Logged

end ColdArchive
