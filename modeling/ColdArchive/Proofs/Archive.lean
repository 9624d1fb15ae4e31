import ColdArchive.Archive

/-!
# What archives at hand have in common

An archive at hand answers a call with what was asked for, or refuses it for a cause of its own. The
answer does not depend on a context that lets the call go on, and one that does not stops every call
but a close. A close is always granted, and from then on every other call is refused.
-/

namespace ColdArchive

/-- The answer is of the kind that the call asks for. -/
def Reply.Suits : Call → Reply → Prop
  | .has .., .truth _ => True
  | .read .., .blob _ => True
  | .count, .number _ => True
  | .size _, .number _ => True
  | .append .., .done => True
  | .truncate _, .done => True
  | .sync, .done => True
  | .close, .done => True
  | _, _ => False

/-- The call may change the archive. -/
def Call.Changes : Call → Prop
  | .append .. | .truncate _ | .close => True
  | _ => False

/-- An archive at hand can fail in this way. -/
def StoreError.IsLocal : StoreError → Prop
  | notFound .. => True
  | outOfOrderAppend .. => True
  | invalidTruncateTarget .. => True
  | closed => True
  | canceled => True
  | deadlineExceeded => True
  | corrupted _ => True
  | io _ => True
  | _ => False

theorem StoreError.isLocal_of_check {ctx : Context} {now : Instant} {e : StoreError}
    (h : ctx.check now = .error e) : e.IsLocal := by
  rcases Context.check_eq_error h with rfl | rfl <;> trivial

/-- The outcome of a call at hand. -/
structure Outcome.IsLocal (call : Call) (o : Outcome) : Prop where
  suits : ∀ reply, o = .ok reply → reply.Suits call
  fails : ∀ e, o = .error e → e.IsLocal

@[simp] theorem Outcome.isLocal_error {e : StoreError} {call : Call} :
    Outcome.IsLocal call (.error e) ↔ e.IsLocal := by
  refine ⟨fun h => h.fails e rfl, fun h => ⟨fun _ ho => (by cases ho), ?_⟩⟩
  intro e' he
  cases he
  exact h

@[simp] theorem Outcome.isLocal_ok {reply : Reply} {call : Call} :
    Outcome.IsLocal call (.ok reply) ↔ reply.Suits call := by
  refine ⟨fun h => h.suits reply rfl, fun h => ⟨?_, fun _ ho => (by cases ho)⟩⟩
  intro r hr
  cases hr
  exact h

/-- Every call but a close is refused. -/
def Archive.IsClosed {σ : Type} [Archive σ] (s : σ) : Prop :=
  ∀ now ctx call, ctx.IsLive now →
    Archive.perform s now ctx call = (if call = .close then .ok .done else .error .closed, s)

/-- An archive at hand. -/
class LocalArchive (σ : Type) [Archive σ] : Prop where
  /-- The answer and the state after it do not depend on a context that lets the call go on. -/
  live : ∀ (s : σ) (now now' : Instant) (ctx ctx' : Context) (call : Call), ctx.IsLive now →
    ctx'.IsLive now' → Archive.perform s now ctx call = Archive.perform s now' ctx' call
  /-- A call that is stopped leaves the state as it is. -/
  stopped : ∀ (s : σ) (now : Instant) (ctx : Context) (call : Call) (e : StoreError),
    ctx.check now = .error e → call ≠ .close → Archive.perform s now ctx call = (.error e, s)
  outcome : ∀ (s : σ) (now : Instant) (ctx : Context) (call : Call),
    Outcome.IsLocal call (Archive.perform s now ctx call).1
  close : ∀ (s : σ) (now : Instant) (ctx : Context),
    (Archive.perform s now ctx .close).1 = .ok .done ∧
      Archive.IsClosed (Archive.perform s now ctx .close).2

end ColdArchive
