import ColdArchive.Error

/-!
The deadline and the cancellation token carried by every call, and when they stop it.
-/

namespace ColdArchive

/-- A reading of the clock, in nanoseconds. -/
abbrev Instant := Nat

/-- A span of time, in nanoseconds. -/
abbrev Duration := Nat

namespace Duration

def ofMicros (n : Nat) : Duration := n * 1000
def ofMillis (n : Nat) : Duration := n * 1000000
def ofSeconds (n : Nat) : Duration := n * 1000000000
def ofMinutes (n : Nat) : Duration := ofSeconds (60 * n)

/-- The whole milliseconds of a span. -/
def millis (d : Duration) : Nat := d / 1000000

end Duration

namespace Instant

/-- The first instant that the clock cannot show. Its seconds are counted in 63 bits. -/
def limit : Instant := Nat.pow 2 63 * 1000000000

/-- The instant a span after another, if the clock can show it. -/
def after? (now : Instant) (d : Duration) : Option Instant :=
  if now + d < limit then some (now + d) else none

theorem after?_eq_some_iff {now later : Instant} {d : Duration} :
    now.after? d = some later ↔ now + d < limit ∧ now + d = later := by
  unfold after?
  split <;> simp [*]

theorem after?_eq_none_iff {now : Instant} {d : Duration} :
    now.after? d = none ↔ limit ≤ now + d := by
  simp [after?]

end Instant

/-- The readings of the clock while a request is handled, none earlier than the one before. -/
structure Readings where
  /-- The limits of the request are set. -/
  started : Instant
  /-- The service looks at the limits. -/
  checked : Instant
  /-- The archive looks at them. -/
  performed : Instant
  started_le_checked : started ≤ checked
  checked_le_performed : checked ≤ performed
  deriving DecidableEq, Repr

/-- All of a request is handled at one reading of the clock. -/
def Readings.at (now : Instant) : Readings := ⟨now, now, now, Nat.le_refl now, Nat.le_refl now⟩

@[simp] theorem Readings.started_at (now : Instant) : (Readings.at now).started = now := rfl

@[simp] theorem Readings.checked_at (now : Instant) : (Readings.at now).checked = now := rfl

@[simp] theorem Readings.performed_at (now : Instant) : (Readings.at now).performed = now := rfl

/-- A handle through which a call can be given up, with the time at which that happens, if it
ever does. -/
structure Token where
  firesAt : Option Instant
  deriving DecidableEq, Repr

namespace Token

/-- A token nobody fires. -/
def live : Token := ⟨none⟩

/-- A token that has been fired since ever. -/
def fired : Token := ⟨some 0⟩

def isFired (t : Token) (now : Instant) : Bool :=
  match t.firesAt with
  | some time => decide (time ≤ now)
  | none => false

end Token

/-- What limits a call: a deadline, a cancellation token, both or neither. -/
structure Context where
  deadline : Option Instant
  token : Option Token
  deriving DecidableEq, Repr

namespace Context

/-- The context without limits. -/
def background : Context := ⟨none, none⟩

/-- The same context with a deadline `timeout` after `now`, on a clock that can show it. -/
def withTimeout (ctx : Context) (now : Instant) (timeout : Duration) : Context :=
  { ctx with deadline := some (now + timeout) }

/-- The same, or nothing if the clock cannot show the deadline, which stops the program. -/
def withTimeout? (ctx : Context) (now : Instant) (timeout : Duration) : Option Context :=
  (now.after? timeout).map fun _ => ctx.withTimeout now timeout

def withToken (ctx : Context) (token : Token) : Context :=
  { ctx with token := some token }

/-- The same context, to end `timeout` after `now` unless its own deadline comes first, on a clock
that can show both. -/
def boundedBy (ctx : Context) (now : Instant) (timeout : Duration) : Context :=
  match ctx.deadline with
  | some current => { ctx with deadline := some (min current (now + timeout)) }
  | none => { ctx with deadline := some (now + timeout) }

/-- The same, or nothing if the clock cannot show the end of the timeout, which stops the program
also if the deadline of the context would come first. -/
def boundedBy? (ctx : Context) (now : Instant) (timeout : Duration) : Option Context :=
  (now.after? timeout).map fun _ => ctx.boundedBy now timeout

/-- The time left before the deadline, nothing once it passed. -/
def remaining (ctx : Context) (now : Instant) : Option Duration :=
  ctx.deadline.map fun deadline => deadline - now

def isCanceled (ctx : Context) (now : Instant) : Bool :=
  match ctx.token with
  | some token => token.isFired now
  | none => false

def isExpired (ctx : Context) (now : Instant) : Bool :=
  match ctx.deadline with
  | some deadline => decide (deadline ≤ now)
  | none => false

/-- Refuses a call that must not go on. Cancellation is reported before an expired deadline. -/
def check (ctx : Context) (now : Instant) : Except StoreError Unit :=
  if ctx.isCanceled now then .error .canceled
  else if ctx.isExpired now then .error .deadlineExceeded
  else .ok ()

/-- Why a call ends that waits for something that never comes: the limit that is met first, and
cancellation if both are met at once. -/
def endOfWait (ctx : Context) : StoreError :=
  match ctx.token.bind Token.firesAt, ctx.deadline with
  | some fires, some deadline => if fires ≤ deadline then .canceled else .deadlineExceeded
  | some _, none => .canceled
  | none, _ => .deadlineExceeded

/-- The context lets a call go on at `now`. -/
def IsLive (ctx : Context) (now : Instant) : Prop := ctx.check now = .ok ()

instance (ctx : Context) (now : Instant) : Decidable (ctx.IsLive now) :=
  if h : ctx.isCanceled now = true then
    isFalse (by simp [IsLive, check, h])
  else if h' : ctx.isExpired now = true then
    isFalse (by simp [IsLive, check, h, h'])
  else isTrue (by simp [IsLive, check, h, h'])

theorem isLive_iff {ctx : Context} {now : Instant} :
    ctx.IsLive now ↔ ctx.isCanceled now = false ∧ ctx.isExpired now = false := by
  unfold IsLive check
  cases ctx.isCanceled now <;> cases ctx.isExpired now <;> simp

@[simp] theorem isLive_background (now : Instant) : background.IsLive now := rfl

/-- A stopped call reports cancellation or an expired deadline and nothing else. -/
theorem check_eq_error {ctx : Context} {now : Instant} {e : StoreError}
    (h : ctx.check now = .error e) : e = .canceled ∨ e = .deadlineExceeded := by
  unfold check at h
  split at h
  · simp_all
  · split at h <;> simp_all

end Context

end ColdArchive
