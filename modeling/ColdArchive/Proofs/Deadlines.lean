import ColdArchive.CommandLine.Run
import ColdArchive.Proofs.Remote.Substitution

/-!
# Deadlines that the clock can show

A deadline is a sum of a reading of the clock and a span, and a sum that the clock cannot show stops
the program. A service and a remote archive add nothing to the clock but the times of their settings,
or less. The command line reads these times as milliseconds of 64 bits, and so the program that it
starts never stops for a deadline.
-/

namespace ColdArchive

namespace Context

variable {ctx ctx' : Context} {now : Instant} {timeout : Duration}

theorem withTimeout?_eq_some_iff : ctx.withTimeout? now timeout = some ctx' ↔
    now + timeout < Instant.limit ∧ ctx.withTimeout now timeout = ctx' := by
  simp [withTimeout?, Instant.after?_eq_some_iff]

theorem boundedBy?_eq_some_iff : ctx.boundedBy? now timeout = some ctx' ↔
    now + timeout < Instant.limit ∧ ctx.boundedBy now timeout = ctx' := by
  simp [boundedBy?, Instant.after?_eq_some_iff]

end Context

/-! ### Services -/

namespace Service

variable {s : Service} {now : Instant} {token : Token} {r : Request}

theorem budgetFor_le (s : Service) (r : Request) : s.budgetFor r ≤ s.requestTimeout := by
  unfold budgetFor
  split
  · exact Nat.min_le_left ..
  · exact Nat.le_refl _

/-- The limits of a request, or nothing if the clock cannot show its deadline. -/
def contextFor? (s : Service) (now : Instant) (token : Token) (r : Request) : Option Context :=
  (Context.background.withTimeout? now (s.budgetFor r)).map fun ctx => ctx.withToken token

/-- **A request stops a service** if and only if the clock cannot show the time for the request. -/
theorem contextFor?_eq_none_iff :
    s.contextFor? now token r = none ↔ Instant.limit ≤ now + s.budgetFor r := by
  simp [contextFor?, Context.withTimeout?, Instant.after?_eq_none_iff]

/-- Where the clock can show the time of the service, it can show that of every request. -/
theorem contextFor?_eq_some (h : now + s.requestTimeout < Instant.limit) :
    s.contextFor? now token r = some (s.contextFor now token r) := by
  have hshown : Context.background.withTimeout? now (s.budgetFor r) =
      some (Context.background.withTimeout now (s.budgetFor r)) :=
    Context.withTimeout?_eq_some_iff.mpr
      ⟨Nat.lt_of_le_of_lt (Nat.add_le_add_left (s.budgetFor_le r) now) h, rfl⟩
  rw [contextFor?, hshown]
  rfl

end Service

/-! ### Remote archives -/

namespace RemoteArchive

/-- The limits of a call, or nothing if the clock cannot show the time that a call may take unless it
says so itself. -/
def bounded? (timeout : Duration) (now : Instant) (ctx : Context) : Option Context :=
  if ctx.deadline.isSome then some ctx else ctx.boundedBy? now timeout

theorem bounded?_eq_some {timeout : Duration} {now : Instant}
    (h : now + timeout < Instant.limit) (ctx : Context) :
    bounded? timeout now ctx = some (bounded timeout now ctx) := by
  unfold bounded? bounded
  split
  · rfl
  · exact Context.boundedBy?_eq_some_iff.mpr ⟨h, rfl⟩

end RemoteArchive

/-! ### The command line -/

theorem SocketAddress.number?_le {base limit n : Nat} {s : String}
    (h : number? base limit s = some n) : n ≤ limit := by
  simp only [number?] at h
  split at h
  · cases h
  · cases h
  · split at h
    · next hle => exact Option.some.inj h ▸ hle
    · cases h

namespace CommandLine

/-- The time that is read off a command line is one of 64 bits of milliseconds. -/
theorem timeout_of_read {arguments : List String} {i : Invocation}
    (h : read arguments = .ok i) : i.timeout ≤ Duration.ofMillis Request.greatestMillis := by
  unfold read at h
  obtain ⟨⟨outer, called⟩, -, h⟩ := bind_eq_ok h
  dsimp only at h
  split at h
  · cases h
  · cases h
  · next name rest _ =>
    split at h
    · cases h
    · next l _ =>
      obtain ⟨⟨inner, _⟩, -, h⟩ := bind_eq_ok h
      dsimp only at h
      split at h
      · next command millis _ hmillis =>
        cases h
        obtain ⟨text, -, hnumber⟩ := Option.bind_eq_some_iff.mp hmillis
        exact Nat.mul_le_mul_right _ (SocketAddress.number?_le hnumber)
      · cases h

/-- **The program never stops for a deadline** that the command line has asked for, before the clock
has come to half of what it can show. Every request to the service that is served and every call of
the remote archive that is opened, its handshake included, gets the limits that it should. -/
theorem deadlines_shown {arguments : List String} {i : Invocation}
    (h : read arguments = .ok i) {now : Instant} (hnow : now < Instant.limit / 2) :
    (∀ bind maxConnections token r,
      (Service.ofConfig (i.serviceConfig bind maxConnections)).contextFor? now token r =
        some ((Service.ofConfig (i.serviceConfig bind maxConnections)).contextFor now token r)) ∧
    (∀ ctx, RemoteArchive.bounded? i.remoteConfig.defaultTimeout now ctx =
      some (RemoteArchive.bounded i.remoteConfig.defaultTimeout now ctx)) ∧
    Context.background.withTimeout? now i.remoteConfig.connectTimeout =
      some (Context.background.withTimeout now i.remoteConfig.connectTimeout) := by
  have hread := timeout_of_read h
  have hmillis : Duration.ofMillis Request.greatestMillis < Instant.limit / 2 := by decide
  have fits (now span limit : Nat) (hnow : now < limit / 2) (hspan : span < limit / 2) :
      now + span < limit := by omega
  have htimeout := fits now i.timeout Instant.limit hnow (Nat.lt_of_le_of_lt hread hmillis)
  refine ⟨fun bind maxConnections token r => Service.contextFor?_eq_some htimeout,
    RemoteArchive.bounded?_eq_some htimeout, Context.withTimeout?_eq_some_iff.mpr ⟨?_, rfl⟩⟩
  have hconnect : RemoteConfig.default.connectTimeout < Instant.limit / 2 := by decide
  exact fits now _ Instant.limit hnow hconnect

end CommandLine

end ColdArchive
