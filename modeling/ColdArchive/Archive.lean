import ColdArchive.Context

/-!
What every archive can be asked, what it answers, and the report of a repair.

The calls are the same for an archive in memory, one in files and one that lives elsewhere, so a
run of an archive is a list of calls, and two archives are compared by their answers to one list.
-/

namespace ColdArchive

/-- A call of an archive. -/
inductive Call where
  /-- Is the number committed in the category? -/
  | has (category : Category) (number : Nat)
  /-- The blob committed at the number. -/
  | read (category : Category) (number : Nat)
  /-- The frozen count. -/
  | count
  /-- The committed bytes of a category. -/
  | size (category : Category)
  /-- Append the record at the number, which must be the frozen count. -/
  | append (number : Nat) (record : Record)
  /-- Discard every record at or above the target. -/
  | truncate (target : Nat)
  /-- Flush to durable storage. -/
  | sync
  /-- Release everything; again is no error. -/
  | close
  deriving DecidableEq, Repr

/-- The answer to a call that succeeded. -/
inductive Reply where
  | done
  | truth (value : Bool)
  | number (value : Nat)
  | blob (value : Blob)
  deriving DecidableEq, Repr

/-- What an archive answers to a call. -/
abbrev Outcome := Except StoreError Reply

/-- The item counts a repair found, and the frozen count it left. -/
structure RepairReport where
  lengths : List Nat
  frozen : Nat
  deriving DecidableEq, Repr

namespace RepairReport

/-- At least one item was dropped. -/
def discarded (r : RepairReport) : Bool := r.lengths.any fun n => decide (r.frozen < n)

theorem discarded_iff (r : RepairReport) : r.discarded = true ↔ ∃ n ∈ r.lengths, r.frozen < n := by
  simp [discarded]

end RepairReport

/-- The least of a list of counts, zero for no count. -/
def leastCount : List Nat → Nat
  | [] => 0
  | n :: ns => ns.foldl min n

/-- A state that answers calls. -/
class Archive (σ : Type) where
  perform : σ → Instant → Context → Call → Outcome × σ

/-- An archive that its owner can have realigned: every category is cut to the shortest. -/
class Engine (σ : Type) extends Archive σ where
  repair : σ → Except StoreError RepairReport × σ

/-- The answers of an archive to a list of timed calls, and the state it is left in. -/
def Archive.run {σ : Type} [Archive σ] : σ → List (Instant × Context × Call) → List Outcome × σ
  | s, [] => ([], s)
  | s, (now, ctx, call) :: rest =>
    let (outcome, s) := Archive.perform s now ctx call
    let (outcomes, s) := Archive.run s rest
    (outcome :: outcomes, s)

end ColdArchive
