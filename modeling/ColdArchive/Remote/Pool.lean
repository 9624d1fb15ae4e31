/-!
A pool of idle connections.

Who returns a connection last gets it first. A connection that finds no room, or finds the pool
closed, is let go.
-/

namespace ColdArchive

/-- A pool of idle connections, the one that was returned last in front. -/
structure Pool (κ : Type) where
  idle : List κ
  maxIdle : Nat
  closed : Bool
  deriving DecidableEq, Repr

namespace Pool

variable {κ : Type}

/-- The pool without connections. -/
def empty (maxIdle : Nat) : Pool κ := ⟨[], maxIdle, false⟩

/-- Takes an idle connection, if there is one. -/
def checkOut (p : Pool κ) : Option κ × Pool κ :=
  match p.idle with
  | [] => (none, p)
  | k :: rest => (some k, { p with idle := rest })

/-- The pool takes connections back. -/
def hasRoom (p : Pool κ) : Bool := !p.closed && decide (p.idle.length < p.maxIdle)

/-- Returns a connection to a pool that has room for it. -/
def checkIn (p : Pool κ) (k : κ) : Pool κ :=
  if p.hasRoom then { p with idle := k :: p.idle } else p

/-- Lets all connections go and takes none back. -/
def close (p : Pool κ) : Pool κ := { p with idle := [], closed := true }

/-- A pool that keeps to its limit goes on keeping to it. -/
theorem length_checkIn_le {p : Pool κ} (k : κ) (h : p.idle.length ≤ p.maxIdle) :
    (p.checkIn k).idle.length ≤ (p.checkIn k).maxIdle := by
  unfold checkIn
  split
  · next hr => simp [hasRoom] at hr ⊢; omega
  · exact h

end Pool

end ColdArchive
