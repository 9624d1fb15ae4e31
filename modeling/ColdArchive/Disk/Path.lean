import ColdArchive.Bytes
import ColdArchive.Error

/-!
Paths as they are given: where they start, their steps and whether a slash ends them.

What a path leads to depends on the tree it is walked in, and `..` leads back only from a directory
that is there, so steps are never cancelled in the text.
-/

namespace ColdArchive

/-- A step of a path. -/
inductive Step where
  | here
  | up
  | name (text : String)
  deriving DecidableEq, Repr

/-- A path as it is given. -/
structure Path where
  /-- It starts at the top and not at the working directory. -/
  rooted : Bool
  steps : List Step
  /-- A slash ends it, so that it can only mean a directory. -/
  slash : Bool
  /-- The bytes of its text. -/
  size : Nat
  deriving DecidableEq, Repr

/-- The most bytes of a name. -/
def nameLimit : Nat := 255

/-- The most bytes of a path. -/
def pathLimit : Nat := 4095

namespace Step

def ofText (s : String) : Step := if s = "." then here else if s = ".." then up else name s

def text : Step → String
  | here => "."
  | up => ".."
  | name s => s

def size (s : Step) : Nat := (utf8 s.text).length

end Step

namespace Path

/-- The pieces of a text between its slashes. -/
def pieces : List Char → List (List Char)
  | [] => [[]]
  | c :: cs =>
    match pieces cs with
    | [] => [[c]]
    | p :: ps => if c = '/' then [] :: p :: ps else (c :: p) :: ps

/-- The path a text stands for. Slashes in a row count as one. -/
def ofText (s : String) : Path where
  rooted := s.toList.head? = some '/'
  steps := ((pieces s.toList).filter fun p => p ≠ []).map fun p => Step.ofText (String.ofList p)
  slash := s.toList.getLast? = some '/'
  size := (utf8 s).length

/-- The path of the empty text, which leads nowhere. -/
def isEmpty (p : Path) : Bool := !p.rooted && p.steps.isEmpty

/-- A name of the steps holds the character that no name can hold. -/
def hasNul (steps : List Step) : Bool := steps.any fun s => s.text.toList.contains '\x00'

/-- Why a path cannot be walked in any tree. -/
def refusal? (p : Path) : Option IoFailure :=
  if hasNul p.steps then some .nulInName
  else if p.isEmpty then some .notFound
  else if pathLimit < p.size then some .nameTooLong
  else none

/-- The path of a name in a directory. -/
def child (p : Path) (name : String) : Path where
  rooted := p.rooted
  steps := p.steps ++ [Step.ofText name]
  slash := false
  size := p.size + (if p.slash ∨ p.size = 0 then 0 else 1) + (utf8 name).length

/-- The steps on the way to the last part of a path. `.` is a part at the front only. -/
def way (p : Path) : List Step :=
  let parts := p.steps.filter fun s => s ≠ .here
  if p.rooted = false ∧ p.steps.head? = some .here ∧ parts ≠ [] then .here :: parts.dropLast
  else parts.dropLast

/-- The bytes of the text of the way to the last part of a path. -/
def waySize (p : Path) : Nat :=
  p.way.foldl (fun n s => n + s.size + 1) 0 - (if p.rooted then 0 else 1)

theorem pieces_ne_nil (cs : List Char) : pieces cs ≠ [] := by
  cases cs with
  | nil => simp [pieces]
  | cons c cs =>
    unfold pieces
    split
    · simp
    · split <;> simp

end Path

end ColdArchive
