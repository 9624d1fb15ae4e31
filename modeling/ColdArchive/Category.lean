/-!
The five categories every record is split into, their names, and one value per category.
-/

namespace ColdArchive

/-- A part of a record. -/
inductive Category where
  | hash
  | header
  | body
  | receipts
  | difficulty
  deriving DecidableEq, Repr

namespace Category

/-- The categories in storage order. -/
def all : List Category := [hash, header, body, receipts, difficulty]

/-- The name used on the wire and for the files of a category. -/
def name : Category → String
  | hash => "hash"
  | header => "header"
  | body => "body"
  | receipts => "receipts"
  | difficulty => "td"

/-- The position in storage order. -/
def index : Category → Nat
  | hash => 0
  | header => 1
  | body => 2
  | receipts => 3
  | difficulty => 4

/-- The category a text names. Archives in use also name their tables in the plural, and the
difficulty by what it holds. -/
def ofName? : String → Option Category
  | "hash" | "hashes" => some hash
  | "header" | "headers" => some header
  | "body" | "bodies" => some body
  | "receipts" => some receipts
  | "td" | "diffs" | "totalDifficulty" => some difficulty
  | _ => none

/-- The name of the constructor, as diagnostics show it. -/
def title : Category → String
  | hash => "Hash"
  | header => "Header"
  | body => "Body"
  | receipts => "Receipts"
  | difficulty => "Difficulty"

theorem mem_all (c : Category) : c ∈ all := by cases c <;> decide

@[simp] theorem ofName?_name (c : Category) : ofName? c.name = some c := by cases c <;> rfl

end Category

/-- One value for every category. -/
structure ByCategory (α : Type) where
  hash : α
  header : α
  body : α
  receipts : α
  difficulty : α
  deriving DecidableEq, Repr

namespace ByCategory

variable {α β : Type}

/-- The same value for every category. -/
def replicate (a : α) : ByCategory α := ⟨a, a, a, a, a⟩

/-- The value of every category, given by a function. -/
def ofFn (f : Category → α) : ByCategory α :=
  ⟨f .hash, f .header, f .body, f .receipts, f .difficulty⟩

def get (v : ByCategory α) : Category → α
  | .hash => v.hash
  | .header => v.header
  | .body => v.body
  | .receipts => v.receipts
  | .difficulty => v.difficulty

def set (v : ByCategory α) (c : Category) (a : α) : ByCategory α :=
  match c with
  | .hash => { v with hash := a }
  | .header => { v with header := a }
  | .body => { v with body := a }
  | .receipts => { v with receipts := a }
  | .difficulty => { v with difficulty := a }

def map (f : α → β) (v : ByCategory α) : ByCategory β := ofFn fun c => f (v.get c)

/-- The values in storage order. -/
def toList (v : ByCategory α) : List α := Category.all.map v.get

@[simp] theorem get_ofFn (f : Category → α) (c : Category) : (ofFn f).get c = f c := by
  cases c <;> rfl

@[simp] theorem get_replicate (a : α) (c : Category) : (replicate a).get c = a := by
  cases c <;> rfl

@[simp] theorem get_map (f : α → β) (v : ByCategory α) (c : Category) :
    (v.map f).get c = f (v.get c) := by cases c <;> rfl

@[simp] theorem get_set_self (v : ByCategory α) (c : Category) (a : α) :
    (v.set c a).get c = a := by cases c <;> rfl

theorem get_set_of_ne (v : ByCategory α) {c d : Category} (a : α) (h : c ≠ d) :
    (v.set c a).get d = v.get d := by
  cases c <;> cases d <;> first | rfl | exact absurd rfl h

theorem get_set (v : ByCategory α) (c d : Category) (a : α) :
    (v.set c a).get d = if c = d then a else v.get d := by
  cases c <;> cases d <;> rfl

@[ext] theorem ext {v w : ByCategory α} (h : ∀ c, v.get c = w.get c) : v = w := by
  obtain ⟨a, b, c, d, e⟩ := v
  have h1 := h .hash; have h2 := h .header; have h3 := h .body
  have h4 := h .receipts; have h5 := h .difficulty
  simp only [get] at h1 h2 h3 h4 h5
  subst h1 h2 h3 h4 h5
  rfl

end ByCategory

/-- The bytes kept for one category of a record. -/
abbrev Blob := List UInt8

/-- A record: a blob for every category, appended together. -/
abbrev Record := ByCategory Blob

/-- The record whose blobs are all empty. -/
def Record.empty : Record := ByCategory.replicate []

end ColdArchive
