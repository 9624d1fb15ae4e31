import ColdArchive.Archive
import ColdArchive.Decimal.Binary64
import ColdArchive.Json.Printer

/-!
What an archive holds: its frozen count and the bytes of every category, as text and as JSON.
-/

namespace ColdArchive

/-- What an archive holds. -/
structure Inspection where
  source : String
  frozen : Nat
  sizes : ByCategory Nat
  deriving DecidableEq, Repr

namespace Inspection

variable {σ : Type} [Archive σ]

/-- Asks an archive for a number. -/
def number (now : Instant) (call : Call) : EStateM StoreError σ Nat := fun s =>
  match Archive.perform s now .background call with
  | (.ok (.number n), s) => .ok n s
  | (.ok _, s) => .ok 0 s
  | (.error e, s) => .error e s

/-- Asks an archive for its frozen count and then for its sizes, in storage order. -/
def collect (now : Instant) (source : String) : EStateM StoreError σ Inspection := do
  let frozen ← number now .count
  let hash ← number now (.size .hash)
  let header ← number now (.size .header)
  let body ← number now (.size .body)
  let receipts ← number now (.size .receipts)
  let difficulty ← number now (.size .difficulty)
  return ⟨source, frozen, ⟨hash, header, body, receipts, difficulty⟩⟩

/-- The bytes of all categories, counted in 64 bits. -/
def total (i : Inspection) : Nat := i.sizes.toList.foldl (fun n size => n + size) 0 % wordLimit

def kilo : Nat := 1024
def mega : Nat := 1024 * kilo
def giga : Nat := 1024 * mega

/-- So many tenths, with one place after the point. -/
def tenthsText (n : Nat) : String := s!"{n / 10}.{n % 10}"

/-- The tenths of a number of bytes in a unit, the even ones of two that are equally near. The
number of bytes is taken in double precision. -/
def tenths (bytes unit : Nat) : Nat :=
  let (num, den) := ((Magnitude.ofRatio? bytes 1).getD .zero).ratio
  roundHalfEven (10 * num) (den * unit)

/-- A number of bytes in the greatest unit that it fills. -/
def sizeText (bytes : Nat) : String :=
  if bytes < kilo then s!"{bytes} B"
  else if bytes < mega then tenthsText (tenths bytes kilo) ++ " KB"
  else if bytes < giga then tenthsText (tenths bytes mega) ++ " MB"
  else tenthsText (tenths bytes giga) ++ " GB"

/-- A name in a column of ten, and a size. -/
def line (name : String) (bytes : Nat) : String :=
  "  " ++ name ++ String.ofList (List.replicate (10 - name.length) ' ') ++ " "
    ++ sizeText bytes ++ "\n"

/-- The report for readers. -/
def text (i : Inspection) : String :=
  "Ancient Store Inspection\n========================\n\n"
    ++ "Source: " ++ i.source ++ "\nFrozen: " ++ toString i.frozen ++ "\n\nCategories:\n"
    ++ String.join (Category.all.map fun c => line c.name (i.sizes.get c))
    ++ line "total" i.total

/-- The report as JSON. -/
def toJson (i : Inspection) : Json :=
  .object [("source", .string i.source), ("frozen", .ofNat i.frozen),
    ("categories", .array (Category.all.map fun c =>
      .object [("name", .string c.name), ("size", .ofNat (i.sizes.get c))])),
    ("total_size", .ofNat i.total)]

/-- The report in a format: `json` and nothing else means JSON. -/
def render (i : Inspection) (format : String) : String :=
  if format = "json" then i.toJson.pretty ++ "\n" else i.text

end Inspection

end ColdArchive
