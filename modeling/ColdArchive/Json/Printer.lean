import ColdArchive.Bytes
import ColdArchive.Hex
import ColdArchive.Json.Basic
import ColdArchive.Decimal.Shortest

/-!
The text of a JSON value, on one line or indented.
-/

namespace ColdArchive

namespace Json

/-- Numbers whose leading digit has an exponent from -5 to 15 are written by position; any other
exponent is written with its sign. -/
def numberStyle : Decimal.Style := ⟨-5, 15, "+"⟩

end Json

/-- The text of a number. -/
def Number.text : Number → String
  | natural n => toString n.toNat
  | negative m => "-" ++ toString (m.val + 1)
  | float x => Json.numberStyle.text x

namespace Json

/-- A character inside a string: quotes, backslashes and ASCII controls are escaped. -/
def escape (c : Char) : String :=
  if c = '"' then "\\\""
  else if c = '\\' then "\\\\"
  else if c = '\x08' then "\\b"
  else if c = '\t' then "\\t"
  else if c = '\n' then "\\n"
  else if c = '\x0c' then "\\f"
  else if c = '\r' then "\\r"
  else if c.toNat < 0x20 then
    "\\u00" ++ String.ofList [Hex.digitChar (c.toNat / 16), Hex.digitChar (c.toNat % 16)]
  else String.ofList [c]

/-- A string in quotes. -/
def stringText (s : String) : String := "\"" ++ String.join (s.toList.map escape) ++ "\""

mutual

/-- The text of a value, without blanks. -/
def text : Json → String
  | null => "null"
  | bool b => if b then "true" else "false"
  | number n => n.text
  | string s => stringText s
  | array items => "[" ++ itemsText items ++ "]"
  | object members => "\x7b" ++ membersText members ++ "\x7d"

def itemsText : List Json → String
  | [] => ""
  | [j] => text j
  | j :: rest => text j ++ "," ++ itemsText rest

def membersText : List (String × Json) → String
  | [] => ""
  | [(name, j)] => stringText name ++ ":" ++ text j
  | (name, j) :: rest => stringText name ++ ":" ++ text j ++ "," ++ membersText rest

end

/-- The bytes of the text of a value. -/
def encode (j : Json) : Bytes := utf8 j.text

/-- Two blanks per level. -/
def indent (level : Nat) : String := String.ofList (List.replicate (2 * level) ' ')

mutual

/-- The text of a value at a level, one item or member to a line. -/
def prettyAt (level : Nat) : Json → String
  | array [] => "[]"
  | array items =>
    "[\n" ++ prettyItems (level + 1) items ++ "\n" ++ indent level ++ "]"
  | object [] => "\x7b\x7d"
  | object members =>
    "\x7b\n" ++ prettyMembers (level + 1) members ++ "\n" ++ indent level ++ "\x7d"
  | null => "null"
  | bool b => if b then "true" else "false"
  | number n => n.text
  | string s => stringText s

def prettyItems (level : Nat) : List Json → String
  | [] => ""
  | [j] => indent level ++ prettyAt level j
  | j :: rest => indent level ++ prettyAt level j ++ ",\n" ++ prettyItems level rest

def prettyMembers (level : Nat) : List (String × Json) → String
  | [] => ""
  | [(name, j)] => indent level ++ stringText name ++ ": " ++ prettyAt level j
  | (name, j) :: rest =>
    indent level ++ stringText name ++ ": " ++ prettyAt level j ++ ",\n" ++ prettyMembers level rest

end

/-- The text of a value, indented. -/
def pretty (j : Json) : String := prettyAt 0 j

end Json

end ColdArchive
