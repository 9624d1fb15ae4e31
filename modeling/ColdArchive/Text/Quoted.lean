import ColdArchive.Text.Hidden

/-!
Texts and characters in quotes, for diagnostics: what cannot be seen is written by its number.
-/

namespace ColdArchive.Text

/-- A number in lowercase hexadecimal digits. -/
def hexadecimal (n : Nat) : String := String.ofList (Nat.toDigits 16 n)

/-- A character inside the given quotes: the quote, the backslash and some controls behind a
backslash, other hidden characters by their number. -/
def escape (quote c : Char) : String :=
  if c = '\x00' then "\\0"
  else if c = '\t' then "\\t"
  else if c = '\r' then "\\r"
  else if c = '\n' then "\\n"
  else if c = quote ∨ c = '\\' then String.ofList ['\\', c]
  else if isHidden c then "\\u\x7b" ++ hexadecimal c.toNat ++ "\x7d"
  else String.ofList [c]

/-- A text in double quotes. -/
def quoted (s : String) : String :=
  "\"" ++ String.join (s.toList.map (escape '"')) ++ "\""

/-- A character in single quotes. -/
def quotedChar (c : Char) : String := "'" ++ escape '\'' c ++ "'"

end ColdArchive.Text
