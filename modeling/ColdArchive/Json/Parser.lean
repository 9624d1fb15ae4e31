import ColdArchive.Json.Token

/-!
Reading a JSON value from bytes.

Arrays and objects may be nested 127 deep. A message is read by its `Shape`: the members it knows
are read, the others are only skipped, to any depth.
-/

namespace ColdArchive.Json

/-- How strings and numbers are read. -/
structure Lexicon where
  /-- A string after its opening quote. -/
  string : Reader String
  number : Reader Number

/-- Tokens that count. -/
def Lexicon.strict : Lexicon := ⟨readString, readNumber⟩

/-- Tokens of which only the end matters. -/
def Lexicon.lenient : Lexicon where
  string := fun bs => (afterString bs).map fun rest => ("", rest)
  number := fun bs => (readParts bs).map fun (_, rest) => (.natural 0, rest)

/-- The nesting of arrays and objects that is read. -/
def depthLimit : Nat := 127

/-- The items of an array that is not empty, up to its closing bracket; `done` holds those read so
far, the last one first. An item is read by its position. -/
def readItems (item : Nat → Reader Json) :
    (fuel position : Nat) → (done : List Json) → Reader (List Json)
  | 0, _, _, _ => none
  | fuel + 1, position, done, bs => do
    let (j, rest) ← item position (skipBlanks bs)
    match skipBlanks rest with
    | 0x2c :: rest => readItems item fuel (position + 1) (j :: done) rest
    | 0x5d :: rest => return ((j :: done).reverse, rest)
    | _ => none

/-- An array after its opening bracket. -/
def readArray (item : Nat → Reader Json) : Reader (List Json) := fun bs =>
  match skipBlanks bs with
  | 0x5d :: rest => some ([], rest)
  | bs => readItems item bs.length 0 [] bs

/-- The members of an object that is not empty, up to its closing brace; a member whose value is
skipped is left out. -/
def readMembers (name : Reader String) (value : String → Reader (Option Json)) :
    (fuel : Nat) → (done : List (String × Json)) → Reader (List (String × Json))
  | 0, _, _ => none
  | fuel + 1, done, bs =>
    match skipBlanks bs with
    | 0x22 :: bs => do
      let (n, rest) ← name bs
      match skipBlanks rest with
      | 0x3a :: rest =>
        let (j?, rest) ← value n (skipBlanks rest)
        let done := match j? with
          | some j => (n, j) :: done
          | none => done
        match skipBlanks rest with
        | 0x2c :: rest => readMembers name value fuel done rest
        | 0x7d :: rest => return (done.reverse, rest)
        | _ => none
      | _ => none
    | _ => none

/-- An object after its opening brace. -/
def readObject (name : Reader String) (value : String → Reader (Option Json)) :
    Reader (List (String × Json)) := fun bs =>
  match skipBlanks bs with
  | 0x7d :: rest => some ([], rest)
  | bs => readMembers name value bs.length [] bs

/-- A value that is neither an array nor an object. -/
def readScalar (lexicon : Lexicon) : Reader Json := fun bs =>
  match bs with
  | [] => none
  | b :: rest =>
    if b = 0x22 then (lexicon.string rest).map fun (s, rest) => (.string s, rest)
    else if b = 0x6e then (afterWord (utf8 "null") bs).map fun rest => (.null, rest)
    else if b = 0x74 then (afterWord (utf8 "true") bs).map fun rest => (.bool true, rest)
    else if b = 0x66 then (afterWord (utf8 "false") bs).map fun rest => (.bool false, rest)
    else (lexicon.number bs).map fun (n, rest) => (.number n, rest)

/-- A value with at most `depth` levels of arrays and objects. -/
def readValue (lexicon : Lexicon) : (depth : Nat) → Reader Json
  | 0, bs =>
    match bs with
    | 0x5b :: _ => none
    | 0x7b :: _ => none
    | _ => readScalar lexicon bs
  | depth + 1, bs =>
    match bs with
    | 0x5b :: rest =>
      (readArray (fun _ => readValue lexicon depth) rest).map fun (items, rest) =>
        (.array items, rest)
    | 0x7b :: rest =>
      let value (_ : String) : Reader (Option Json) := fun bs =>
        (readValue lexicon depth bs).map fun (j, rest) => (some j, rest)
      (readObject lexicon.string value rest).map fun (members, rest) =>
        (.object (sortMembers members), rest)
    | _ => readScalar lexicon bs

/-- Skips a value, nested to any depth. -/
def skipValue : Reader (Option Json) := fun bs =>
  (readValue .lenient bs.length bs).map fun (_, rest) => (none, rest)

/-- Which parts of a message are read. -/
inductive Shape where
  /-- A value that is read as a whole. -/
  | whole
  /-- A message with known members, given by their names or, in an array, by their positions. The
  members stay as they were met. -/
  | message (members : List (String × Shape))

/-- The part of a message read by `shape` with at most `depth` levels. -/
def readShape : (depth : Nat) → Shape → Reader Json
  | 0, _, bs => readValue .strict 0 bs
  | depth + 1, .whole, bs => readValue .strict (depth + 1) bs
  | depth + 1, .message members, bs =>
    match bs with
    | 0x5b :: rest =>
      let item (position : Nat) : Reader Json :=
        match members[position]? with
        | some (_, shape) => readShape depth shape
        | none => readValue .strict depth
      (readArray item rest).map fun (items, rest) => (.array items, rest)
    | 0x7b :: rest =>
      let value (name : String) : Reader (Option Json) := fun bs =>
        match members.lookup name with
        | some shape => (readShape depth shape bs).map fun (j, rest) => (some j, rest)
        | none => skipValue bs
      (readObject readString value rest).map fun (found, rest) => (.object found, rest)
    | _ => readValue .strict (depth + 1) bs

/-- The message of a shape that the bytes are the text of. -/
def ofMessage? (shape : Shape) (bs : Bytes) : Option Json := do
  let (j, rest) ← readShape depthLimit shape (skipBlanks bs)
  if skipBlanks rest = [] then some j else none

/-- The value that the bytes are the text of. -/
def ofBytes? (bs : Bytes) : Option Json := ofMessage? .whole bs

end ColdArchive.Json
