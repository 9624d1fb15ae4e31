import ColdArchive.Decimal.Binary64

/-!
JSON values.

A number is a natural number below `2 ^ 64`, a negative integer not below `-2 ^ 63`, or a double
precision number; which of them it is depends on how it was written, and `1.0` is no integer. The
members of an object stand in a list, sorted by name and without repetition in a value that was
read as a whole.
-/

namespace ColdArchive

/-- No integer is below the negative of this number. -/
abbrev negativeLimit : Nat := 9223372036854775808

/-- A JSON number. -/
inductive Number where
  | natural (n : UInt64)
  /-- The integer `-(m + 1)`. -/
  | negative (m : Fin negativeLimit)
  | float (x : Binary64)
  deriving DecidableEq, Repr

/-- The integer `-(m + 1)`, which must fit 64 bits. -/
def Number.ofNegSucc (m : Nat) : Number := negative (Fin.ofNat _ m)

/-- A JSON value. -/
inductive Json where
  | null
  | bool (value : Bool)
  | number (value : Number)
  | string (value : String)
  | array (items : List Json)
  | object (members : List (String × Json))
  deriving Repr

namespace Json

instance : Inhabited Json := ⟨null⟩

/-- A natural number, which must be below `2 ^ 64`. -/
def ofNat (n : Nat) : Json := number (.natural (UInt64.ofNat n))

/-- An integer, which must fit 64 bits. -/
def ofInt : Int → Json
  | .ofNat n => number (.natural (UInt64.ofNat n))
  | .negSucc m => number (.ofNegSucc m)

def asBool? : Json → Option Bool
  | bool b => some b
  | _ => none

def asString? : Json → Option String
  | string s => some s
  | _ => none

def asNatural? : Json → Option UInt64
  | number (.natural n) => some n
  | _ => none

/-- The value as an integer of 64 bits with a sign. -/
def asInteger? : Json → Option Int64
  | number (.natural n) => if n.toNat < negativeLimit then some (Int64.ofNat n.toNat) else none
  | number (.negative m) => some (Int64.ofInt (.negSucc m))
  | _ => none

def asArray? : Json → Option (List Json)
  | array items => some items
  | _ => none

/-- The member of that name, if the value is an object that has it. -/
def member? (j : Json) (name : String) : Option Json :=
  match j with
  | object members => members.lookup name
  | _ => none

/-- Puts a member in its place in a sorted list, instead of the one that has its name. -/
def insertMember (name : String) (value : Json) : List (String × Json) → List (String × Json)
  | [] => [(name, value)]
  | (n, v) :: rest =>
    if name = n then (name, value) :: rest
    else if name < n then (name, value) :: (n, v) :: rest
    else (n, v) :: insertMember name value rest

/-- The members sorted by name, the last of those that share a name. -/
def sortMembers (members : List (String × Json)) : List (String × Json) :=
  members.foldl (fun sorted (name, value) => insertMember name value sorted) []

end Json

end ColdArchive
