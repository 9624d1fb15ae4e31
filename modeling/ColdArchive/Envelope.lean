import ColdArchive.Hex
import ColdArchive.Error
import ColdArchive.Text.Quoted

/-!
Envelopes: blobs as text on the wire, two hexadecimal digits per byte behind `0x`.

The empty blob is the bare prefix, so it is never taken for a missing value.
-/

namespace ColdArchive.Envelope

/-- The two digits of a byte. -/
def byteDigits (b : UInt8) : List Char :=
  [Hex.digitChar (b.toNat / 16), Hex.digitChar (b.toNat % 16)]

/-- The envelope of a blob. -/
def encode (blob : Blob) : String := String.ofList ('0' :: 'x' :: blob.flatMap byteDigits)

/-- The envelope of the empty blob. -/
def empty : String := "0x"

/-- Why a text is no envelope. Lengths and positions count the bytes after the prefix. -/
inductive Defect where
  | missingPrefix
  | oddLength (digits : Nat)
  | invalidDigit (found : UInt8) (position : Nat)
  deriving DecidableEq, Repr

/-- The wording of a defect; a byte that is no digit is shown as the character of its number. -/
def Defect.message : Defect → String
  | missingPrefix => "missing 0x prefix"
  | oddLength digits => s!"odd number of hex digits ({digits})"
  | invalidDigit found position =>
    s!"invalid hex: Invalid character {Text.quotedChar (Char.ofNat found.toNat)} at position {position}"

/-- An argument with a defect is refused. -/
def Defect.toError (d : Defect) : StoreError := .malformedEnvelope d.message

/-- The bytes of pairs of digits, the first of them at `position`. -/
def pairs (position : Nat) : Bytes → Except Defect Blob
  | [] => .ok []
  | [_] => .ok []
  | high :: low :: rest =>
    match Hex.value? high with
    | none => .error (.invalidDigit high position)
    | some h =>
      match Hex.value? low with
      | none => .error (.invalidDigit low (position + 1))
      | some l =>
        match pairs (position + 2) rest with
        | .ok blob => .ok (UInt8.ofNat (h * 16 + l) :: blob)
        | .error d => .error d

/-- The bytes after the prefix. -/
def afterPrefix? (bs : Bytes) : Option Bytes :=
  match bs with
  | 0x30 :: x :: rest => if x = 0x78 ∨ x = 0x58 then some rest else none
  | _ => none

/-- The blob of an envelope. Digits of either case are read. -/
def decode (text : String) : Except Defect Blob :=
  match afterPrefix? (utf8 text) with
  | none => .error .missingPrefix
  | some digits =>
    if digits.length % 2 = 1 then .error (.oddLength digits.length) else pairs 0 digits

end ColdArchive.Envelope
