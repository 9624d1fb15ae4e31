import ColdArchive.Decimal.Binary64

/-!
The shortest decimal that reads back as a given double precision number, and its text.
-/

namespace ColdArchive

/-- A decimal number `digits * 10 ^ exponent`. -/
structure Decimal where
  digits : Nat
  exponent : Int
  deriving DecidableEq, Repr

namespace Decimal

/-- The same number without zeros at the end of its digits; at most `fuel` of them are taken. -/
def trim (d : Decimal) : Nat → Decimal
  | 0 => d
  | fuel + 1 =>
    if d.digits ≠ 0 ∧ d.digits % 10 = 0 then trim ⟨d.digits / 10, d.exponent + 1⟩ fuel else d

/-- How far the exponent of the leading digit of `num / den` lies above `k`, if not more than
`fuel`. -/
def raise (num den : Nat) (k : Int) : Nat → Int
  | 0 => k
  | fuel + 1 =>
    let next := k + 1
    if (if 0 ≤ next then den * Nat.pow 10 next.toNat ≤ num else den ≤ num * Nat.pow 10 (-next).toNat) then
      raise num den next fuel
    else k

/-- The exponent of the leading digit of `num / den`, from the number of binary digits. -/
def leadingExponent (num den : Nat) : Int :=
  raise num den (((num.log2 : Int) - den.log2) * 30103 / 100000 - 2) 5

/-- The reals that round to a number, as bounds over a common denominator, and whether the bounds
belong to them. -/
structure Interval where
  low : Nat
  value : Nat
  high : Nat
  den : Nat
  closed : Bool

/-- The reals that round to a number. Below a power of two the numbers are twice as dense. -/
def interval (x : Magnitude) : Interval :=
  let below := if x.mantissa = Magnitude.leastNormal ∧ Magnitude.leastExponent < x.exponent then 1 else 2
  let e := x.exponent - 2
  let num := if 0 ≤ e then Nat.pow 2 e.toNat else 1
  let den := if 0 ≤ e then 1 else Nat.pow 2 (-e).toNat
  ⟨(4 * x.mantissa - below) * num, 4 * x.mantissa * num, (4 * x.mantissa + 2) * num, den,
    decide (x.mantissa % 2 = 0)⟩

/-- The multiple of `10 ^ exponent` nearest to the value of an interval among its two neighbours
that lie in the interval, the even one of two. -/
def onGrid? (i : Interval) (exponent : Int) : Option Decimal :=
  let up := if 0 ≤ exponent then 1 else Nat.pow 10 (-exponent).toNat
  let step := if 0 ≤ exponent then i.den * Nat.pow 10 exponent.toNat else i.den
  let q := i.value * up / step
  let inside (c : Nat) : Bool :=
    if i.closed then decide (i.low * up ≤ c * step ∧ c * step ≤ i.high * up)
    else decide (i.low * up < c * step ∧ c * step < i.high * up)
  let below := i.value * up - q * step
  let above := (q + 1) * step - i.value * up
  if inside q ∧ inside (q + 1) then
    some ⟨if below < above ∨ (below = above ∧ q % 2 = 0) then q else q + 1, exponent⟩
  else if inside q then some ⟨q, exponent⟩
  else if inside (q + 1) then some ⟨q + 1, exponent⟩
  else none

/-- The shortest decimal that reads back as `x`, and the nearest to `x` of these. Seventeen digits
are always enough. -/
def shortest (x : Magnitude) : Decimal :=
  let i := interval x
  let k := leadingExponent i.value i.den
  match (List.range 17).findSome? fun (n : Nat) => onGrid? i (k - (n : Int)) with
  | some d => d.trim 20
  | none => ⟨0, 0⟩

/-- How numbers are written. -/
structure Style where
  /-- The least and greatest exponent of the leading digit that is written by position. -/
  lowest : Int
  highest : Int
  /-- What stands before an exponent that is not negative. -/
  plus : String

/-- The text of a number in a style; a whole number keeps one zero after the point. -/
def Style.text (style : Style) (x : Binary64) : String :=
  let sign := if x.negative then "-" else ""
  if x.magnitude.mantissa = 0 then sign ++ "0.0"
  else
    let d := shortest x.magnitude
    let digits := Nat.toDigits 10 d.digits
    let leading : Int := (digits.length : Int) - 1 + d.exponent
    if style.lowest ≤ leading ∧ leading ≤ style.highest then
      if 0 ≤ d.exponent then
        sign ++ String.ofList (digits ++ List.replicate d.exponent.toNat '0') ++ ".0"
      else if 0 ≤ leading then
        let whole := leading.toNat + 1
        sign ++ String.ofList (digits.take whole) ++ "." ++ String.ofList (digits.drop whole)
      else
        sign ++ "0." ++ String.ofList (List.replicate (-leading - 1).toNat '0' ++ digits)
    else
      let fraction := if digits.length = 1 then "" else "." ++ String.ofList (digits.drop 1)
      let mark := if leading < 0 then "e-" else "e" ++ style.plus
      sign ++ String.ofList (digits.take 1) ++ fraction ++ mark ++ toString leading.natAbs

end Decimal

end ColdArchive
