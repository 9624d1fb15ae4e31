/-!
Finite double precision numbers in exact arithmetic: rounding of a ratio to the nearest of them,
and the product and quotient of two.
-/

namespace ColdArchive

/-- The nearest natural number to `num / den`, the even one of two. -/
def roundHalfEven (num den : Nat) : Nat :=
  let q := num / den
  let r := num % den
  if 2 * r < den then q else if den < 2 * r then q + 1 else q + q % 2

/-- A finite double precision number without its sign: `mantissa * 2 ^ exponent`. The mantissa has
53 bits, or fewer if the exponent is the least one. -/
structure Magnitude where
  mantissa : Nat
  exponent : Int
  deriving DecidableEq, Repr

namespace Magnitude

def leastExponent : Int := -1074
def greatestExponent : Int := 971

/-- The least mantissa of 53 bits. -/
def leastNormal : Nat := 4503599627370496

def zero : Magnitude := ⟨0, leastExponent⟩

/-- A finite double precision number as a ratio. -/
def ratio (x : Magnitude) : Nat × Nat :=
  if 0 ≤ x.exponent then (x.mantissa * Nat.pow 2 x.exponent.toNat, 1)
  else (x.mantissa, Nat.pow 2 (-x.exponent).toNat)

/-- The nearest number to a ratio, the even one of two; none if it is too large. -/
def ofRatio? (num den : Nat) : Option Magnitude :=
  if num = 0 then some zero
  else
    let k : Int := (num.log2 : Int) - den.log2
    let reached : Bool :=
      if 0 ≤ k then decide (den * Nat.pow 2 k.toNat ≤ num) else decide (den ≤ num * Nat.pow 2 (-k).toNat)
    let e := max leastExponent ((if reached then k else k - 1) - 52)
    let m :=
      if 0 ≤ e then roundHalfEven num (den * Nat.pow 2 e.toNat)
      else roundHalfEven (num * Nat.pow 2 (-e).toNat) den
    let x : Magnitude := if m = 2 * leastNormal then ⟨leastNormal, e + 1⟩ else ⟨m, e⟩
    if greatestExponent < x.exponent then none else some x

def mul? (x y : Magnitude) : Option Magnitude :=
  ofRatio? (x.ratio.1 * y.ratio.1) (x.ratio.2 * y.ratio.2)

def div? (x y : Magnitude) : Option Magnitude :=
  ofRatio? (x.ratio.1 * y.ratio.2) (x.ratio.2 * y.ratio.1)

/-- The greatest power of ten that is finite. -/
def greatestPower : Nat := 308

/-- The number nearest to a power of ten. -/
def powerOfTen? (n : Nat) : Option Magnitude := ofRatio? (Nat.pow 10 n) 1

/-- Divides by the greatest power of ten `steps` times, and then by `10 ^ n`. Zero stays as it
is. -/
def dividePowers? (x : Magnitude) (n : Nat) : (steps : Nat) → Option Magnitude
  | 0 => powerOfTen? n >>= x.div?
  | steps + 1 =>
    if x.mantissa = 0 then some x
    else
      match powerOfTen? greatestPower >>= x.div? with
      | none => none
      | some y => dividePowers? y n steps

/-- Divides by `10 ^ n`, by at most the greatest power at a time. -/
def dividePower? (x : Magnitude) (n : Nat) : Option Magnitude :=
  let steps := (n - 1) / greatestPower
  dividePowers? x (n - steps * greatestPower) steps

/-- `significand * 10 ^ exponent`, by one rounding of the significand and one of the product or
of each quotient; none if it is too large. -/
def ofDecimal? (significand : Nat) (exponent : Int) : Option Magnitude :=
  match ofRatio? significand 1 with
  | none => none
  | some x =>
    if exponent < 0 then x.dividePower? (-exponent).toNat
    else if exponent.toNat ≤ greatestPower then powerOfTen? exponent.toNat >>= x.mul?
    else if x.mantissa = 0 then some x
    else none

end Magnitude

/-- A finite double precision number. Zero has a sign too. -/
structure Binary64 where
  negative : Bool
  magnitude : Magnitude
  deriving DecidableEq, Repr

end ColdArchive
