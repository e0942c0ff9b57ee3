/-! Binary numbers of 53 bits: the nearest of them to a quotient, with it their products and
quotients, and two ways from a decimal to one of them. The first is the nearest to the decimal. The
second brings the digits and a power of ten to the nearest number each and then multiplies or
divides, rounding once more; powers past the greatest one are divided by one after another. -/
namespace TablePlan.Decimal

/-- The number `mantissa * 2 ^ exponent` under a sign. Zero has the least exponent, and every other
number the least exponent that keeps its mantissa below `2 ^ 53`. -/
structure Binary64 where
  negative : Bool
  mantissa : Nat
  exponent : Int
  deriving DecidableEq, Repr

namespace Binary64

def mantissaBits : Nat := 53
def leastExponent : Int := -1074
def greatestExponent : Int := 971

def zero (negative : Bool) : Binary64 := ⟨negative, 0, leastExponent⟩

end Binary64

def twoTo : Nat → Nat := Nat.pow 2

def tenTo : Nat → Nat := Nat.pow 10

def nearest (num den : Nat) : Nat :=
  let low := num / den
  let twice := 2 * (num % den)
  if twice < den then low
  else if den < twice then low + 1
  else low + low % 2

def binaryOrder (num den : Nat) : Int :=
  let guess : Int := (num.log2 : Int) - den.log2
  if den * twoTo num.log2 ≤ num * twoTo den.log2 then guess else guess - 1

namespace Binary64

def ofQuotient (negative : Bool) (num den : Nat) : Option Binary64 :=
  if num = 0 then some (zero negative)
  else
    let exponent := max (binaryOrder num den - (mantissaBits - 1)) leastExponent
    let mantissa := nearest (num * twoTo (-exponent).toNat) (den * twoTo exponent.toNat)
    let (mantissa, exponent) :=
      if mantissa = twoTo mantissaBits then (mantissa / 2, exponent + 1) else (mantissa, exponent)
    if greatestExponent < exponent then none else some ⟨negative, mantissa, exponent⟩

-- Scales past 400 places beyond the digits are out of range, and settled without the power.
def ofDecimal (negative : Bool) (digits : Nat) (scale : Int) : Option Binary64 :=
  if digits = 0 then some (zero negative)
  else if 400 < scale then none
  else if scale < -(400 + digits.log2 : Int) then some (zero negative)
  else ofQuotient negative (digits * tenTo scale.toNat) (tenTo (-scale).toNat)

def product (x y : Binary64) : Option Binary64 :=
  let exponent := x.exponent + y.exponent
  ofQuotient (x.negative != y.negative) (x.mantissa * y.mantissa * twoTo exponent.toNat)
    (twoTo (-exponent).toNat)

def quotient (x y : Binary64) : Option Binary64 :=
  let exponent := x.exponent - y.exponent
  ofQuotient (x.negative != y.negative) (x.mantissa * twoTo exponent.toNat)
    (y.mantissa * twoTo (-exponent).toNat)

def greatestPlaces : Nat := 308

def powerOfTen (places : Nat) : Option Binary64 := ofQuotient false (tenTo places) 1

def lowered (x : Binary64) : Nat → Option Binary64
  | 0 => some x
  | rounds + 1 =>
    if x.mantissa = 0 then some x
    else do (← x.quotient (← powerOfTen greatestPlaces)).lowered rounds

def ofParts (negative : Bool) (digits : Nat) (scale : Int) : Option Binary64 :=
  if digits = 0 then some (zero negative)
  else if greatestPlaces < scale then none
  else do
    let x ← ofQuotient negative digits 1
    if 0 ≤ scale then x.product (← powerOfTen scale.toNat)
    else
      let places := (-scale).toNat
      let rounds := (places - 1) / greatestPlaces
      (← x.lowered rounds).quotient (← powerOfTen (places - rounds * greatestPlaces))

end Binary64

theorem nearestWithinHalf (num : Nat) {den : Nat} (positive : 0 < den) :
    2 * num ≤ 2 * (nearest num den * den) + den ∧ 2 * (nearest num den * den) ≤ 2 * num + den := by
  have split : num = num / den * den + num % den := by
    rw [Nat.mul_comm]; exact (Nat.div_add_mod num den).symm
  have small := Nat.mod_lt num positive
  simp only [nearest]
  generalize num / den = low at split ⊢
  generalize num % den = rest at split small ⊢
  subst split
  repeat' split
  · omega
  · rw [Nat.add_mul]; omega
  · rcases Nat.mod_two_eq_zero_or_one low with even | odd
    · rw [even]; simp only [Nat.add_zero]; omega
    · rw [odd, Nat.add_mul]; omega

end TablePlan.Decimal
