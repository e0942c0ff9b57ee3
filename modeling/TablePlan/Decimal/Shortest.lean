import TablePlan.Decimal.Binary64
/-! The fewest decimal digits that read back as a given binary number. -/
namespace TablePlan.Decimal

/-- The interval of the numbers that one binary number is the nearest to, over a grid of decimals:
its ends, the number itself, and the distance of two grid points, all in one unit. The ends lie half
way to the neighbours and belong to it when the mantissa is even. -/
structure Span where
  low : Nat
  middle : Nat
  high : Nat
  closed : Bool
  unit : Nat
  deriving Repr

def Span.holds (s : Span) (digits : Nat) : Bool :=
  if s.closed then decide (s.low ≤ digits * s.unit) && decide (digits * s.unit ≤ s.high)
  else decide (s.low < digits * s.unit) && decide (digits * s.unit < s.high)

-- The way down is half as long at a power of two, below which numbers lie closer together.
def Binary64.span (x : Binary64) (scale : Int) : Span :=
  let quarter := twoTo (x.exponent - 2).toNat * tenTo (-scale).toNat
  let narrow :=
    decide (x.mantissa = twoTo (mantissaBits - 1)) && decide (leastExponent < x.exponent)
  ⟨(4 * x.mantissa - if narrow then 1 else 2) * quarter, 4 * x.mantissa * quarter,
    (4 * x.mantissa + 2) * quarter, x.mantissa % 2 = 0,
    twoTo (2 - x.exponent).toNat * tenTo scale.toNat⟩

def Span.point (s : Span) : Option Nat :=
  let below := s.middle / s.unit
  match s.holds below, s.holds (below + 1) with
  | true, true => some (nearest s.middle s.unit)
  | true, false => some below
  | false, true => some (below + 1)
  | false, false => none

def Binary64.shortestFrom (x : Binary64) : Nat → Int → Nat × Int
  | 0, _ => (0, 0)
  | tries + 1, scale =>
    match (x.span scale).point with
    | some digits => (digits, scale)
    | none => x.shortestFrom tries (scale - 1)

-- The first grid lies above the number, and seventeen digits always read back.
def Binary64.shortest (x : Binary64) : Nat × Int :=
  x.shortestFrom 24 ((x.exponent + x.mantissa.log2) * 30103 / 100000 + 2)

theorem Span.pointHolds {s : Span} {digits : Nat} (found : s.point = some digits) :
    s.holds digits = true := by
  simp only [point] at found
  split at found
  · rename_i below above
    cases found
    have either : nearest s.middle s.unit = s.middle / s.unit ∨
        nearest s.middle s.unit = s.middle / s.unit + 1 := by
      simp only [nearest]
      repeat' split
      · exact Or.inl rfl
      · exact Or.inr rfl
      · rcases Nat.mod_two_eq_zero_or_one (s.middle / s.unit) with h | h <;> simp [h]
    rcases either with h | h <;> rw [h] <;> assumption
  · cases found; assumption
  · cases found; assumption
  · contradiction

end TablePlan.Decimal
