import TablePlan.Decimal.Shortest
/-! Decimals as text: with a plain point in a middle range of orders, with an exponent elsewhere. -/
namespace TablePlan.Decimal

structure Layout where
  leastPlain : Int
  greatestPlain : Int
  deriving Repr

def digitsOf (n : Nat) : List Char := Nat.toDigits 10 n

def zeros (count : Nat) : List Char := List.replicate count '0'

def plain (digits : List Char) (scale : Int) : List Char :=
  if 0 ≤ scale then digits ++ zeros scale.toNat ++ ['.', '0']
  else
    let places := (-scale).toNat
    if places < digits.length then
      digits.take (digits.length - places) ++ '.' :: digits.drop (digits.length - places)
    else '0' :: '.' :: zeros (places - digits.length) ++ digits

def exponential (digits : List Char) (order : Int) : List Char :=
  let mark := if order < 0 then ['e', '-'] else ['e', '+']
  let fraction := if digits.length ≤ 1 then [] else '.' :: digits.drop 1
  digits.take 1 ++ fraction ++ mark ++ digitsOf order.natAbs

def Layout.write (layout : Layout) (digits : Nat) (scale : Int) : List Char :=
  let text := digitsOf digits
  let order := scale + text.length - 1
  if layout.leastPlain ≤ order ∧ order ≤ layout.greatestPlain then plain text scale
  else exponential text order

def Binary64.write (layout : Layout) (x : Binary64) : List Char :=
  let (digits, scale) := if x.mantissa = 0 then (0, 0) else x.shortest
  (if x.negative then ['-'] else []) ++ layout.write digits scale

end TablePlan.Decimal
