import TickGraph.Double

namespace TickGraph

/-- What is left of a division whose quotient is cut off toward zero. -/
class Remainder (α : Type) where
  remainder : α → α → α

/-- The largest integer that is not above a number. -/
class Floor (α : Type) where
  floor : α → α

instance : Remainder Float :=
  ⟨Double.remainder⟩

instance : Floor Float :=
  ⟨Double.floor⟩

/-- Modulo with the sign of the divisor: adding the divisor once moves a remainder of the wrong sign
into range, and the second remainder takes it off again where it was not needed. -/
def flooredModulo {α : Type} [Add α] [Remainder α] (p c : α) : α :=
  Remainder.remainder (Remainder.remainder p c + c) c

/-- The nearest integer. A tie goes up, also below zero. -/
def roundHalfUp {α : Type} [Add α] [Sub α] [OfScientific α] [One α] [LE α] [DecidableLE α]
    [Floor α] (v : α) : α :=
  let r := Floor.floor v
  if 0.5 ≤ v - r then r + 1 else r

/-- Powers. For the exponents of a reciprocal, a square root and a square the result comes from
these operations, which round once; so the root of `-0.0` is `-0.0`, and `-inf` has none. -/
def power (x y : Float) : Float :=
  if y == -1 then 1 / x
  else if y == 0 then 1
  else if y == 0.5 then x.sqrt
  else if y == 1 then x
  else if y == 2 then x * x
  else Float.pow x y

/-- Folds a list of operands from the left; there are at least two. -/
def foldOperands {α : Type} (reduce : α → α → α) (a b : α) (others : List α) : α :=
  others.foldl reduce (reduce a b)

end TickGraph
