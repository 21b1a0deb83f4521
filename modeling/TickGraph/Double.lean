open Float.Model (UnpackedFloat)
open Float.Model.UnpackedFloat (Sign)

namespace TickGraph.Double

def positiveInfinity : Float :=
  1 / 0

def notANumber : Float :=
  0 / 0

/-- The double nearest to `±m · 2^e`, ties to even. -/
def ofScaled (sign : Sign) (m : Nat) (e : Int) : Float :=
  Float.ofModel (Float.Model.pack (UnpackedFloat.round .binary64 sign m e))

/-- The double nearest to `±significand · 10^exponent`; past the largest double it is infinite. -/
def ofDecimal (negative : Bool) (significand : Nat) (exponent : Int) : Float :=
  let magnitude := Float.ofScientific significand (exponent < 0) exponent.natAbs
  if negative then -magnitude else magnitude

/-- The power of a base, or one for a negative exponent. So `n · base^e` is `n * scale base e` over
`scale base (-e)`, whatever the sign of `e`. -/
def scale (base : Nat) (e : Int) : Nat :=
  Nat.pow base e.toNat

/-- The integer part of `m · 2^e`. -/
def wholePart (m : Nat) (e : Int) : Nat :=
  m * scale 2 e / scale 2 (-e)

/-- Whether `m · 2^e` is an integer. -/
def isWhole (m : Nat) (e : Int) : Bool :=
  m * scale 2 e % scale 2 (-e) == 0

/-- The integer that a double is, if it is one. -/
def toInt? (x : Float) : Option Int :=
  match x.toModel.unpack with
  | .zero _ => some 0
  | .finite sign m e _ => if isWhole m e then some (sign.apply (wholePart m e)) else none
  | _ => none

inductive NoInteger where
  | infinite
  | notANumber
deriving DecidableEq, Inhabited

/-- Drops the fraction of a finite double. -/
def truncate (x : Float) : Except NoInteger Int :=
  match x.toModel.unpack with
  | .zero _ => .ok 0
  | .finite sign m e _ => .ok (sign.apply (wholePart m e))
  | .infinity _ => .error .infinite
  | .notANumber => .error .notANumber

/-- The largest integer that is not above `x`. Integers, zeros of either sign, infinities and NaN
are their own floor. -/
def floor (x : Float) : Float :=
  match x.toModel.unpack with
  | .finite sign m e _ =>
    if isWhole m e then x
    else
      match sign with
      | .positive => ofScaled .positive (wholePart m e) 0
      | .negative => ofScaled .negative (wholePart m e + 1) 0
  | _ => x

/-- The remainder of `m₁ · 2^e₁` by `m₂ · 2^e₂`, counted in units of the smaller power of two. -/
def scaledRemainder (m₁ : Nat) (e₁ : Int) (m₂ : Nat) (e₂ : Int) : Nat :=
  m₁ * scale 2 (e₁ - e₂) % (m₂ * scale 2 (e₂ - e₁))

/-- What is left of `x` after taking away `y` as often as it fits, with the sign of `x`. The result
is exact: it has no more digits than `x` or `y`. -/
def remainder (x y : Float) : Float :=
  match x.toModel.unpack, y.toModel.unpack with
  | .notANumber, _ => notANumber
  | _, .notANumber => notANumber
  | .infinity _, _ => notANumber
  | _, .zero _ => notANumber
  | _, .infinity _ => x
  | .zero _, _ => x
  | .finite sign m₁ e₁ _, .finite _ m₂ e₂ _ =>
    ofScaled sign (scaledRemainder m₁ e₁ m₂ e₂) (min e₁ e₂)

end TickGraph.Double
