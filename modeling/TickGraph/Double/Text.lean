import TickGraph.Double.Shortest

open Float.Model (UnpackedFloat)
open Float.Model.UnpackedFloat (Sign)

namespace TickGraph.Double

/-- How digits are laid out. Exponents of the first digit from `leastPoint` up to below `pointEnd`
are written with a point, the others as a power of ten with at least `exponentWidth` digits. -/
structure Layout where
  leastPoint : Int
  pointEnd : Int
  exponentWidth : Nat

/-- Numbers from `0.0001` up to `10^16` are written with a point. -/
def Layout.standard : Layout :=
  ⟨-4, 16, 2⟩

def zeros (count : Int) : List Char :=
  List.replicate count.toNat '0'

/-- Digits with a point after the first `point` of them. There is a digit on either side of it. -/
def pointed (digits : List Char) (point : Int) : List Char :=
  if point ≤ 0 then '0' :: '.' :: (zeros (-point) ++ digits)
  else if digits.length ≤ point then digits ++ zeros (point - digits.length) ++ ['.', '0']
  else digits.take point.toNat ++ '.' :: digits.drop point.toNat

/-- One digit in front of the point and a signed exponent. -/
def withExponent (digits : List Char) (exponent : Int) (width : Nat) : List Char :=
  let power := Nat.toDigits 10 exponent.natAbs
  let fraction := if digits.length ≤ 1 then [] else '.' :: digits.drop 1
  digits.take 1 ++ fraction ++ 'e' :: (if exponent < 0 then '-' else '+') ::
    (zeros (width - power.length) ++ power)

def Layout.write (layout : Layout) (number : Decimal) : List Char :=
  let digits := Nat.toDigits 10 number.significand
  let exponent := number.exponent + digits.length - 1
  if layout.leastPoint ≤ exponent ∧ exponent < layout.pointEnd then pointed digits (exponent + 1)
  else withExponent digits exponent layout.exponentWidth

def minus : Sign → String
  | .positive => ""
  | .negative => "-"

/-- The text of a double. Zero keeps its sign, NaN has none. -/
def text (x : Float) : String :=
  match x.toModel.unpack with
  | .notANumber => "nan"
  | .infinity sign => minus sign ++ "inf"
  | .zero sign => minus sign ++ "0.0"
  | .finite sign m e _ => minus sign ++ String.ofList (Layout.standard.write (shortest m e))

end TickGraph.Double
