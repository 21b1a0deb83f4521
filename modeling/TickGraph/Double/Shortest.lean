import TickGraph.Double

open Float.Model (UnpackedFloat)
open Float.Model.UnpackedFloat (Sign)

namespace TickGraph.Double

/-- The number `significand · 10^exponent`. -/
structure Decimal where
  significand : Nat
  exponent : Int
deriving DecidableEq, Inhabited, Repr

/-- The reals that round to a positive double: from `low` to `high` around `value`, all counted in
parts of which `parts` make one. The ends round to the double too if `closed`. -/
structure RoundingInterval where
  low : Nat
  value : Nat
  high : Nat
  parts : Nat
  closed : Bool

/-- Half a step to either side of `m · 2^e`. Below a power of two the doubles stand twice as close,
so only a quarter of a step belongs to it there. The ends go to an even `m`. -/
def RoundingInterval.around (m : Nat) (e : Int) : RoundingInterval :=
  let unit := scale 2 (e - 2)
  let below := if m = scale 2 52 ∧ -1074 < e then 1 else 2
  ⟨(4 * m - below) * unit, 4 * m * unit, (4 * m + 2) * unit, scale 2 (2 - e), m % 2 == 0⟩

/-- Whether `n · 10^place` rounds to the double. -/
def RoundingInterval.holds (interval : RoundingInterval) (n : Nat) (place : Int) : Bool :=
  let point := n * scale 10 place * interval.parts
  let low := interval.low * scale 10 (-place)
  let high := interval.high * scale 10 (-place)
  if interval.closed then decide (low ≤ point ∧ point ≤ high)
  else decide (low < point ∧ point < high)

/-- The largest `n` for which `n · 10^place` is not above the value. -/
def RoundingInterval.gridFloor (interval : RoundingInterval) (place : Int) : Nat :=
  interval.value * scale 10 (-place) / (interval.parts * scale 10 place)

/-- Whether `n · 10^place` is nearer to the value than its successor on the grid; a tie goes to the
even one. -/
def RoundingInterval.prefersFloor (interval : RoundingInterval) (n : Nat) (place : Int) : Bool :=
  let middle := (2 * n + 1) * scale 10 place * interval.parts
  let value := 2 * interval.value * scale 10 (-place)
  decide (value < middle) || (value == middle && n % 2 == 0)

/-- The exponent of the first digit. The smallest double is above `10^-324`, so scaled by `10^324`
every double has an integer part to count. -/
def RoundingInterval.decade (interval : RoundingInterval) : Int :=
  ((Nat.toDigits 10 (interval.value * scale 10 324 / interval.parts)).length : Int) - 325

/-- The nearest point on the grid of `10^place` that reads back as the double, if one does. -/
def RoundingInterval.onGrid? (interval : RoundingInterval) (place : Int) : Option Nat :=
  let n := interval.gridFloor place
  match interval.holds n place, interval.holds (n + 1) place with
  | true, true => some (if interval.prefersFloor n place then n else n + 1)
  | true, false => some n
  | false, true => some (n + 1)
  | false, false => none

/-- The point above `9` on a grid of one digit is `10`, which is one digit a place higher. -/
def Decimal.ofGrid (n : Nat) (place : Int) : Decimal :=
  if n % 10 = 0 then ⟨n / 10, place + 1⟩ else ⟨n, place⟩

/-- The shortest decimal for `m · 2^e`. Seventeen digits tell all doubles apart, so the search
always ends in a hit. -/
def shortest (m : Nat) (e : Int) : Decimal :=
  let interval := RoundingInterval.around m e
  let decade := interval.decade
  let hit := (List.range 17).findSome? fun (more : Nat) =>
    let place := decade - (more : Int)
    (interval.onGrid? place).map fun n => Decimal.ofGrid n place
  hit.getD ⟨interval.gridFloor (decade - 16), decade - 16⟩

end TickGraph.Double
