import MethodBody.Binary.Format

/-!
# Shortest decimal text

A finite number is written with the fewest decimal digits that read back to it. The reals that
round to `m * 2 ^ q` form an interval, whose ends belong to it exactly when `m` is even. Among the
grids of multiples of `10 ^ k` the coarsest one with a point in the interval is taken, and on it
the point nearest to the number. All arithmetic is exact.
-/

namespace MethodBody.Binary

/-- The interval of reals that read back to one number. The three points are numerators over the
common denominator `den`. -/
structure Window where
  low : Nat
  centre : Nat
  high : Nat
  den : Nat
  /-- Whether the two ends belong to the interval. -/
  closed : Bool

namespace Window

/-- The interval around `mantissa * 2 ^ exponent`, measured in quarters of a unit. It reaches half
a unit up and half a unit down, or a quarter down where the smaller neighbour is nearer. -/
def around (mantissa : Nat) (exponent : Int) (narrow : Bool) : Window :=
  let scale := Nat.pow 2 (exponent - 2).toNat
  { low := (4 * mantissa - if narrow then 1 else 2) * scale
    centre := 4 * mantissa * scale
    high := (4 * mantissa + 2) * scale
    den := Nat.pow 2 (2 - exponent).toNat
    closed := mantissa % 2 == 0 }

/-- The same interval counted in units of `10 ^ k`. -/
def scaled (w : Window) (k : Int) : Window :=
  let up := Nat.pow 10 (-k).toNat
  { w with
    low := w.low * up
    centre := w.centre * up
    high := w.high * up
    den := w.den * Nat.pow 10 k.toNat }

/-- Whether the whole number `n` lies in the interval. -/
def contains (w : Window) (n : Nat) : Bool :=
  if w.closed then w.low ≤ n * w.den && n * w.den ≤ w.high
  else w.low < n * w.den && n * w.den < w.high

/-- The whole number in the interval that is nearest to its centre, if there is one. Of two that
are equally near the larger is taken. -/
def nearest? (w : Window) : Option Nat :=
  let below := w.centre / w.den
  let above := below + 1
  match w.contains below, w.contains above with
  | true, true =>
    if w.centre - below * w.den < above * w.den - w.centre then some below else some above
  | true, false => some below
  | false, true => some above
  | false, false => none

end Window

/-- The decimal number `digits * 10 ^ exponent`. -/
structure Decimal where
  digits : Nat
  exponent : Int
deriving DecidableEq

/-- The shortest decimal that reads back to `mantissa * 2 ^ exponent`. The grids are tried from
the coarsest that could meet the interval down to one on which the number itself lies. -/
def shortest (mantissa : Nat) (exponent : Int) (narrow : Bool) : Decimal :=
  let window := Window.around mantissa exponent narrow
  let top := (Nat.toDigits 10 (window.high / window.den)).length
  let finest := (2 - exponent).toNat
  let hit := (List.range (top + finest + 1)).findSome? fun (i : Nat) =>
    let k : Int := (top : Int) - i
    (window.scaled k).nearest?.map fun n => Decimal.mk n k
  hit.getD ⟨0, 0⟩

/-- A decimal written with a point where needed and never with an exponent. -/
def Decimal.positional (d : Decimal) : String :=
  let digits := Nat.toDigits 10 d.digits
  if 0 ≤ d.exponent then
    String.ofList (digits ++ List.replicate d.exponent.toNat '0')
  else
    let places := (-d.exponent).toNat
    let padded := List.replicate (places + 1 - digits.length) '0' ++ digits
    let whole := padded.length - places
    String.ofList (padded.take whole ++ '.' :: padded.drop whole)

/-- The text of a number. A NaN has neither sign nor payload; a zero keeps its sign. -/
def Datum.text : Datum → String
  | .nan => "NaN"
  | .infinite negative => if negative then "-inf" else "inf"
  | .finite negative mantissa exponent narrow =>
    let magnitude :=
      if mantissa = 0 then "0" else (shortest mantissa exponent narrow).positional
    if negative then "-" ++ magnitude else magnitude

end MethodBody.Binary
