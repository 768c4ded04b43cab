/-
# EcmaScribe.Number.Shortest -- the fewest digits that read back

A finite nonzero double is written with the fewest decimal digits that still
read back as that double.  The decimals that read back fill an interval around
the value; `shortest` lays the grids `10 ^ p`, from coarse to fine, over that
interval and takes the first grid with a point inside.  Only the two grid points
next to the value need a test, and of two inside the nearer one is taken.

An exact tie between the two is for the format that writes the digits: script
literals take the upper neighbour, interchange text the even one.
-/
import EcmaScribe.Number.Double

namespace EcmaScribe

set_option autoImplicit false

/-- Decimal digits, the first of which stands for multiples of `10 ^ exponent`. -/
structure Decimal where
  digits : List Char
  exponent : Int
  deriving DecidableEq, Repr

/-- Which of two equally near neighbours on the grid is written. -/
inductive TieRule
  | upward
  | toEven
  deriving DecidableEq, Repr

namespace Double

/-- The reals that read back as `m * 2 ^ q`, in quarters of `2 ^ q`.

Below a power of two the next double is half as far away as above it.  The two
ends belong to the interval when the significand is even. -/
structure Interval where
  low : Nat
  middle : Nat
  high : Nat
  closed : Bool

def interval (d : Double) : Interval where
  low := 4 * d.significand - if d.fraction = 0 ∧ 1 < d.biasedExponent then 1 else 2
  middle := 4 * d.significand
  high := 4 * d.significand + 2
  closed := d.significand % 2 == 0

/-- A point of the grid inside the interval next to the value, if there is one.

`unit / grid` is the size of a quarter step, measured in grid steps. -/
def gridPoint? (tie : TieRule) (i : Interval) (unit grid : Nat) : Option Nat :=
  let below := i.middle * unit / grid
  let rest := i.middle * unit % grid
  let within (a b : Nat) : Bool := if i.closed then decide (a ≤ b) else decide (a < b)
  let downInside := within (i.low * unit) (below * grid)
  let upInside := within ((below + 1) * grid) (i.high * unit)
  let up := match tie with
    | .upward => decide (grid ≤ 2 * rest)
    | .toEven => decide (grid < 2 * rest ∨ (grid = 2 * rest ∧ below % 2 = 1))
  match downInside, upInside with
  | true, true => some (if up then below + 1 else below)
  | true, false => some below
  | false, true => some (below + 1)
  | false, false => none

/-- Search the grids `10 ^ p`, `10 ^ (p - 1)`, ... for the first point inside. -/
def searchGrids (tie : TieRule) (i : Interval) (q : Int) : Nat → Int → Nat × Int
  | 0, p => (0, p)
  | fuel + 1, p =>
      let unit := powerOfTen (-p).toNat <<< (q - 2).toNat
      let grid := powerOfTen p.toNat <<< (2 - q).toNat
      match gridPoint? tie i unit grid with
      | some n => (n, p)
      | none => searchGrids tie i q fuel (p - 1)

/-- A power of ten above the value, less than two orders away from it.

`30103 / 100000` is a little more than the decimal logarithm of two. -/
def decimalOrderBound (d : Double) : Int :=
  ((d.significand.log2 : Int) + d.exponent + 1) * 30103 / 100000 + 1

/-- The shortest decimal that reads back as a finite nonzero double, without its
sign.  Seventeen digits always suffice, and the search starts at most three
orders above the first digit. -/
def shortest (tie : TieRule) (d : Double) : Decimal :=
  let (n, p) := searchGrids tie d.interval d.exponent 22 d.decimalOrderBound
  let digits := Nat.toDigits 10 n
  ⟨digits, p + digits.length - 1⟩

end Double

end EcmaScribe
