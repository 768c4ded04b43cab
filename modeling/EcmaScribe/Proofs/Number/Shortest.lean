/-
# EcmaScribe.Proofs.Number.Shortest -- the search finds the shortest decimal

What reads back as a double is an interval, and the search for its digits looks at the grids
`10 ^ p` from coarse to fine.  Three things make its answer the shortest decimal there is.

* On one grid it tests the two points next to the value only, and when both are outside the
  grid has no point in the interval at all (`holds_of_gridPoint?`, `not_holds_of_gridPoint?`).
* It starts on a grid that steps over the whole interval, and its fuel reaches one whose steps
  are shorter than the interval (`lt_start`, `exists_holds_fine`).  Both ends rest on one table:
  for the binary orders of all doubles `30103 / 100000` serves as the logarithm of two.
* A decimal of fewer digits lies on a coarser grid, or a power of ten lies between it and the
  one that was found, and that power is on a coarser grid (`below_first_digit`).

`exists_hasDigits_shortest` says the outcome in the terms in which the language defines the
text of a number.
-/
import EcmaScribe.Proofs.Number.Literal
import EcmaScribe.Proofs.Number.Rounding
import Mathlib.Algebra.Order.Floor.Ring
import Mathlib.Data.Rat.Floor
import Mathlib.Tactic.FieldSimp

namespace EcmaScribe

set_option autoImplicit false

namespace Double

/-! ## Points of one grid -/

namespace Interval

variable {i : Interval} {tie : TieRule} {unit grid n : Nat}

/-- The middle is inside, zero is not, and there are three quarters of a unit at least. -/
structure Proper (i : Interval) : Prop where
  positive : 0 < i.low
  before : i.low ≤ i.middle
  after : i.middle < i.high
  wide : i.low + 3 ≤ i.high

/-- An interval holds what lies strictly between two of its numbers. -/
theorem Holds.between {step x y z : ℚ} (first : i.Holds step x) (last : i.Holds step z)
    (above : x ≤ y) (below : y ≤ z) : i.Holds step y := by
  unfold Holds at *
  split
  · rename_i closed
    rw [if_pos closed] at first last
    exact ⟨first.1.trans above, below.trans last.2⟩
  · rename_i opened
    rw [if_neg opened] at first last
    exact ⟨first.1.trans_le above, below.trans_lt last.2⟩

theorem Holds.pos (proper : i.Proper) {step x : ℚ} (positive : 0 < step)
    (inside : i.Holds step x) : 0 < x := by
  have low : 0 < i.low * step := mul_pos (by exact_mod_cast proper.positive) positive
  unfold Holds at inside
  split at inside
  · exact low.trans_le inside.1
  · exact low.trans inside.1

/-- Measured in a step of another size, the interval holds the numbers of that size. -/
theorem holds_scaled {scale : ℚ} (positive : 0 < scale) (step x : ℚ) :
    i.Holds (step * scale) (x * scale) ↔ i.Holds step x := by
  unfold Holds
  rw [← mul_assoc, ← mul_assoc, mul_le_mul_iff_left₀ positive, mul_le_mul_iff_left₀ positive,
    mul_lt_mul_iff_left₀ positive, mul_lt_mul_iff_left₀ positive]

/-- The test of the search for one end of the interval. -/
def leftOf (i : Interval) (a b : Nat) : Bool := if i.closed then decide (a ≤ b) else decide (a < b)

theorem holds_natCast (i : Interval) (unit a : Nat) : i.Holds unit a ↔
    i.leftOf (i.low * unit) a = true ∧ i.leftOf a (i.high * unit) = true := by
  unfold Holds leftOf
  split
  · simp only [decide_eq_true_eq]
    norm_cast
  · simp only [decide_eq_true_eq]
    norm_cast

theorem leftOf_trans {a b c : Nat} (first : i.leftOf a b = true) (next : b ≤ c) :
    i.leftOf a c = true := by
  unfold leftOf at *
  split at first
  · rename_i closed
    rw [if_pos closed, decide_eq_true_eq] at *
    omega
  · rename_i opened
    rw [if_neg opened, decide_eq_true_eq] at *
    omega

theorem leftOf_of_lt {a b : Nat} (less : a < b) : i.leftOf a b = true := by
  unfold leftOf
  split
  · exact decide_eq_true less.le
  · exact decide_eq_true less

/-- What the search does on a grid; the tie rule only decides between two points inside. -/
theorem gridPoint?_eq (tie : TieRule) (i : Interval) (unit grid : Nat) :
    ∃ up : Bool, gridPoint? tie i unit grid =
      let below := i.middle * unit / grid
      match i.leftOf (i.low * unit) (below * grid),
        i.leftOf ((below + 1) * grid) (i.high * unit) with
      | true, true => some (if up then below + 1 else below)
      | true, false => some below
      | false, true => some (below + 1)
      | false, false => none := ⟨_, rfl⟩

theorem below_le (middle grid : Nat) : middle / grid * grid ≤ middle := Nat.div_mul_le_self _ _

theorem lt_above (middle : Nat) (positive : 0 < grid) : middle < (middle / grid + 1) * grid :=
  Nat.lt_mul_of_div_lt (Nat.lt_succ_self _) positive

/-- What the search finds on a grid is inside. -/
theorem holds_of_gridPoint? (proper : i.Proper) (unitPositive : 0 < unit) (gridPositive : 0 < grid)
    (found : gridPoint? tie i unit grid = some n) : i.Holds unit (n * grid : Nat) := by
  have middleHigh : i.middle * unit < i.high * unit :=
    Nat.mul_lt_mul_of_pos_right proper.after unitPositive
  have lowMiddle : i.low * unit ≤ i.middle * unit := Nat.mul_le_mul_right unit proper.before
  have atMost := below_le (i.middle * unit) grid
  have beyond := lt_above (i.middle * unit) gridPositive
  -- below the value only the start of the interval needs a test, above it only the end
  have down (test : i.leftOf (i.low * unit) (i.middle * unit / grid * grid) = true) :
      i.Holds unit (i.middle * unit / grid * grid : Nat) :=
    (holds_natCast i unit _).2 ⟨test, leftOf_of_lt (atMost.trans_lt middleHigh)⟩
  have up (test : i.leftOf ((i.middle * unit / grid + 1) * grid) (i.high * unit) = true) :
      i.Holds unit ((i.middle * unit / grid + 1) * grid : Nat) :=
    (holds_natCast i unit _).2 ⟨leftOf_of_lt (lowMiddle.trans_lt beyond), test⟩
  obtain ⟨upward, search⟩ := gridPoint?_eq tie i unit grid
  rw [search] at found
  dsimp only at found
  split at found
  · rename_i downInside upInside
    obtain rfl := Option.some.inj found
    cases upward
    · exact down downInside
    · exact up upInside
  · rename_i downInside _
    obtain rfl := Option.some.inj found
    exact down downInside
  · rename_i _ upInside
    obtain rfl := Option.some.inj found
    exact up upInside
  · cases found

/-- Where the search finds nothing there is nothing. -/
theorem not_holds_of_gridPoint? (found : gridPoint? tie i unit grid = none) (m : Nat) :
    ¬ i.Holds unit (m * grid : Nat) := by
  intro inside
  obtain ⟨above, below⟩ := (holds_natCast i unit _).1 inside
  obtain ⟨upward, search⟩ := gridPoint?_eq tie i unit grid
  rw [search] at found
  dsimp only at found
  split at found
  · cases found
  · cases found
  · cases found
  · rename_i downOutside upOutside
    by_cases side : m ≤ i.middle * unit / grid
    · have down := leftOf_trans above (Nat.mul_le_mul_right grid side)
      rw [downOutside] at down
      cases down
    · have next : (i.middle * unit / grid + 1) * grid ≤ m * grid :=
        Nat.mul_le_mul_right grid (by omega)
      have up : i.leftOf ((i.middle * unit / grid + 1) * grid) (i.high * unit) = true := by
        unfold leftOf at below ⊢
        split at below
        · rename_i closed
          rw [if_pos closed]
          rw [decide_eq_true_eq] at below ⊢
          omega
        · rename_i opened
          rw [if_neg opened]
          rw [decide_eq_true_eq] at below ⊢
          omega
      rw [upOutside] at up
      cases up

end Interval

/-! ## The search -/

variable {d : Double} {tie : TieRule}

theorem proper_interval (nonzero : d.isZero = false) : d.interval.Proper := by
  have positive := significand_pos (rank_pos_of_not_isZero nonzero)
  have low : d.interval.low = 4 * d.significand -
      if d.fraction = 0 ∧ 1 < d.biasedExponent then 1 else 2 := rfl
  have middle : d.interval.middle = 4 * d.significand := rfl
  have high : d.interval.high = 4 * d.significand + 2 := rfl
  constructor
  · rw [low]
    split <;> omega
  · omega
  · omega
  · rw [low, high]
    split <;> omega

/-- A quarter step in the measure of the search. -/
def searchUnit (q p : Int) : Nat := powerOfTen (-p).toNat <<< (q - 2).toNat

/-- A step of the grid `10 ^ p` in the same measure. -/
def searchGrid (q p : Int) : Nat := powerOfTen p.toNat <<< (2 - q).toNat

theorem searchGrids_succ (i : Interval) (q : Int) (fuel : Nat) (p : Int) :
    searchGrids tie i q (fuel + 1) p =
      match gridPoint? tie i (searchUnit q p) (searchGrid q p) with
      | some n => (n, p)
      | none => searchGrids tie i q fuel (p - 1) := rfl

/-- One power over another with natural exponents. -/
theorem zpow_eq_div {base : ℚ} (nonzero : base ≠ 0) (e : Int) :
    base ^ e = base ^ e.toNat / base ^ (-e).toNat := by
  rw [← zpow_natCast, ← zpow_natCast, ← zpow_sub₀ nonzero]
  congr 1
  omega

theorem powerOfTen_eq (n : Nat) : powerOfTen n = 10 ^ n := rfl

theorem searchUnit_pos (q p : Int) : 0 < searchUnit q p := by
  rw [searchUnit, powerOfTen_eq, Nat.shiftLeft_eq]
  positivity

theorem searchGrid_pos (q p : Int) : 0 < searchGrid q p := by
  rw [searchGrid, powerOfTen_eq, Nat.shiftLeft_eq]
  positivity

/-- The measure of the search is a scale of the numbers themselves. -/
theorem exists_scale (q p : Int) : ∃ scale : ℚ, 0 < scale ∧
    searchUnit q p * scale = 2 ^ (q - 2) ∧ searchGrid q p * scale = 10 ^ p := by
  refine ⟨1 / (10 ^ (-p).toNat * 2 ^ (2 - q).toNat), by positivity, ?_, ?_⟩
  · rw [searchUnit, powerOfTen_eq, Nat.shiftLeft_eq, zpow_eq_div two_ne_zero (q - 2), neg_sub]
    push_cast
    field_simp
  · rw [searchGrid, powerOfTen_eq, Nat.shiftLeft_eq, zpow_eq_div (by norm_num) p]
    push_cast
    field_simp

/-- The numbers that are searched are those the double stands for. -/
theorem holds_search (d : Double) (p : Int) (n : Nat) :
    d.interval.Holds (searchUnit d.exponent p) (n * searchGrid d.exponent p : Nat) ↔
      d.interval.Holds d.quarter (n * 10 ^ p) := by
  obtain ⟨scale, positive, unit, grid⟩ := exists_scale d.exponent p
  rw [← Interval.holds_scaled positive, unit, quarter]
  push_cast
  rw [mul_assoc, grid]

/-- The search passes only grids with nothing inside, and finds what lies on a grid that its
fuel reaches. -/
theorem searchGrids_spec (tie : TieRule) (nonzero : d.isZero = false) (fuel : Nat) (p : Int) :
    let found := searchGrids tie d.interval d.exponent fuel p
    (∀ r, found.2 < r → r ≤ p → ∀ m : Nat, ¬ d.interval.Holds d.quarter (m * 10 ^ r)) ∧
      ∀ r, r ≤ p → p < r + fuel → ∀ m : Nat, d.interval.Holds d.quarter (m * 10 ^ r) →
        d.interval.Holds d.quarter (found.1 * 10 ^ found.2) := by
  induction fuel generalizing p with
  | zero =>
      refine ⟨fun r above below => ?_, fun r below above => ?_⟩
      · have start : p < r := above
        omega
      · omega
  | succ fuel ih =>
      rw [searchGrids_succ]
      cases point : gridPoint? tie d.interval (searchUnit d.exponent p)
          (searchGrid d.exponent p) with
      | some n =>
          refine ⟨fun r above below => ?_, fun r _ _ m _ => ?_⟩
          · have start : p < r := above
            omega
          · rw [← holds_search]
            exact Interval.holds_of_gridPoint? (proper_interval nonzero) (searchUnit_pos _ _)
              (searchGrid_pos _ _) point
      | none =>
          have empty (m : Nat) : ¬ d.interval.Holds d.quarter (m * 10 ^ p) := by
            rw [← holds_search]
            exact Interval.not_holds_of_gridPoint? point m
          obtain ⟨passed, reached⟩ := ih (p - 1)
          refine ⟨fun r above below m inside => ?_, fun r below above m inside => ?_⟩
          · by_cases top : r = p
            · subst top
              exact empty m inside
            · exact passed r above (by omega) m inside
          · by_cases top : r = p
            · subst top
              exact absurd inside (empty m)
            · exact reached r (by omega) (by omega) m inside

/-! ## Where the search starts -/

/-- The decimal order that the search starts from, for a binary order. -/
def startFor (b : Int) : Int := b * 30103 / 100000 + 1

/-- The power of ten at the start is above the power of two, by less than four digits. -/
def startsWell (b : Int) : Bool :=
  let two := 2 ^ b.toNat * 10 ^ (-startFor b).toNat
  let ten := 10 ^ (startFor b).toNat * 2 ^ (-b).toNat
  two.ble ten && ten.ble (10 ^ 4 * two)

/-- The binary orders of all doubles. -/
theorem all_startsWell : (List.range 2098).all (fun n => startsWell (n - 1073)) = true := by
  decide +kernel

theorem start_bounds {b : Int} (least : -1073 ≤ b) (most : b ≤ 1024) :
    (2 : ℚ) ^ b ≤ 10 ^ startFor b ∧ (10 : ℚ) ^ startFor b ≤ 10 ^ 4 * 2 ^ b := by
  have row := List.all_eq_true.1 all_startsWell (b + 1073).toNat (List.mem_range.2 (by omega))
  have shifted : ((b + 1073).toNat : Int) - 1073 = b := by omega
  rw [shifted, startsWell, Bool.and_eq_true, Nat.ble_eq, Nat.ble_eq] at row
  obtain ⟨lower, upper⟩ := row
  rw [zpow_eq_div two_ne_zero b, zpow_eq_div (by norm_num) (startFor b)]
  constructor
  · rw [div_le_div_iff₀ (by positivity) (by positivity)]
    exact_mod_cast lower
  · rw [← mul_div_assoc, div_le_div_iff₀ (by positivity) (by positivity), mul_assoc]
    exact_mod_cast upper

/-- The exponent of the power of two above a double. -/
def order (d : Double) : Int := d.significand.log2 + d.exponent + 1

theorem significand_lt (d : Double) : d.significand < 2 ^ 53 := by
  have fraction : d.fraction < 4503599627370496 := Nat.mod_lt _ (by decide)
  unfold significand
  show (if d.biasedExponent = 0 then d.fraction else 4503599627370496 + d.fraction) <
    9007199254740992
  split <;> omega

theorem exponent_range (finite : d.isFinite = true) : -1074 ≤ d.exponent ∧ d.exponent ≤ 971 := by
  have range : d.biasedExponent < 2048 := Nat.mod_lt _ (by decide)
  have other : d.biasedExponent ≠ 2047 := by simpa [isFinite] using finite
  unfold exponent
  omega

theorem log2_significand_le (d : Double) : d.significand.log2 ≤ 52 := by
  rcases Nat.eq_zero_or_pos d.significand with zero | positive
  · rw [zero]
    decide
  · have small := (Nat.log2_lt (by omega)).2 d.significand_lt
    omega

theorem order_range (finite : d.isFinite = true) : -1073 ≤ d.order ∧ d.order ≤ 1024 := by
  have range := exponent_range finite
  have digits := log2_significand_le d
  unfold order
  omega

/-- The interval ends below the power of two. -/
theorem high_lt_order (d : Double) : d.interval.high * d.quarter < 2 ^ d.order := by
  have below : d.significand < 2 ^ (d.significand.log2 + 1) := Nat.lt_log2_self
  have high : d.interval.high < 4 * 2 ^ (d.significand.log2 + 1) := by
    show 4 * d.significand + 2 < _
    omega
  have power : (2 : ℚ) ^ d.order = (4 * 2 ^ (d.significand.log2 + 1) : Nat) * d.quarter := by
    have split : d.order = ((d.significand.log2 + 1 : Nat) : Int) + 2 + (d.exponent - 2) := by
      unfold order
      omega
    rw [split, zpow_add₀ two_ne_zero, zpow_add₀ two_ne_zero, zpow_natCast, quarter]
    push_cast
    ring
  rw [power]
  exact mul_lt_mul_of_pos_right (by exact_mod_cast high) d.quarter_pos

/-- The power of two is near to the interval. -/
theorem order_le (d : Double) : (2 : ℚ) ^ d.order ≤ 2 ^ 55 * d.quarter := by
  have split : d.order = (d.significand.log2 + 1 : Int) + 2 + (d.exponent - 2) := by
    unfold order
    omega
  have digits := log2_significand_le d
  have bound : (2 : ℚ) ^ ((d.significand.log2 + 1 : Int) + 2) ≤ 2 ^ (55 : Int) :=
    zpow_le_zpow_right₀ (by norm_num) (by omega)
  rw [split, zpow_add₀ two_ne_zero, quarter]
  exact mul_le_mul_of_nonneg_right (by exact_mod_cast bound) (by positivity)

variable (finite : d.isFinite = true) (nonzero : d.isZero = false)
include finite

/-- The power of ten that the search starts from is above the power of two, but not far. -/
theorem order_bounds : (2 : ℚ) ^ d.order ≤ 10 ^ d.decimalOrderBound ∧
    (10 : ℚ) ^ d.decimalOrderBound ≤ 10 ^ 4 * 2 ^ d.order := by
  obtain ⟨least, most⟩ := order_range finite
  exact start_bounds least most

/-- All of the interval is below the power of ten that the search starts from. -/
theorem lt_start {x : ℚ} (inside : d.interval.Holds d.quarter x) :
    x < 10 ^ d.decimalOrderBound := by
  calc x ≤ d.interval.high * d.quarter := ((holds_iff d x).1 inside).2.1
    _ < 2 ^ d.order := high_lt_order d
    _ ≤ 10 ^ d.decimalOrderBound := (order_bounds finite).1

include nonzero

/-- Twenty-one grids further on the steps are shorter than the interval. -/
theorem exists_holds_fine : ∃ m : Nat,
    d.interval.Holds d.quarter (m * 10 ^ (d.decimalOrderBound - 21)) := by
  have quarter := d.quarter_pos
  have step_pos : (0 : ℚ) < 10 ^ (d.decimalOrderBound - 21) := by positivity
  have short : (10 : ℚ) ^ (d.decimalOrderBound - 21) < 3 * d.quarter := by
    have power : (10 : ℚ) ^ (d.decimalOrderBound - 21) = 10 ^ d.decimalOrderBound / 10 ^ 21 := by
      rw [zpow_sub₀ (by norm_num)]
      norm_cast
    have start : (10 : ℚ) ^ d.decimalOrderBound ≤ 10 ^ 4 * (2 ^ 55 * d.quarter) :=
      (order_bounds finite).2.trans (mul_le_mul_of_nonneg_left (order_le d) (by norm_num))
    rw [power, div_lt_iff₀ (by norm_num)]
    linarith
  have width : d.interval.low * d.quarter + 3 * d.quarter ≤ d.interval.high * d.quarter := by
    have wide : (d.interval.low + 3 : ℚ) ≤ d.interval.high := by
      exact_mod_cast (proper_interval nonzero).wide
    rw [← add_mul]
    exact mul_le_mul_of_nonneg_right wide quarter.le
  generalize (10 : ℚ) ^ (d.decimalOrderBound - 21) = step at *
  -- the first point beyond the start of the interval
  refine ⟨⌊d.interval.low * d.quarter / step⌋₊ + 1, ?_⟩
  have floor := Nat.floor_le (div_nonneg (by positivity) step_pos.le :
    0 ≤ d.interval.low * d.quarter / step)
  have next := Nat.lt_floor_add_one (d.interval.low * d.quarter / step)
  rw [le_div_iff₀ step_pos] at floor
  rw [div_lt_iff₀ step_pos] at next
  push_cast
  have above : d.interval.low * d.quarter <
      (⌊d.interval.low * d.quarter / step⌋₊ + 1) * step := next
  have below : (⌊d.interval.low * d.quarter / step⌋₊ + 1) * step <
      d.interval.high * d.quarter := by
    rw [add_mul, one_mul]
    linarith
  unfold Interval.Holds
  split
  · exact ⟨above.le, below.le⟩
  · exact ⟨above, below⟩

/-- **The search comes back with a number that reads back as the double**, and on no coarser grid
is there another one. -/
theorem searchGrids_found (tie : TieRule) :
    let found := searchGrids tie d.interval d.exponent 22 d.decimalOrderBound
    d.interval.Holds d.quarter (found.1 * 10 ^ found.2) ∧
      ∀ r, found.2 < r → ∀ m : Nat, ¬ d.interval.Holds d.quarter (m * 10 ^ r) := by
  obtain ⟨passed, reached⟩ := searchGrids_spec tie nonzero 22 d.decimalOrderBound
  obtain ⟨m, fine⟩ := exists_holds_fine finite nonzero
  refine ⟨reached (d.decimalOrderBound - 21) (by omega) (by omega) m fine, ?_⟩
  intro r above m inside
  by_cases beyond : r ≤ d.decimalOrderBound
  · exact passed r above beyond m inside
  · -- the grids before the start step over the whole interval
    have positive : 0 < (m : ℚ) * 10 ^ r := inside.pos (proper_interval nonzero) d.quarter_pos
    have counted : 1 ≤ m := by
      rcases Nat.eq_zero_or_pos m with rfl | positive'
      · simp at positive
      · exact positive'
    have start := lt_start finite inside
    have grid : (10 : ℚ) ^ d.decimalOrderBound ≤ 10 ^ r :=
      zpow_le_zpow_right₀ (by norm_num) (by omega)
    have multiple : (10 : ℚ) ^ r ≤ m * 10 ^ r :=
      le_mul_of_one_le_left (by positivity) (by exact_mod_cast counted)
    linarith

end Double

/-! ## Digits -/

theorem length_toDigits_bounds {s : Nat} (positive : 0 < s) :
    10 ^ ((Nat.toDigits 10 s).length - 1) ≤ s ∧ s < 10 ^ (Nat.toDigits 10 s).length := by
  have nonempty : 0 < (Nat.toDigits 10 s).length := List.length_pos_of_ne_nil Nat.toDigits_ne_nil
  refine ⟨?_, (Nat.length_toDigits_le_iff (by decide) nonempty).1 le_rfl⟩
  rcases Nat.eq_zero_or_pos ((Nat.toDigits 10 s).length - 1) with single | more
  · rw [single]
    exact positive
  · by_contra less
    have shorter := (Nat.length_toDigits_le_iff (b := 10) (by decide) more).2 (not_le.1 less)
    omega

namespace Double

/-- **Digits of a double**: `s` is an integer of `k` digits, with the point after the first `n` of
them it reads back as the double, and no integer of fewer digits does so anywhere. -/
structure HasDigits (d : Double) (s k : Nat) (n : Int) : Prop where
  nonempty : 1 ≤ k
  least : 10 ^ (k - 1) ≤ s
  most : s < 10 ^ k
  reads : d.Represents (d.signed (s * 10 ^ (n - k)))
  fewest : ∀ (s' k' : Nat) (n' : Int), 1 ≤ k' → s' < 10 ^ k' →
    d.Represents (d.signed (s' * 10 ^ (n' - k'))) → k ≤ k'

/-- Fewer digits on the same grid or a finer one stay below the first digit. -/
theorem below_first_digit {s s' k k' : Nat} {p p' : Int} (fewer : k' < k) (finer : p' ≤ p)
    (first : 10 ^ (k - 1) ≤ s) (small : s' < 10 ^ k') :
    (s' : ℚ) * 10 ^ p' ≤ 10 ^ (p + (k - 1)) ∧ (10 : ℚ) ^ (p + (k - 1)) ≤ s * 10 ^ p := by
  constructor
  · calc (s' : ℚ) * 10 ^ p' ≤ 10 ^ k' * 10 ^ p' :=
        mul_le_mul_of_nonneg_right (by exact_mod_cast small.le) (by positivity)
      _ = 10 ^ ((k' : Int) + p') := by rw [zpow_add₀ (by norm_num), zpow_natCast]
      _ ≤ 10 ^ (p + (k - 1)) := zpow_le_zpow_right₀ (by norm_num) (by omega)
  · have exponent : p + ((k : Int) - 1) = ((k - 1 : Nat) : Int) + p := by omega
    rw [exponent, zpow_add₀ (by norm_num), zpow_natCast]
    exact mul_le_mul_of_nonneg_right (by exact_mod_cast first) (by positivity)

/-- **The shortest decimal has the digits of the double**: it reads back, and nothing shorter
does. -/
theorem exists_hasDigits_shortest {d : Double} (finite : d.isFinite = true)
    (nonzero : d.isZero = false) (tie : TieRule) :
    ∃ s, (d.shortest tie).digits = Nat.toDigits 10 s ∧
      d.HasDigits s (d.shortest tie).digits.length ((d.shortest tie).exponent + 1) := by
  obtain ⟨inside, coarser⟩ := searchGrids_found finite nonzero tie
  unfold shortest
  generalize searchGrids tie d.interval d.exponent 22 d.decimalOrderBound = found at *
  obtain ⟨s, p⟩ := found
  dsimp only at inside coarser ⊢
  have positive : 0 < s := by
    have value := inside.pos (proper_interval nonzero) d.quarter_pos
    by_contra zero
    rw [Nat.eq_zero_of_not_pos zero] at value
    simp at value
  have digits := List.length_pos_of_ne_nil (Nat.toDigits_ne_nil : Nat.toDigits 10 s ≠ [])
  obtain ⟨least, most⟩ := length_toDigits_bounds positive
  generalize (Nat.toDigits 10 s).length = k at *
  have point : p + (k : Int) - 1 + 1 - k = p := by omega
  refine ⟨s, rfl, digits, least, most, ?_, fun s' k' n' nonempty small reads => ?_⟩
  · rw [point]
    exact (represents_signed_iff finite nonzero _).2 inside
  · -- a decimal of fewer digits would put a power of ten, which is coarser, into the interval
    have other := (represents_signed_iff finite nonzero _).1 reads
    by_contra fewer
    by_cases finer : n' - k' ≤ p
    · obtain ⟨above, below⟩ := below_first_digit (not_le.1 fewer) finer least small
      have power := other.between inside above below
      refine coarser (p + ((k : Int) - 1)) (by omega) 1 ?_
      rwa [Nat.cast_one, one_mul]
    · exact coarser (n' - k') (by omega) s' other

end Double
end EcmaScribe
