/-
# EcmaScribe.Proofs.Number.Rounding -- which numbers read back as a double

A reader of numbers takes the double that is nearest to what is written, the one with the even
significand when two are equally near.  `Represents` says so with no bound on the doubles that
it compares with: infinity is one of them, and stands where the next finite number would be.

The search for the shortest decimal knows none of this.  It looks into an interval around the
magnitude, measured in quarters of the last bit.  The doubles of one sign form a row in which
each magnitude is a unit more than the one before, and the unit grows with the exponent
(`magnitudeAt_succ`).  So only the two neighbours in the row matter, the interval runs from
middle to middle, and it is shorter below a power of two (`low_interval`).
`represents_signed_iff` is the outcome: what reads back as a double is what lies in its interval.
-/
import EcmaScribe.Number.Shortest
import Mathlib.Algebra.Order.Field.Power
import Mathlib.Algebra.Order.Ring.Abs
import Mathlib.Data.Rat.Cast.Order
import Mathlib.Tactic.Linarith
import Mathlib.Tactic.Positivity
import Mathlib.Tactic.Ring
import Mathlib.Tactic.NormNum

namespace EcmaScribe

set_option autoImplicit false

namespace Double

/-! ## Magnitudes in a row -/

/-- The place of a double among those of its sign: its bits without the sign. -/
def rank (d : Double) : Nat := d.bits.toNat % signBit

/-- The weight of the last bit of the significand at a place. -/
def unitAt (r : Nat) : ℚ := 2 ^ ((max (r / unitBit) 1 : Nat) - 1075 : Int)

/-- The magnitude at a place. -/
def magnitudeAt (r : Nat) : ℚ :=
  (if r / unitBit = 0 then r % unitBit else unitBit + r % unitBit : Nat) * unitAt r

theorem unitAt_pos (r : Nat) : 0 < unitAt r := by
  unfold unitAt
  positivity

/-- One place further is one unit more. -/
theorem magnitudeAt_succ (r : Nat) : magnitudeAt (r + 1) = magnitudeAt r + unitAt r := by
  have unit : unitBit = 4503599627370496 := rfl
  unfold magnitudeAt unitAt
  rw [unit]
  by_cases carry : r % 4503599627370496 + 1 < 4503599627370496
  · have quotient : (r + 1) / 4503599627370496 = r / 4503599627370496 := by omega
    have remainder : (r + 1) % 4503599627370496 = r % 4503599627370496 + 1 := by omega
    rw [quotient, remainder]
    split <;> push_cast <;> ring
  · have quotient : (r + 1) / 4503599627370496 = r / 4503599627370496 + 1 := by omega
    have remainder : (r + 1) % 4503599627370496 = 0 := by omega
    have full : r % 4503599627370496 = 4503599627370495 := by omega
    rw [quotient, remainder, full]
    generalize r / 4503599627370496 = e
    cases e with
    | zero =>
        simp only [Nat.zero_add, Nat.zero_max, max_self, one_ne_zero, if_false, if_true]
        generalize (2 : ℚ) ^ (((1 : Nat) : Int) - 1075) = unit
        push_cast
        ring
    | succ n =>
        have low : max (n + 1) 1 = n + 1 := by omega
        have high : max (n + 1 + 1) 1 = n + 1 + 1 := by omega
        have next : ((n + 1 + 1 : Nat) : Int) - 1075 = ((n + 1 : Nat) : Int) - 1075 + 1 := by omega
        rw [low, high, next, zpow_add_one₀ two_ne_zero, if_neg (by omega), if_neg (by omega)]
        push_cast
        ring

theorem strictMono_magnitudeAt : StrictMono magnitudeAt := by
  refine strictMono_nat_of_lt_succ fun r => ?_
  rw [magnitudeAt_succ]
  linarith [unitAt_pos r]

theorem magnitudeAt_nonneg (r : Nat) : 0 ≤ magnitudeAt r := by
  have unit := unitAt_pos r
  unfold magnitudeAt
  positivity

/-! ## The value of a double -/

def magnitude (d : Double) : ℚ := d.significand * 2 ^ d.exponent

/-- A number with the sign of a double. -/
def signed (d : Double) (x : ℚ) : ℚ := if d.isNegative then -x else x

/-- The value of a double.  Infinity has the value of the finite number that would come next. -/
def value (d : Double) : ℚ := d.signed d.magnitude

theorem biasedExponent_eq (d : Double) : d.biasedExponent = d.rank / unitBit := by
  show d.bits.toNat / 4503599627370496 % 2048 =
    d.bits.toNat % 9223372036854775808 / 4503599627370496
  omega

theorem fraction_eq (d : Double) : d.fraction = d.rank % unitBit := by
  show d.bits.toNat % 4503599627370496 = d.bits.toNat % 9223372036854775808 % 4503599627370496
  omega

theorem unitAt_rank (d : Double) : unitAt d.rank = 2 ^ d.exponent := by
  rw [unitAt, exponent, biasedExponent_eq]

theorem magnitude_eq (d : Double) : d.magnitude = magnitudeAt d.rank := by
  rw [magnitude, magnitudeAt, unitAt_rank, significand, biasedExponent_eq, fraction_eq]

theorem abs_signed (d : Double) (x : ℚ) : |d.signed x| = |x| := by
  unfold signed
  split
  · exact abs_neg x
  · rfl

theorem abs_signed_sub (d : Double) (x y : ℚ) : |d.signed x - d.signed y| = |x - y| := by
  unfold signed
  split
  · rw [neg_sub_neg, abs_sub_comm]
  · rfl

theorem rank_lt_of_isFinite {d : Double} (finite : d.isFinite = true) :
    d.rank < infinityMagnitude := by
  have exponent : d.rank / unitBit ≠ 2047 := by
    simpa [isFinite, biasedExponent_eq] using finite
  have bound : d.rank < signBit := Nat.mod_lt _ (by decide)
  show d.rank < 9218868437227405312
  change d.rank / 4503599627370496 ≠ 2047 at exponent
  change d.rank < 9223372036854775808 at bound
  omega

/-- A double of every sign and place up to infinity. -/
theorem ofMagnitude_facts (negative : Bool) {r : Nat} (small : r ≤ infinityMagnitude) :
    (ofMagnitude negative r).rank = r ∧ (ofMagnitude negative r).isNegative = negative ∧
      (ofMagnitude negative r).isNaN = false := by
  change r ≤ 9218868437227405312 at small
  have bits : (ofMagnitude negative r).bits.toNat =
      r + if negative then 9223372036854775808 else 0 := by
    show (UInt64.ofNat (r + if negative then 9223372036854775808 else 0)).toNat = _
    rw [UInt64.toNat_ofNat']
    cases negative <;> simp <;> omega
  have rank : (ofMagnitude negative r).rank = r := by
    show (ofMagnitude negative r).bits.toNat % 9223372036854775808 = r
    rw [bits]
    cases negative <;> simp <;> omega
  refine ⟨rank, ?_, ?_⟩
  · show decide (9223372036854775808 ≤ (ofMagnitude negative r).bits.toNat) = negative
    rw [bits]
    cases negative <;> simp
    omega
  · rw [isNaN, biasedExponent_eq, fraction_eq, rank]
    show (r / 4503599627370496 == 2047 && r % 4503599627370496 != 0) = false
    by_cases last : r = 9218868437227405312
    · subst last
      decide
    · have other : r / 4503599627370496 ≠ 2047 := by omega
      simp [other]

/-! ## Rounding -/

/-- **The double that stands for a rational number**: none is nearer to it, and of two that are
equally near it is the one with the even significand.  The number after the largest finite one
takes part, so what is nearer to that one has no finite double. -/
structure Represents (d : Double) (x : ℚ) : Prop where
  finite : d.isFinite = true
  nearest : ∀ e : Double, e.isNaN = false → |x - d.value| ≤ |x - e.value|
  even : ∀ e : Double, e.isNaN = false → |x - e.value| = |x - d.value| →
    e.value = d.value ∨ d.significand % 2 = 0

namespace Interval

/-- The number lies in the interval, its ends measured in the given unit. -/
def Holds (i : Interval) (unit x : ℚ) : Prop :=
  if i.closed then i.low * unit ≤ x ∧ x ≤ i.high * unit else i.low * unit < x ∧ x < i.high * unit

end Interval

variable {d : Double}

/-- A quarter of the unit of a double. -/
def quarter (d : Double) : ℚ := 2 ^ (d.exponent - 2)

theorem quarter_eq (d : Double) : d.quarter = unitAt d.rank / 4 := by
  rw [quarter, unitAt_rank, zpow_sub₀ two_ne_zero]
  norm_num

theorem quarter_pos (d : Double) : 0 < d.quarter := by
  unfold quarter
  positivity

theorem middle_interval (d : Double) : d.interval.middle * d.quarter = magnitudeAt d.rank := by
  show ((4 * d.significand : Nat) : ℚ) * d.quarter = _
  rw [quarter_eq, ← magnitude_eq, magnitude, ← unitAt_rank]
  push_cast
  ring

/-- The interval ends half-way to the next magnitude. -/
theorem high_interval (d : Double) :
    d.interval.high * d.quarter = (magnitudeAt d.rank + magnitudeAt (d.rank + 1)) / 2 := by
  have middle := middle_interval d
  have high : d.interval.high = d.interval.middle + 2 := rfl
  rw [magnitudeAt_succ, ← middle, high, quarter_eq]
  push_cast
  ring

theorem rank_pos_of_not_isZero (nonzero : d.isZero = false) : 0 < d.rank := by
  rw [isZero, biasedExponent_eq, fraction_eq] at nonzero
  rcases Nat.eq_zero_or_pos d.rank with zero | positive
  · rw [zero] at nonzero
    cases nonzero
  · exact positive

/-- Below the places where the exponent grows, the unit is half as large. -/
theorem unitAt_pred {r : Nat} (positive : 0 < r) :
    unitAt (r - 1) = if r % unitBit = 0 ∧ 1 < r / unitBit then unitAt r / 2 else unitAt r := by
  unfold unitAt
  show (2 : ℚ) ^ ((max ((r - 1) / 4503599627370496) 1 : Nat) - 1075 : Int) =
    if r % 4503599627370496 = 0 ∧ 1 < r / 4503599627370496 then
      2 ^ ((max (r / 4503599627370496) 1 : Nat) - 1075 : Int) / 2
    else 2 ^ ((max (r / 4503599627370496) 1 : Nat) - 1075 : Int)
  split
  · have grown : ((max (r / 4503599627370496) 1 : Nat) - 1075 : Int) =
        ((max ((r - 1) / 4503599627370496) 1 : Nat) - 1075 : Int) + 1 := by omega
    rw [grown, zpow_add_one₀ two_ne_zero, mul_div_cancel_right₀ _ two_ne_zero]
  · have same : max ((r - 1) / 4503599627370496) 1 = max (r / 4503599627370496) 1 := by omega
    rw [same]

theorem significand_pos (positive : 0 < d.rank) : 0 < d.significand := by
  rw [significand, biasedExponent_eq, fraction_eq]
  show 0 < if d.rank / 4503599627370496 = 0 then d.rank % 4503599627370496
    else 4503599627370496 + d.rank % 4503599627370496
  split
  · omega
  · omega

/-- The interval starts half-way from the magnitude before. -/
theorem low_interval (positive : 0 < d.rank) :
    d.interval.low * d.quarter = (magnitudeAt (d.rank - 1) + magnitudeAt d.rank) / 2 := by
  have before : magnitudeAt d.rank = magnitudeAt (d.rank - 1) + unitAt (d.rank - 1) := by
    rw [← magnitudeAt_succ, Nat.sub_add_cancel positive]
  have middle : ((4 * d.significand : Nat) : ℚ) * d.quarter = magnitudeAt d.rank :=
    middle_interval d
  have someUnits := significand_pos positive
  have low : d.interval.low = 4 * d.significand -
      if d.rank % unitBit = 0 ∧ 1 < d.rank / unitBit then 1 else 2 := by
    rw [← fraction_eq, ← biasedExponent_eq]
    rfl
  have unit := unitAt_pred positive
  have quarters : unitAt d.rank = 4 * d.quarter := by
    rw [quarter_eq]
    ring
  rw [low]
  split at unit
  · rename_i grows
    rw [if_pos grows, Nat.cast_sub (by omega)]
    linarith
  · rename_i same
    rw [if_neg same, Nat.cast_sub (by omega)]
    linarith

/-! ## The interval of a double -/

/-- What is not beyond the middle between two numbers is no nearer to a number beyond the second
than to the first, and as near only from the middle. -/
theorem nearer_below_middle {a b c x : ℚ} (order : a < b) (beyond : b ≤ c)
    (below : x ≤ (a + b) / 2) : |x - a| ≤ |x - c| ∧ (|x - c| = |x - a| → x = (a + b) / 2) := by
  have distance : |x - c| = c - x := by
    rw [abs_sub_comm, abs_of_nonneg]
    linarith
  rw [distance]
  constructor
  · rw [abs_le]
    constructor <;> linarith
  · intro tie
    rcases abs_cases (x - a) with ⟨same, -⟩ | ⟨same, -⟩
    · linarith
    · linarith

theorem nearer_above_middle {a b c x : ℚ} (order : a < b) (beyond : c ≤ a)
    (above : (a + b) / 2 ≤ x) : |x - b| ≤ |x - c| ∧ (|x - c| = |x - b| → x = (a + b) / 2) := by
  have mirrored := nearer_below_middle (neg_lt_neg order) (neg_le_neg beyond)
    (x := -x) (by linarith)
  rw [neg_sub_neg, neg_sub_neg, abs_sub_comm b x, abs_sub_comm c x] at mirrored
  refine ⟨mirrored.1, fun tie => ?_⟩
  have middle := mirrored.2 tie
  linarith

theorem holds_iff (d : Double) (x : ℚ) : d.interval.Holds d.quarter x ↔
    d.interval.low * d.quarter ≤ x ∧ x ≤ d.interval.high * d.quarter ∧
      (x = d.interval.low * d.quarter ∨ x = d.interval.high * d.quarter →
        d.significand % 2 = 0) := by
  unfold Interval.Holds
  have closed : d.interval.closed = true ↔ d.significand % 2 = 0 := by
    show (d.significand % 2 == 0) = true ↔ _
    rw [beq_iff_eq]
  split
  · rename_i even
    have parity := closed.1 even
    tauto
  · rename_i odd
    have parity : ¬ d.significand % 2 = 0 := fun even => odd (closed.2 even)
    constructor
    · rintro ⟨above, below⟩
      refine ⟨above.le, below.le, fun ends => ?_⟩
      rcases ends with rfl | rfl
      · exact absurd above (lt_irrefl _)
      · exact absurd below (lt_irrefl _)
    · rintro ⟨above, below, ends⟩
      exact ⟨lt_of_le_of_ne above fun same => parity (ends (.inl same.symm)),
        lt_of_le_of_ne below fun same => parity (ends (.inr same))⟩

/-- **No magnitude is nearer** to a number in the interval, and one that is as near is met at an
end. -/
theorem nearest_magnitude (positive : 0 < d.rank) {x : ℚ} (inside : d.interval.Holds d.quarter x)
    (r : Nat) : |x - magnitudeAt d.rank| ≤ |x - magnitudeAt r| ∧
      (|x - magnitudeAt r| = |x - magnitudeAt d.rank| → r = d.rank ∨ d.significand % 2 = 0) := by
  obtain ⟨above, below, ends⟩ := (holds_iff d x).1 inside
  rw [low_interval positive] at above ends
  rw [high_interval d] at below ends
  rcases Nat.lt_trichotomy r d.rank with less | rfl | more
  · have order : magnitudeAt (d.rank - 1) < magnitudeAt d.rank :=
      strictMono_magnitudeAt (by omega)
    have beyond : magnitudeAt r ≤ magnitudeAt (d.rank - 1) :=
      strictMono_magnitudeAt.monotone (by omega)
    obtain ⟨nearer, tie⟩ := nearer_above_middle order beyond above
    exact ⟨nearer, fun same => .inr (ends (.inl (tie same)))⟩
  · exact ⟨le_refl _, fun _ => .inl rfl⟩
  · have order : magnitudeAt d.rank < magnitudeAt (d.rank + 1) :=
      strictMono_magnitudeAt (by omega)
    have beyond : magnitudeAt (d.rank + 1) ≤ magnitudeAt r :=
      strictMono_magnitudeAt.monotone (by omega)
    obtain ⟨nearer, tie⟩ := nearer_below_middle order beyond below
    exact ⟨nearer, fun same => .inr (ends (.inr (tie same)))⟩

theorem le_middle_of_nearer {a b x : ℚ} (order : a < b) (nearer : |x - a| ≤ |x - b|) :
    x ≤ (a + b) / 2 := by
  by_contra above
  have distance : |x - b| < |x - a| := by
    rw [abs_of_pos (show 0 < x - a by linarith), abs_lt]
    constructor <;> linarith
  exact absurd nearer (not_le.2 distance)

theorem middle_le_of_nearer {a b x : ℚ} (order : a < b) (nearer : |x - b| ≤ |x - a|) :
    (a + b) / 2 ≤ x := by
  have mirrored := le_middle_of_nearer (neg_lt_neg order) (x := -x)
    (by rwa [neg_sub_neg, neg_sub_neg, abs_sub_comm b x, abs_sub_comm a x])
  linarith

theorem abs_sub_middle (a b : ℚ) : |(a + b) / 2 - a| = |(a + b) / 2 - b| := by
  rw [abs_sub_comm _ b]
  congr 1
  ring

/-- The double of a place has the value of its magnitude, with the sign. -/
theorem value_ofMagnitude {r : Nat} (small : r ≤ infinityMagnitude) :
    (ofMagnitude d.isNegative r).value = d.signed (magnitudeAt r) := by
  obtain ⟨rank, sign, -⟩ := ofMagnitude_facts d.isNegative small
  rw [value, signed, signed, sign, magnitude_eq, rank]

theorem value_eq (d : Double) : d.value = d.signed (magnitudeAt d.rank) := by
  rw [value, magnitude_eq]

/-- A number with the other sign. -/
theorem signed_of_ne {e : Double} (sign : e.isNegative ≠ d.isNegative) (x : ℚ) :
    e.signed x = d.signed (-x) := by
  unfold signed
  cases own : e.isNegative <;> cases other : d.isNegative <;> simp_all

theorem signed_injective {x y : ℚ} (same : d.signed x = d.signed y) : x = y := by
  unfold signed at same
  split at same
  · exact neg_injective same
  · exact same

/-- The neighbours of a double keep what it stands for within its interval. -/
theorem holds_of_represents (nonzero : d.isZero = false) {x : ℚ}
    (represents : d.Represents (d.signed x)) : d.interval.Holds d.quarter x := by
  have positive := rank_pos_of_not_isZero nonzero
  have bound := rank_lt_of_isFinite represents.finite
  have nearest {r : Nat} (small : r ≤ infinityMagnitude) :
      |x - magnitudeAt d.rank| ≤ |x - magnitudeAt r| := by
    have other := represents.nearest _ (ofMagnitude_facts d.isNegative small).2.2
    rwa [value_ofMagnitude small, value_eq, abs_signed_sub, abs_signed_sub] at other
  have even {r : Nat} (small : r ≤ infinityMagnitude) (differs : r ≠ d.rank)
      (tie : |x - magnitudeAt r| = |x - magnitudeAt d.rank|) : d.significand % 2 = 0 := by
    have other := represents.even _ (ofMagnitude_facts d.isNegative small).2.2
    rw [value_ofMagnitude small, value_eq, abs_signed_sub, abs_signed_sub] at other
    refine (other tie).resolve_left fun same => differs ?_
    exact strictMono_magnitudeAt.injective (signed_injective same)
  have order : magnitudeAt (d.rank - 1) < magnitudeAt d.rank := strictMono_magnitudeAt (by omega)
  have order' : magnitudeAt d.rank < magnitudeAt (d.rank + 1) := strictMono_magnitudeAt (by omega)
  rw [holds_iff, low_interval positive, high_interval d]
  refine ⟨middle_le_of_nearer order (nearest (by omega)), le_middle_of_nearer order'
    (nearest bound), fun ends => ?_⟩
  rcases ends with rfl | rfl
  · exact even (r := d.rank - 1) (by omega) (by omega) (abs_sub_middle _ _)
  · exact even (r := d.rank + 1) bound (by omega) (abs_sub_middle _ _).symm

/-- No double is nearer to a number in the interval. -/
theorem represents_of_holds (finite : d.isFinite = true) (nonzero : d.isZero = false) {x : ℚ}
    (inside : d.interval.Holds d.quarter x) : d.Represents (d.signed x) := by
  have positive := rank_pos_of_not_isZero nonzero
  have order : magnitudeAt (d.rank - 1) < magnitudeAt d.rank := strictMono_magnitudeAt (by omega)
  have above := ((holds_iff d x).1 inside).1
  rw [low_interval positive] at above
  have lower := magnitudeAt_nonneg (d.rank - 1)
  have xPositive : 0 < x := by linarith
  have own : |d.signed x - d.value| = |x - magnitudeAt d.rank| := by
    rw [value_eq, abs_signed_sub]
  -- signs apart, a double is no farther away than its magnitude
  have apart (e : Double) : |x - magnitudeAt e.rank| ≤ |d.signed x - e.value| := by
    have reverse := abs_abs_sub_abs_le (d.signed x) e.value
    rwa [abs_signed, value_eq e, abs_signed, abs_of_pos xPositive,
      abs_of_nonneg (magnitudeAt_nonneg e.rank), ← value_eq e] at reverse
  refine ⟨finite, fun e _ => ?_, fun e _ tie => ?_⟩
  · rw [own]
    exact (nearest_magnitude positive inside e.rank).1.trans (apart e)
  · rw [own] at tie
    obtain ⟨nearer, even⟩ := nearest_magnitude positive inside e.rank
    have same : |x - magnitudeAt e.rank| = |x - magnitudeAt d.rank| :=
      le_antisymm (tie ▸ apart e) nearer
    refine (even same).imp_left fun rank => ?_
    by_cases sign : e.isNegative = d.isNegative
    · rw [value_eq e, value_eq d, rank, signed, signed, sign]
    · -- across zero the same magnitude is farther away
      have across : |d.signed x - e.value| = x + magnitudeAt d.rank := by
        rw [value_eq e, signed_of_ne sign, abs_signed_sub, rank, sub_neg_eq_add]
        exact abs_of_pos (by linarith)
      have far : |x - magnitudeAt d.rank| < x + magnitudeAt d.rank := by
        rw [abs_lt]
        constructor <;> linarith
      exact absurd (across.symm.trans tie) far.ne'

/-- Zero reads back as a zero. -/
theorem represents_zero (zero : d.isZero = true) : d.Represents (d.signed 0) := by
  have shape : d.biasedExponent = 0 ∧ d.fraction = 0 := by
    simpa only [isZero, Bool.and_eq_true, beq_iff_eq] using zero
  have significand : d.significand = 0 := by rw [significand, if_pos shape.1, shape.2]
  have value : d.value = d.signed 0 := by
    rw [value, magnitude, significand, Nat.cast_zero, zero_mul]
  refine ⟨by rw [isFinite, shape.1]; rfl, fun e _ => ?_, fun e _ _ => .inr (by rw [significand])⟩
  rw [value, sub_self, abs_zero]
  exact abs_nonneg _

/-- **What reads back as a double** are the numbers of its sign in its interval. -/
theorem represents_signed_iff (finite : d.isFinite = true) (nonzero : d.isZero = false) (x : ℚ) :
    d.Represents (d.signed x) ↔ d.interval.Holds d.quarter x :=
  ⟨holds_of_represents nonzero, represents_of_holds finite nonzero⟩

end Double
end EcmaScribe
