import Mathlib.Algebra.Order.Field.Power
import Mathlib.Tactic.FieldSimp
import Mathlib.Tactic.Linarith
import Mathlib.Tactic.Positivity
import Mathlib.Tactic.Ring

/-!
# The `f64` arithmetic of `format_coin`

`format_coin` converts two integers to `f64` with `as`, divides them and prints the quotient
with `{:.1$}`. The three are modelled on IEEE 754 binary64, on the values they meet there: a
conversion and a division round to the nearest `f64`, ties to even, and the formatting prints
the exact binary value rounded half to even to the requested decimals. Those values are
non-negative, at least `2^-64` when not zero and below `2^64`, so no subnormal or overflow
occurs; a division by zero gives infinity or NaN.

Every rounding is read as exact rational arithmetic: a rounded `f64` is within `2^-53` of the
exact value, relatively (`roundToF64_error`), and is that value when it fits a 53-bit mantissa
(`roundToF64_exact`).
-/

namespace Dapa.Common

/-! ### Rounding -/

def roundHalfEven (num den : Nat) : Nat :=
  let quotient := num / den
  if 2 * (num % den) < den then quotient
  else if den < 2 * (num % den) then quotient + 1
  else if quotient % 2 = 0 then quotient else quotient + 1

def shiftFraction (num den : Nat) : Int → Nat × Nat
  | .ofNat k => (num * 2 ^ k, den)
  | .negSucc k => (num, den * 2 ^ (k + 1))

def bitLengthFrom : Nat → Nat → Nat
  | 0, _ => 0
  | fuel + 1, n => if n = 0 then 0 else bitLengthFrom fuel (n / 2) + 1

def bitLength (n : Nat) : Nat := bitLengthFrom n n

/-- The exponent `top` with `2 ^ top ≤ num / den < 2 ^ (top + 1)`, for positive `num` and `den`. -/
def leadingExponent (num den : Nat) : Int :=
  let log : Int := (bitLength num : Int) - bitLength den
  let scaled := shiftFraction num den (-log)
  if scaled.2 ≤ scaled.1 then log else log - 1

/-- Modelled from IEEE 754 binary64, Rust's `f64`, on the values `format_coin` meets. -/
inductive F64 where
  | finite (mantissa : Nat) (exponent : Int) (bounded : mantissa < 2 ^ 53)
  | infinity
  | nan

/-- The `f64` nearest to `num / den * 2 ^ scale`, ties to even, for positive `den`. -/
def roundToF64 (num den : Nat) (scale : Int) : F64 :=
  if num = 0 then .finite 0 0 (by decide) else
  let top := leadingExponent num den
  let scaled := shiftFraction num den (52 - top)
  let mantissa := roundHalfEven scaled.1 scaled.2
  if bounded : mantissa < 2 ^ 53 then .finite mantissa (top - 52 + scale) bounded
  else .finite (2 ^ 52) (top - 52 + scale + 1) (by decide)

namespace F64

/-- `value as f64` for an unsigned integer. -/
def ofNat (value : Nat) : F64 := roundToF64 value 1 0

def div : F64 → F64 → F64
  | .finite m e _, .finite m' e' _ =>
    if m' = 0 then (if m = 0 then .nan else .infinity) else roundToF64 m m' (e - e')
  | .finite .., .infinity => .finite 0 0 (by decide)
  | .infinity, .finite .. => .infinity
  | _, _ => .nan

/-- `format!("{:.precision$}", x)` for a non-negative `f64`: its exact value rounded half to even. -/
def formatFixed (x : F64) (precision : Nat) : String :=
  match x with
  | .finite m e _ =>
    let exact := shiftFraction (m * 10 ^ precision) 1 e
    let scaled := roundHalfEven exact.1 exact.2
    let integer := Nat.toDigits 10 (scaled / 10 ^ precision)
    let fraction := Nat.toDigits 10 (scaled % 10 ^ precision)
    if precision = 0 then String.mk integer
    else String.mk (integer ++ '.' :: (List.replicate (precision - fraction.length) '0' ++ fraction))
  | .infinity => "inf"
  | .nan => "NaN"

end F64

/-! ### Binary digits -/

theorem bitLengthFrom_zero (fuel : Nat) : bitLengthFrom fuel 0 = 0 := by
  cases fuel <;> rfl

theorem bitLengthFrom_spec : ∀ (fuel n : Nat), 0 < n → n ≤ fuel →
    2 ^ (bitLengthFrom fuel n - 1) ≤ n ∧ n < 2 ^ bitLengthFrom fuel n ∧ 0 < bitLengthFrom fuel n
  | 0, n, positive, enough => by omega
  | fuel + 1, n, positive, enough => by
    simp only [bitLengthFrom, Nat.pos_iff_ne_zero.mp positive, if_false, Nat.add_sub_cancel]
    by_cases small : n / 2 = 0
    · rw [small, bitLengthFrom_zero]
      omega
    · obtain ⟨lower, upper, nonzero⟩ :=
        bitLengthFrom_spec fuel (n / 2) (Nat.pos_of_ne_zero small) (by omega)
      have double : 2 ^ bitLengthFrom fuel (n / 2) = 2 * 2 ^ (bitLengthFrom fuel (n / 2) - 1) := by
        rw [← pow_succ']
        congr 1
        omega
      rw [pow_succ]
      omega

theorem bitLength_spec {n : Nat} (positive : 0 < n) :
    2 ^ (bitLength n - 1) ≤ n ∧ n < 2 ^ bitLength n ∧ 0 < bitLength n :=
  bitLengthFrom_spec n n positive le_rfl

/-! ### Rounding half to even -/

theorem roundHalfEven_near (num : Nat) {den : Nat} (positive : 0 < den) :
    2 * num ≤ (2 * roundHalfEven num den + 1) * den ∧
      2 * roundHalfEven num den * den ≤ 2 * num + den := by
  have split := Nat.div_add_mod' num den
  have below := Nat.mod_lt num positive
  unfold roundHalfEven
  generalize num / den = quotient at *
  generalize num % den = remainder at *
  dsimp only
  split_ifs <;> simp only [Nat.add_mul, Nat.mul_assoc, Nat.one_mul] <;> omega

theorem roundHalfEven_eq_of_near {num den k : Nat} (above : 2 * num < (2 * k + 1) * den)
    (below : 2 * k * den < 2 * num + den) : roundHalfEven num den = k := by
  have positive : 0 < den := Nat.pos_of_ne_zero fun zero => by simp [zero] at above
  have split := Nat.div_add_mod' num den
  have remainder := Nat.mod_lt num positive
  unfold roundHalfEven
  generalize num / den = quotient at *
  generalize num % den = rest at *
  simp only [Nat.add_mul, Nat.mul_assoc, Nat.one_mul] at above below
  have notBelow : quotient ≤ k := by
    by_contra more
    have := Nat.mul_le_mul_right den (Nat.lt_of_not_le more)
    simp only [Nat.succ_mul] at this
    omega
  have notAbove : k ≤ quotient + 1 := by
    by_contra more
    have := Nat.mul_le_mul_right den (Nat.lt_of_not_le more)
    simp only [Nat.succ_mul, Nat.add_mul, Nat.one_mul] at this
    omega
  dsimp only
  rcases Nat.eq_or_lt_of_le notBelow with rfl | less
  · split_ifs <;> omega
  · obtain rfl : k = quotient + 1 := by omega
    simp only [Nat.add_mul, Nat.one_mul] at above below
    split_ifs <;> omega

theorem roundHalfEven_of_dvd {num den : Nat} (positive : 0 < den) (divides : den ∣ num) :
    roundHalfEven num den = num / den := by
  obtain ⟨k, rfl⟩ := divides
  rw [Nat.mul_div_cancel_left k positive]
  have same : den * k = k * den := Nat.mul_comm den k
  exact roundHalfEven_eq_of_near (by rw [same, Nat.add_mul, Nat.mul_assoc]; omega)
    (by rw [same, Nat.mul_assoc]; omega)

/-! ### Rounding to `f64`, read in `ℚ` -/

theorem shiftFraction_value (num den : Nat) (shift : Int) :
    ((shiftFraction num den shift).1 : ℚ) / (shiftFraction num den shift).2 = num / den * 2 ^ shift := by
  cases shift with
  | ofNat k => simp only [shiftFraction, Nat.cast_mul, Nat.cast_pow, Int.ofNat_eq_coe, zpow_natCast]; ring
  | negSucc k => simp only [shiftFraction, Nat.cast_mul, Nat.cast_pow, zpow_negSucc]; ring

theorem shiftFraction_pos (num : Nat) {den : Nat} (positive : 0 < den) (shift : Int) :
    0 < (shiftFraction num den shift).2 := by
  cases shift <;> simp only [shiftFraction] <;> positivity

theorem leadingExponent_spec {num den : Nat} (numPos : 0 < num) (denPos : 0 < den) :
    (2 : ℚ) ^ leadingExponent num den ≤ num / den ∧
      (num : ℚ) / den < 2 ^ (leadingExponent num den + 1) := by
  obtain ⟨numLow, numHigh, numBits⟩ := bitLength_spec numPos
  obtain ⟨denLow, denHigh, denBits⟩ := bitLength_spec denPos
  have numLow' : (2 : ℚ) ^ ((bitLength num : ℤ) - 1) ≤ num := by
    rw [← Nat.cast_one, ← Nat.cast_sub numBits, zpow_natCast]; exact_mod_cast numLow
  have denLow' : (2 : ℚ) ^ ((bitLength den : ℤ) - 1) ≤ den := by
    rw [← Nat.cast_one, ← Nat.cast_sub denBits, zpow_natCast]; exact_mod_cast denLow
  have numHigh' : (num : ℚ) < 2 ^ (bitLength num : ℤ) := by rw [zpow_natCast]; exact_mod_cast numHigh
  have denHigh' : (den : ℚ) < 2 ^ (bitLength den : ℤ) := by rw [zpow_natCast]; exact_mod_cast denHigh
  have denPos' : (0 : ℚ) < den := by exact_mod_cast denPos
  have upper : (num : ℚ) / den < 2 ^ ((bitLength num : ℤ) - bitLength den + 1) := by
    rw [div_lt_iff₀ denPos']
    calc (num : ℚ) < 2 ^ (bitLength num : ℤ) := numHigh'
      _ = 2 ^ ((bitLength num : ℤ) - bitLength den + 1) * 2 ^ ((bitLength den : ℤ) - 1) := by
        rw [← zpow_add₀ two_ne_zero]; ring_nf
      _ ≤ 2 ^ ((bitLength num : ℤ) - bitLength den + 1) * den :=
        mul_le_mul_of_nonneg_left denLow' (zpow_pos two_pos _).le
  have lower : 2 ^ ((bitLength num : ℤ) - bitLength den - 1) < (num : ℚ) / den := by
    rw [lt_div_iff₀ denPos']
    calc 2 ^ ((bitLength num : ℤ) - bitLength den - 1) * (den : ℚ)
        < 2 ^ ((bitLength num : ℤ) - bitLength den - 1) * 2 ^ (bitLength den : ℤ) :=
          mul_lt_mul_of_pos_left denHigh' (zpow_pos two_pos _)
      _ = 2 ^ ((bitLength num : ℤ) - 1) := by rw [← zpow_add₀ two_ne_zero]; ring_nf
      _ ≤ num := numLow'
  have scaled := shiftFraction_value num den (-((bitLength num : ℤ) - bitLength den))
  have scaledPos : (0 : ℚ) < (shiftFraction num den (-((bitLength num : ℤ) - bitLength den))).2 := by
    exact_mod_cast shiftFraction_pos num denPos _
  unfold leadingExponent
  dsimp only
  split_ifs with atLeast
  · have one : (1 : ℚ) ≤ num / den * 2 ^ (-((bitLength num : ℤ) - bitLength den)) := by
      rw [← scaled, le_div_iff₀ scaledPos, one_mul]; exact_mod_cast atLeast
    rw [zpow_neg, ← div_eq_mul_inv, le_div_iff₀ (by positivity), one_mul] at one
    exact ⟨one, upper⟩
  · have one : num / den * (2 : ℚ) ^ (-((bitLength num : ℤ) - bitLength den)) < 1 := by
      rw [← scaled, div_lt_iff₀ scaledPos, one_mul]; exact_mod_cast Nat.lt_of_not_le atLeast
    rw [zpow_neg, ← div_eq_mul_inv, div_lt_iff₀ (by positivity), one_mul] at one
    exact ⟨lower.le, by rwa [sub_add_cancel]⟩

theorem scaledMantissa_bounds {num den : Nat} (numPos : 0 < num) (denPos : 0 < den) :
    (2 : ℚ) ^ 52 * (shiftFraction num den (52 - leadingExponent num den)).2 ≤
        (shiftFraction num den (52 - leadingExponent num den)).1 ∧
      ((shiftFraction num den (52 - leadingExponent num den)).1 : ℚ) <
        2 ^ 53 * (shiftFraction num den (52 - leadingExponent num den)).2 := by
  obtain ⟨low, high⟩ := leadingExponent_spec numPos denPos
  have shifted := shiftFraction_value num den (52 - leadingExponent num den)
  have bPos : (0 : ℚ) < (shiftFraction num den (52 - leadingExponent num den)).2 := by
    exact_mod_cast shiftFraction_pos num denPos _
  generalize leadingExponent num den = top at *
  rw [← le_div_iff₀ bPos, ← div_lt_iff₀ bPos, shifted]
  constructor
  · calc (2 : ℚ) ^ 52 = 2 ^ top * 2 ^ (52 - top) := by
          rw [← zpow_add₀ two_ne_zero, add_sub_cancel]; exact (zpow_natCast 2 52).symm
      _ ≤ num / den * 2 ^ (52 - top) := mul_le_mul_of_nonneg_right low (zpow_pos two_pos _).le
  · calc (num : ℚ) / den * 2 ^ (52 - top) < 2 ^ (top + 1) * 2 ^ (52 - top) :=
          mul_lt_mul_of_pos_right high (zpow_pos two_pos _)
      _ = 2 ^ 53 := by rw [← zpow_add₀ two_ne_zero, show top + 1 + (52 - top) = (53 : ℤ) by ring]; exact zpow_natCast 2 53

theorem roundToF64_value {num den : Nat} (numPos : 0 < num) (denPos : 0 < den) (scale : Int) :
    ∃ m e bounded, roundToF64 num den scale = .finite m e bounded ∧
      (m : ℚ) * 2 ^ e = roundHalfEven (shiftFraction num den (52 - leadingExponent num den)).1
          (shiftFraction num den (52 - leadingExponent num den)).2 *
        2 ^ (leadingExponent num den - 52 + scale) := by
  obtain ⟨-, aHigh⟩ := scaledMantissa_bounds numPos denPos
  have scaledPos := shiftFraction_pos num denPos (52 - leadingExponent num den)
  unfold roundToF64
  rw [if_neg numPos.ne']
  dsimp only
  generalize leadingExponent num den = top at *
  generalize shiftFraction num den (52 - top) = scaled at *
  obtain ⟨a, b⟩ := scaled
  dsimp only at aHigh scaledPos ⊢
  have near := (roundHalfEven_near a scaledPos).2
  generalize roundHalfEven a b = mantissa at *
  split
  · next bounded => exact ⟨_, _, bounded, rfl, rfl⟩
  · next large =>
    have aHigh' : a < 2 ^ 53 * b := by exact_mod_cast aHigh
    have top53 : mantissa = 2 ^ 53 := by
      have : mantissa < 2 ^ 53 + 1 := by
        by_contra more
        have := Nat.mul_le_mul_right b (Nat.le_of_not_lt more)
        rw [Nat.mul_assoc] at near
        omega
      omega
    refine ⟨_, _, by decide, rfl, ?_⟩
    rw [top53, zpow_add_one₀ two_ne_zero]
    push_cast
    ring

theorem roundToF64_error (num : Nat) {den : Nat} (denPos : 0 < den) (scale : Int) :
    ∃ m e bounded, roundToF64 num den scale = .finite m e bounded ∧
      |(m : ℚ) * 2 ^ e - num / den * 2 ^ scale| ≤ num / den * 2 ^ scale / 2 ^ 53 := by
  rcases Nat.eq_zero_or_pos num with rfl | numPos
  · exact ⟨0, 0, by decide, by simp [roundToF64], by simp⟩
  obtain ⟨m, e, bounded, rounded, value⟩ := roundToF64_value numPos denPos scale
  refine ⟨m, e, bounded, rounded, ?_⟩
  obtain ⟨aLow, -⟩ := scaledMantissa_bounds numPos denPos
  have shifted := shiftFraction_value num den (52 - leadingExponent num den)
  have scaledPos := shiftFraction_pos num denPos (52 - leadingExponent num den)
  rw [value]
  generalize leadingExponent num den = top at *
  generalize shiftFraction num den (52 - top) = scaled at *
  obtain ⟨a, b⟩ := scaled
  dsimp only at *
  obtain ⟨near, near'⟩ := roundHalfEven_near a scaledPos
  generalize roundHalfEven a b = mantissa at *
  have bPos : (0 : ℚ) < b := by exact_mod_cast scaledPos
  have near₁ : 2 * (a : ℚ) ≤ (2 * mantissa + 1) * b := by exact_mod_cast near
  have near₂ : 2 * (mantissa : ℚ) * b ≤ 2 * a + b := by exact_mod_cast near'
  have exact : (num : ℚ) / den * 2 ^ scale = a / b * 2 ^ (top - 52 + scale) := by
    rw [shifted, mul_assoc, ← zpow_add₀ two_ne_zero]; ring_nf
  have half : |(mantissa : ℚ) - a / b| ≤ 1 / 2 := by
    rw [show (mantissa : ℚ) - a / b = (2 * mantissa * b - 2 * a) / (2 * b) by field_simp; ring,
      abs_div, abs_of_pos (by positivity : (0 : ℚ) < 2 * b), div_le_iff₀ (by positivity), abs_le]
    constructor <;> linarith
  have exactLow : (2 : ℚ) ^ 52 ≤ a / b := by rw [le_div_iff₀ bPos]; exact aLow
  rw [exact, ← sub_mul, abs_mul, abs_of_pos (zpow_pos (two_pos : (0 : ℚ) < 2) (top - 52 + scale))]
  calc |(mantissa : ℚ) - a / b| * 2 ^ (top - 52 + scale) ≤ 1 / 2 * 2 ^ (top - 52 + scale) :=
        mul_le_mul_of_nonneg_right half (zpow_pos two_pos _).le
    _ = 2 ^ 52 * 2 ^ (top - 52 + scale) / 2 ^ 53 := by ring
    _ ≤ a / b * 2 ^ (top - 52 + scale) / 2 ^ 53 :=
        div_le_div_of_nonneg_right (mul_le_mul_of_nonneg_right exactLow (zpow_pos two_pos _).le)
          (by positivity)

theorem roundToF64_exact (num : Nat) {den : Nat} (denPos : 0 < den) (scale : Int)
    (divides : (shiftFraction num den (52 - leadingExponent num den)).2 ∣
      (shiftFraction num den (52 - leadingExponent num den)).1) :
    ∃ m e bounded, roundToF64 num den scale = .finite m e bounded ∧
      (m : ℚ) * 2 ^ e = num / den * 2 ^ scale := by
  rcases Nat.eq_zero_or_pos num with rfl | numPos
  · exact ⟨0, 0, by decide, by simp [roundToF64], by simp⟩
  obtain ⟨m, e, bounded, rounded, value⟩ := roundToF64_value numPos denPos scale
  refine ⟨m, e, bounded, rounded, ?_⟩
  have shifted := shiftFraction_value num den (52 - leadingExponent num den)
  have scaledPos := shiftFraction_pos num denPos (52 - leadingExponent num den)
  rw [value, roundHalfEven_of_dvd scaledPos divides, Nat.cast_div divides (by exact_mod_cast scaledPos.ne'),
    shifted, mul_assoc, ← zpow_add₀ two_ne_zero]
  ring_nf

theorem roundHalfEven_eq_of_abs_lt {num den k : Nat} (positive : 0 < den)
    (near : |(num : ℚ) / den - k| < 1 / 2) : roundHalfEven num den = k := by
  have denPos : (0 : ℚ) < den := by exact_mod_cast positive
  obtain ⟨lower, upper⟩ := abs_lt.mp near
  have above : (num : ℚ) < (1 / 2 + k) * den := by rw [← div_lt_iff₀ denPos]; linarith
  have below : ((k : ℚ) - 1 / 2) * den < num := by rw [← lt_div_iff₀ denPos]; linarith
  exact roundHalfEven_eq_of_near (by exact_mod_cast (by linarith : (2 * num : ℚ) < (2 * k + 1) * den))
    (by exact_mod_cast (by linarith : (2 * k : ℚ) * den < 2 * num + den))

theorem leadingExponent_one {n : Nat} (positive : 0 < n) :
    leadingExponent n 1 = (bitLength n : ℤ) - 1 := by
  obtain ⟨low, -, bits⟩ := bitLength_spec positive
  obtain ⟨k, length⟩ : ∃ k, bitLength n = k + 1 := ⟨_, (Nat.succ_pred_eq_of_pos bits).symm⟩
  have atLeast : (shiftFraction n 1 (-((bitLength n : ℤ) - 1))).2 ≤
      (shiftFraction n 1 (-((bitLength n : ℤ) - 1))).1 := by
    rw [length] at low ⊢
    cases k with
    | zero => simpa [shiftFraction] using positive
    | succ k =>
      rw [show -(((k + 1 + 1 : ℕ) : ℤ) - 1) = Int.negSucc k by rw [Int.negSucc_eq]; push_cast; ring]
      simpa [shiftFraction] using low
  simp only [leadingExponent, show bitLength 1 = 1 from rfl, Nat.cast_one, atLeast, if_true]

namespace F64

theorem ofNat_exact {n : Nat} (fits : 2 ^ (bitLength n - 53) ∣ n) :
    ∃ m e bounded, ofNat n = .finite m e bounded ∧ (m : ℚ) * 2 ^ e = n := by
  rcases Nat.eq_zero_or_pos n with rfl | positive
  · exact ⟨0, 0, by decide, rfl, by simp⟩
  have exact := roundToF64_exact n one_pos 0 ?_
  · simpa [ofNat] using exact
  rw [leadingExponent_one positive]
  rcases Nat.lt_or_ge (bitLength n) 54 with small | large
  · rw [show (52 : ℤ) - ((bitLength n : ℤ) - 1) = Int.ofNat (53 - bitLength n) by
      rw [Int.ofNat_eq_coe]; omega]
    simp [shiftFraction]
  · rw [show (52 : ℤ) - ((bitLength n : ℤ) - 1) = Int.negSucc (bitLength n - 54) by
      rw [Int.negSucc_eq]; omega]
    simpa [shiftFraction, show bitLength n - 54 + 1 = bitLength n - 53 by omega] using fits

end F64

end Dapa.Common
