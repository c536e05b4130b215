import Mathlib.Data.List.Basic
import Mathlib.Algebra.Group.Nat.Basic

/-!
# Coin amounts and difficulties as text

`from_coin` reads a coin amount written with a decimal point into atomic units: it trims the
text, splits it at `.`, parses the integer part with `u64::from_str`, pads or cuts the
fractional part to the coin's decimals, and combines both with `u64` arithmetic.
`format_difficulty` divides a difficulty by `1000` while it can, at most six times, and prints
the quotient, the first digits of the last remainder, and the unit.
-/

namespace Dapa.Common

/-! ### `from_coin` -/

/-- `char::is_whitespace`: the characters with the Unicode property `White_Space`. -/
def isWhitespace (c : Char) : Bool :=
  let code := c.toNat
  (0x9 ≤ code && code ≤ 0xD) || code == 0x20 || code == 0x85 || code == 0xA0 || code == 0x1680 ||
    (0x2000 ≤ code && code ≤ 0x200A) || code == 0x2028 || code == 0x2029 || code == 0x202F ||
    code == 0x205F || code == 0x3000

def trim (text : List Char) : List Char :=
  ((text.dropWhile isWhitespace).reverse.dropWhile isWhitespace).reverse

def accumulateDigits (digits : List Char) : Option Nat :=
  digits.foldlM (fun value c =>
    if c.isDigit then
      let next := value * 10 + (c.toNat - '0'.toNat)
      if next < 2 ^ 64 then some next else none
    else none) 0

/-- `u64::from_str`: an optional `+` and at least one ASCII digit, below `2^64`. -/
def parseU64 (text : List Char) : Option UInt64 :=
  (match text with
    | [] | ['+'] | ['-'] => none
    | '+' :: digits => accumulateDigits digits
    | digits => accumulateDigits digits).map UInt64.ofNat

/-- `from_coin`; the products and the sum are `u64` arithmetic, which wraps in a release build. -/
def fromCoin (value : String) (coinDecimals : UInt8) : Option UInt64 := do
  let split := (trim value.toList).splitOn '.'
  let integer ← parseU64 (← split.head?)
  if coinDecimals > 0 then
    let rightPart := split[1]?.getD ['0']
    let decimals := (rightPart ++ List.replicate coinDecimals.toNat '0').take coinDecimals.toNat
    let decimalsValue ← parseU64 decimals
    pure (UInt64.ofNat (integer.toNat * 10 ^ coinDecimals.toNat + decimalsValue.toNat))
  else
    if split[1]?.isSome then none else pure integer

/-- `from_coin` cuts a long fraction, reads a `+` after the point, and wraps past `u64::MAX`. -/
theorem from_coin_accepts_malformed :
    fromCoin "0.123" 2 = some 12 ∧ fromCoin "1.+5" 2 = some 105 ∧
      fromCoin "184467440738" 8 = some 90448384 := by
  decide

/-! ### `from_coin` on well-formed amounts

On text of the form `I` or `I.F`, with `I` a non-empty run of ASCII digits and `F` at most
`coin_decimals` of them, and an exact value below `2^64`, `from_coin` returns that value: the
defects above lie outside this domain. -/

def digitsFrom (start : Nat) (digits : List Char) : Nat :=
  digits.foldl (fun value c => value * 10 + (c.toNat - '0'.toNat)) start

def digitsValue (digits : List Char) : Nat := digitsFrom 0 digits

theorem digit_bounds {c : Char} (digit : c.isDigit = true) : 48 ≤ c.toNat ∧ c.toNat ≤ 57 := by
  simp only [Char.isDigit, Bool.and_eq_true, decide_eq_true_eq] at digit
  exact digit

theorem isWhitespace_of_isDigit {c : Char} (digit : c.isDigit = true) : isWhitespace c = false := by
  have := digit_bounds digit
  simp [isWhitespace]
  omega

theorem le_digitsFrom (start : Nat) (digits : List Char) : start ≤ digitsFrom start digits := by
  induction digits generalizing start with
  | nil => exact le_rfl
  | cons c rest ih => exact (Nat.le_mul_of_pos_right start (by omega)).trans ((Nat.le_add_right _ _).trans (ih _))

theorem digitsFrom_append (start : Nat) (first second : List Char) :
    digitsFrom start (first ++ second) = digitsFrom (digitsFrom start first) second := by
  simp [digitsFrom, List.foldl_append]

theorem digitsFrom_zeros (start count : Nat) :
    digitsFrom start (List.replicate count '0') = start * 10 ^ count := by
  induction count generalizing start with
  | zero => simp [digitsFrom]
  | succ count ih =>
    rw [List.replicate_succ, show digitsFrom start ('0' :: List.replicate count '0') =
      digitsFrom (start * 10) (List.replicate count '0') by simp [digitsFrom], ih, pow_succ,
      Nat.mul_assoc, Nat.mul_comm 10]

theorem accumulateDigits_eq {digits : List Char} (allDigits : ∀ c ∈ digits, c.isDigit = true)
    (fits : digitsValue digits < 2 ^ 64) : accumulateDigits digits = some (digitsValue digits) := by
  unfold accumulateDigits digitsValue at *
  generalize 0 = start at *
  induction digits generalizing start with
  | nil => rfl
  | cons c rest ih =>
    have bound : start * 10 + (c.toNat - '0'.toNat) < 2 ^ 64 :=
      (le_digitsFrom _ rest).trans_lt fits
    simp only [List.foldlM_cons, allDigits c (List.mem_cons_self _ _), if_true, bound, Option.some_bind]
    exact ih (fun c member => allDigits c (List.mem_cons_of_mem _ member)) _ fits

theorem parseU64_eq (digits : List Char) (nonempty : digits ≠ []) (allDigits : ∀ c ∈ digits, c.isDigit = true)
    (fits : digitsValue digits < 2 ^ 64) : parseU64 digits = some (UInt64.ofNat (digitsValue digits)) := by
  obtain ⟨c, rest, rfl⟩ := List.exists_cons_of_ne_nil nonempty
  have bounds := digit_bounds (allDigits c (List.mem_cons_self _ _))
  have plus : c ≠ '+' := fun same => by subst same; simp at bounds
  have minus : c ≠ '-' := fun same => by subst same; simp at bounds
  have read := accumulateDigits_eq allDigits fits
  cases rest <;> simp [parseU64, plus, minus, read]

theorem toNat_ofNat_of_lt {n : Nat} (fits : n < 2 ^ 64) : (UInt64.ofNat n).toNat = n := by
  simp only [UInt64.toNat, UInt64.ofNat, Fin.ofNat]
  exact Nat.mod_eq_of_lt fits

theorem trim_of_no_whitespace {text : List Char} (clean : ∀ c ∈ text, isWhitespace c = false) :
    trim text = text := by
  have keep : ∀ chars : List Char, (∀ c ∈ chars, isWhitespace c = false) →
      chars.dropWhile isWhitespace = chars := by
    intro chars clean
    cases chars with
    | nil => rfl
    | cons c rest => simp [List.dropWhile_cons, clean c (List.mem_cons_self _ _)]
  simp [trim, keep text clean, keep text.reverse (by simpa using clean)]

theorem ne_point_of_isDigit {c : Char} (digit : c.isDigit = true) : (c == '.') = false := by
  have := digit_bounds digit
  exact beq_false_of_ne fun same => by subst same; simp at this

theorem trim_of_digits_or_point {text : List Char} (chars : ∀ c ∈ text, c.isDigit = true ∨ c = '.') :
    trim text = text :=
  trim_of_no_whitespace fun c member => by
    rcases chars c member with digit | rfl
    · exact isWhitespace_of_isDigit digit
    · rfl

theorem splitOn_point_of_digits {digits : List Char} (allDigits : ∀ c ∈ digits, c.isDigit = true) :
    digits.splitOn '.' = [digits] :=
  List.splitOnP_eq_single _ _ fun c member => by simp [ne_point_of_isDigit (allDigits c member)]

theorem parseU64_zeros {count : Nat} (positive : 0 < count) :
    parseU64 (List.replicate count '0') = some (UInt64.ofNat 0) := by
  have read := parseU64_eq (List.replicate count '0') (by simp; omega) (by simp)
    (by simp [digitsValue, digitsFrom_zeros])
  simpa [digitsValue, digitsFrom_zeros] using read

theorem lt_of_scaled_lt {value scale extra : Nat} (fits : value * 10 ^ scale + extra < 2 ^ 64) :
    value < 2 ^ 64 :=
  ((Nat.le_mul_of_pos_right _ (Nat.pos_pow_of_pos _ (by decide))).trans (Nat.le_add_right _ extra)).trans_lt fits

theorem fromCoin_digits (integer : List Char) (coinDecimals : UInt8) (nonempty : integer ≠ [])
    (integerDigits : ∀ c ∈ integer, c.isDigit = true)
    (fits : digitsValue integer * 10 ^ coinDecimals.toNat < 2 ^ 64) :
    (fromCoin (String.mk integer) coinDecimals).map UInt64.toNat =
      some (digitsValue integer * 10 ^ coinDecimals.toNat) := by
  have small : digitsValue integer < 2 ^ 64 :=
    lt_of_scaled_lt (show digitsValue integer * 10 ^ coinDecimals.toNat + 0 < 2 ^ 64 from fits)
  have readInteger := parseU64_eq integer nonempty integerDigits small
  have text := trim_of_digits_or_point fun c member => .inl (integerDigits c member)
  by_cases positive : coinDecimals > 0
  · have padded : ('0' :: List.replicate coinDecimals.toNat '0').take coinDecimals.toNat =
        List.replicate coinDecimals.toNat '0' := by
      rw [← List.replicate_succ, List.take_replicate]
      simp
    simp [fromCoin, text, splitOn_point_of_digits integerDigits, readInteger, positive, padded,
      parseU64_zeros (show 0 < coinDecimals.toNat from positive), toNat_ofNat_of_lt small, toNat_ofNat_of_lt fits]
  · have zero : coinDecimals.toNat = 0 := by
      change ¬ 0 < coinDecimals.toNat at positive
      omega
    simp [fromCoin, text, splitOn_point_of_digits integerDigits, readInteger, positive, zero,
      toNat_ofNat_of_lt small]

theorem fromCoin_digits_point_digits (integer fraction : List Char) (coinDecimals : UInt8)
    (nonempty : integer ≠ []) (integerDigits : ∀ c ∈ integer, c.isDigit = true)
    (fractionDigits : ∀ c ∈ fraction, c.isDigit = true) (positive : 0 < coinDecimals)
    (short : fraction.length ≤ coinDecimals.toNat)
    (fits : digitsValue integer * 10 ^ coinDecimals.toNat +
      digitsValue fraction * 10 ^ (coinDecimals.toNat - fraction.length) < 2 ^ 64) :
    (fromCoin (String.mk (integer ++ '.' :: fraction)) coinDecimals).map UInt64.toNat =
      some (digitsValue integer * 10 ^ coinDecimals.toNat +
        digitsValue fraction * 10 ^ (coinDecimals.toNat - fraction.length)) := by
  have readInteger := parseU64_eq integer nonempty integerDigits (lt_of_scaled_lt fits)
  have text : trim (integer ++ '.' :: fraction) = integer ++ '.' :: fraction := by
    refine trim_of_digits_or_point fun c member => ?_
    rcases List.mem_append.mp member with inInteger | (_ | ⟨_, inFraction⟩)
    · exact .inl (integerDigits c inInteger)
    · exact .inr rfl
    · exact .inl (fractionDigits _ inFraction)
  have split : (integer ++ '.' :: fraction).splitOn '.' = [integer, fraction] := by
    show (integer ++ '.' :: fraction).splitOnP (· == '.') = _
    rw [List.splitOnP_first _ _ (fun c member => by simp [ne_point_of_isDigit (integerDigits c member)]) _
      (by simp)]
    exact congrArg _ (splitOn_point_of_digits fractionDigits)
  have padded : (fraction ++ List.replicate coinDecimals.toNat '0').take coinDecimals.toNat =
      fraction ++ List.replicate (coinDecimals.toNat - fraction.length) '0' := by
    rw [List.take_append_eq_append_take, List.take_of_length_le short, List.take_replicate,
      Nat.min_eq_left (Nat.sub_le _ _)]
  have value : digitsValue (fraction ++ List.replicate (coinDecimals.toNat - fraction.length) '0') =
      digitsValue fraction * 10 ^ (coinDecimals.toNat - fraction.length) := by
    simp [digitsValue, digitsFrom_append, digitsFrom_zeros]
  have readDecimals := parseU64_eq (fraction ++ List.replicate (coinDecimals.toNat - fraction.length) '0')
    (by have : 0 < coinDecimals.toNat := positive; cases fraction <;> simp; omega)
    (fun c member => by
      rcases List.mem_append.mp member with inFraction | zero
      · exact fractionDigits c inFraction
      · rw [List.eq_of_mem_replicate zero]
        rfl)
    (value ▸ (Nat.le_add_left _ _).trans_lt fits)
  simp [fromCoin, text, split, readInteger, positive, padded, readDecimals, value,
    toNat_ofNat_of_lt (lt_of_scaled_lt fits), toNat_ofNat_of_lt ((Nat.le_add_left _ _).trans_lt fits),
    toNat_ofNat_of_lt fits]

/-- `from_coin` is exact on digits, optionally a point and at most `coin_decimals` digits, below
`2^64` atomic units. -/
theorem from_coin_exact (integer fraction : List Char) (coinDecimals : UInt8) (nonempty : integer ≠ [])
    (integerDigits : ∀ c ∈ integer, c.isDigit = true) (fractionDigits : ∀ c ∈ fraction, c.isDigit = true) :
    (digitsValue integer * 10 ^ coinDecimals.toNat < 2 ^ 64 →
      (fromCoin (String.mk integer) coinDecimals).map UInt64.toNat =
        some (digitsValue integer * 10 ^ coinDecimals.toNat)) ∧
    (0 < coinDecimals → fraction.length ≤ coinDecimals.toNat →
      digitsValue integer * 10 ^ coinDecimals.toNat +
          digitsValue fraction * 10 ^ (coinDecimals.toNat - fraction.length) < 2 ^ 64 →
      (fromCoin (String.mk (integer ++ '.' :: fraction)) coinDecimals).map UInt64.toNat =
        some (digitsValue integer * 10 ^ coinDecimals.toNat +
          digitsValue fraction * 10 ^ (coinDecimals.toNat - fraction.length))) :=
  ⟨fromCoin_digits integer coinDecimals nonempty integerDigits,
    fromCoin_digits_point_digits integer fraction coinDecimals nonempty integerDigits fractionDigits⟩

theorem from_coin_exact_twelve_and_a_half :
    ['1', '2'] ≠ [] ∧ (∀ c ∈ ['1', '2'], c.isDigit = true) ∧ (∀ c ∈ ['5'], c.isDigit = true) ∧
      (fromCoin "12.5" 8).map UInt64.toNat = some 1250000000 :=
  ⟨by decide, by decide, by decide,
    (from_coin_exact ['1', '2'] ['5'] 8 (by decide) (by decide) (by decide)).2 (by decide) (by decide)
      (by decide)⟩

/-! ### `format_difficulty` -/

/-- Modelled from the spec: `Difficulty` (`difficulty.rs`, not in this repository); its
operations here never overflow, so it is a natural number. -/
abbrev Difficulty := Nat

def hashrateFormats : List String := ["H/s", "KH/s", "MH/s", "GH/s", "TH/s", "PH/s", "EH/s"]

def difficultyFormats : List String := ["", "K", "M", "G", "T", "P", "E"]

/-- The `while difficulty >= thousand && count < max` loop of `format_difficulty`. -/
def divideThousands : Nat → Difficulty → Nat → Difficulty → Difficulty × Nat × Difficulty
  | 0, difficulty, count, left => (difficulty, count, left)
  | remaining + 1, difficulty, count, left =>
    if 1000 ≤ difficulty then
      divideThousands remaining (difficulty / 1000) (count + 1) (difficulty % 1000)
    else (difficulty, count, left)

def formatDifficulty (difficulty : Difficulty) : String :=
  let (quotient, count, left) := divideThousands (hashrateFormats.length - 1) difficulty 0 0
  let leftStr := if left = 0 then "" else "." ++ toString (left / 10)
  toString quotient ++ leftStr ++ difficultyFormats.getD count ""

/-- The remainder's digits are printed without a leading zero: `1050` prints as `1.5K`, like `1500`. -/
theorem format_difficulty_drops_leading_zero :
    formatDifficulty 1050 = "1.5K" ∧ formatDifficulty 1500 = "1.50K" := by
  decide

/-! ### What `format_difficulty` prints -/

theorem divideThousands_spec (remaining : Nat) :
    ∀ (difficulty : Difficulty) (count : Nat) (left : Difficulty), ∃ steps ≤ remaining,
      divideThousands remaining difficulty count left =
        (difficulty / 1000 ^ steps, count + steps,
          if steps = 0 then left else difficulty / 1000 ^ (steps - 1) % 1000) ∧
      (steps = 0 ∨ 1000 ^ steps ≤ difficulty) ∧ (steps = remaining ∨ difficulty < 1000 ^ (steps + 1)) := by
  induction remaining with
  | zero => exact fun difficulty count left => ⟨0, le_rfl, by simp [divideThousands], .inl rfl, .inl rfl⟩
  | succ remaining ih =>
    intro difficulty count left
    by_cases large : 1000 ≤ difficulty
    · obtain ⟨steps, bounded, loop, above, below⟩ := ih (difficulty / 1000) (count + 1) (difficulty % 1000)
      have quotient : ∀ n, difficulty / 1000 / 1000 ^ n = difficulty / 1000 ^ (n + 1) := fun n => by
        rw [Nat.div_div_eq_div_mul, pow_succ']
      refine ⟨steps + 1, by omega, ?_, .inr ?_, ?_⟩
      · rw [divideThousands, if_pos large, loop, quotient, show count + 1 + steps = count + (steps + 1) by omega]
        cases steps <;> simp [quotient]
      · rcases above with rfl | above
        · simpa using large
        · rw [pow_succ]
          exact (Nat.le_div_iff_mul_le (by decide)).mp (by simpa [quotient] using above)
      · rcases below with rfl | below
        · exact .inl rfl
        · rw [pow_succ]
          exact .inr ((Nat.div_lt_iff_lt_mul (by decide)).mp below)
    · exact ⟨0, Nat.zero_le _, by simp [divideThousands, large], .inl rfl, .inr (by simpa using large)⟩

/-- `format_difficulty` prints a difficulty in the largest unit, up to `E`, at most the difficulty. -/
theorem format_difficulty_largest_unit (difficulty : Difficulty) :
    ∃ count ≤ 6, (count = 0 ∨ 1000 ^ count ≤ difficulty) ∧ (count = 6 ∨ difficulty < 1000 ^ (count + 1)) ∧
      formatDifficulty difficulty =
        toString (difficulty / 1000 ^ count) ++
          (if count = 0 ∨ difficulty / 1000 ^ (count - 1) % 1000 = 0 then ""
            else "." ++ toString (difficulty / 1000 ^ (count - 1) % 1000 / 10)) ++
          difficultyFormats.getD count "" := by
  obtain ⟨count, bounded, loop, above, below⟩ := divideThousands_spec 6 difficulty 0 0
  refine ⟨count, bounded, above, below, ?_⟩
  rw [formatDifficulty, show hashrateFormats.length - 1 = 6 from rfl, loop, Nat.zero_add]
  by_cases zero : count = 0 <;> simp [zero]

end Dapa.Common
