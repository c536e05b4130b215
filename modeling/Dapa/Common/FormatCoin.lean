import Dapa.Common.Utils
import Dapa.Common.Binary64
import Mathlib.Data.Nat.Digits

/-!
# Printing and reading back coin amounts

`format_coin` prints a value in atomic units as a number of whole coins: it divides the value by
`10^decimals` in `f64` and prints the quotient with `decimals` decimals. `from_coin` reads such a
text back. Below `2^52` atomic units the `f64` quotient is within half a unit of the last decimal
of the exact one, so the printed digits are exactly those of the value and reading them back
gives the value. The other way round, printing what `from_coin` read gives the text back in
canonical form, its fraction padded with zeros. Above `2^53`, which `MAXIMUM_SUPPLY` exceeds,
`as f64` already drops units.
-/

namespace Dapa.Common

/-! ### Decimal digits -/

theorem digitChar_spec : ∀ k < 10, (Nat.digitChar k).isDigit = true ∧
    (Nat.digitChar k).toNat - '0'.toNat = k := by
  decide

theorem digitsFrom_cons (start : Nat) (c : Char) (rest : List Char) :
    digitsFrom start (c :: rest) = digitsFrom (start * 10 + (c.toNat - '0'.toNat)) rest := rfl

theorem digitsFrom_eq (start : Nat) (digits : List Char) :
    digitsFrom start digits = start * 10 ^ digits.length + digitsValue digits := by
  induction digits generalizing start with
  | nil => simp [digitsFrom, digitsValue]
  | cons c rest ih =>
    rw [digitsValue, digitsFrom_cons, digitsFrom_cons, ih, ih (0 * 10 + _), List.length_cons, pow_succ]
    ring

theorem digitsValue_cons (c : Char) (rest : List Char) :
    digitsValue (c :: rest) = (c.toNat - '0'.toNat) * 10 ^ rest.length + digitsValue rest := by
  rw [digitsValue, digitsFrom_cons, digitsFrom_eq, Nat.zero_mul, Nat.zero_add]

theorem digitsValue_lt {digits : List Char} (allDigits : ∀ c ∈ digits, c.isDigit = true) :
    digitsValue digits < 10 ^ digits.length := by
  induction digits with
  | nil => simp [digitsValue, digitsFrom]
  | cons c rest ih =>
    have bounds := digit_bounds (allDigits c (List.mem_cons_self _ _))
    have below := ih fun c member => allDigits c (List.mem_cons_of_mem _ member)
    rw [digitsValue_cons, List.length_cons, pow_succ]
    have : (c.toNat - '0'.toNat) * 10 ^ rest.length ≤ 9 * 10 ^ rest.length :=
      Nat.mul_le_mul_right _ (by rw [show '0'.toNat = 48 from rfl]; omega)
    omega

theorem le_digitsValue {c : Char} {rest : List Char} (digit : c.isDigit = true) (leading : c ≠ '0') :
    10 ^ rest.length ≤ digitsValue (c :: rest) := by
  have bounds := digit_bounds digit
  have nonzero : c.toNat ≠ '0'.toNat := fun same => leading (Char.ext (UInt32.eq_of_val_eq (Fin.ext same)))
  rw [digitsValue_cons]
  have : 1 ≤ c.toNat - '0'.toNat := by rw [show '0'.toNat = 48 from rfl] at nonzero ⊢; omega
  exact (Nat.le_mul_of_pos_left _ this).trans (Nat.le_add_right _ _)

theorem eq_of_digitsValue_eq : ∀ {first second : List Char}, (∀ c ∈ first, c.isDigit = true) →
    (∀ c ∈ second, c.isDigit = true) → first.length = second.length →
    digitsValue first = digitsValue second → first = second
  | [], [], _, _, _, _ => rfl
  | c :: rest, c' :: rest', firstDigits, secondDigits, length, value => by
    have restLength : rest.length = rest'.length := by simpa using length
    have below := digitsValue_lt fun d member => firstDigits d (List.mem_cons_of_mem _ member)
    have below' := digitsValue_lt fun d member => secondDigits d (List.mem_cons_of_mem _ member)
    rw [digitsValue_cons, digitsValue_cons, ← restLength] at value
    rw [← restLength] at below'
    have split : ∀ lead low, low < 10 ^ rest.length →
        (lead * 10 ^ rest.length + low) / 10 ^ rest.length = lead ∧
          (lead * 10 ^ rest.length + low) % 10 ^ rest.length = low := fun lead low small =>
      (Nat.div_mod_unique (Nat.pos_pow_of_pos _ (by decide))).mpr ⟨by ring, small⟩
    have lead := (split _ _ below).1.symm.trans (value ▸ (split _ _ below').1)
    have tail := (split _ _ below).2.symm.trans (value ▸ (split _ _ below').2)
    have bounds := digit_bounds (firstDigits c (List.mem_cons_self _ _))
    have bounds' := digit_bounds (secondDigits c' (List.mem_cons_self _ _))
    have same : c.toNat = c'.toNat := by rw [show '0'.toNat = 48 from rfl] at lead; omega
    rw [Char.ext (UInt32.eq_of_val_eq (Fin.ext same)),
      eq_of_digitsValue_eq (fun d member => firstDigits d (List.mem_cons_of_mem _ member))
        (fun d member => secondDigits d (List.mem_cons_of_mem _ member)) restLength tail]

theorem toDigitsCore_spec : ∀ (fuel n : Nat) (ds : List Char), n < fuel →
    ∃ digits, Nat.toDigitsCore 10 fuel n ds = digits ++ ds ∧ digits ≠ [] ∧
      (∀ c ∈ digits, c.isDigit = true) ∧ digitsValue digits = n
  | 0, _, _, small => absurd small (Nat.not_lt_zero _)
  | fuel + 1, n, ds, small => by
    obtain ⟨isDigit, value⟩ := digitChar_spec (n % 10) (Nat.mod_lt _ (by decide))
    simp only [Nat.toDigitsCore]
    split
    · next last =>
      refine ⟨[Nat.digitChar (n % 10)], rfl, List.cons_ne_nil _ _, by simpa using isDigit, ?_⟩
      simp only [digitsValue, digitsFrom_cons, value]
      simp only [digitsFrom, List.foldl_nil]
      omega
    · next more =>
      obtain ⟨digits, eq, nonempty, allDigits, digitsVal⟩ :=
        toDigitsCore_spec fuel (n / 10) (Nat.digitChar (n % 10) :: ds) (by omega)
      refine ⟨digits ++ [Nat.digitChar (n % 10)], by rw [eq, List.append_assoc]; rfl,
        by simp, fun c member => ?_, ?_⟩
      · rcases List.mem_append.mp member with inDigits | last
        · exact allDigits c inDigits
        · rw [List.mem_singleton.mp last]
          exact isDigit
      · rw [digitsValue, digitsFrom_append, ← digitsValue, digitsVal, digitsFrom_cons, value]
        simp only [digitsFrom, List.foldl_nil]
        omega

theorem toDigits_spec (n : Nat) : Nat.toDigits 10 n ≠ [] ∧
    (∀ c ∈ Nat.toDigits 10 n, c.isDigit = true) ∧ digitsValue (Nat.toDigits 10 n) = n := by
  obtain ⟨digits, eq, nonempty, allDigits, value⟩ := toDigitsCore_spec (n + 1) n [] (Nat.lt_succ_self n)
  rw [Nat.toDigits, eq, List.append_nil]
  exact ⟨nonempty, allDigits, value⟩

theorem padded_spec (n width : Nat) (small : n < 10 ^ width) (positive : 0 < width) :
    let padded := List.replicate (width - (Nat.toDigits 10 n).length) '0' ++ Nat.toDigits 10 n
    padded.length = width ∧ (∀ c ∈ padded, c.isDigit = true) ∧ digitsValue padded = n := by
  obtain ⟨-, allDigits, value⟩ := toDigits_spec n
  have short : (Nat.toDigits 10 n).length ≤ width :=
    Nat.toDigitsCore_length 10 (by decide) (n + 1) n width small positive
  refine ⟨by simp only [List.length_append, List.length_replicate]; omega, fun c member => ?_, ?_⟩
  · rcases List.mem_append.mp member with zero | digit
    · rw [List.eq_of_mem_replicate zero]
      rfl
    · exact allDigits c digit
  · rw [digitsValue, digitsFrom_append, digitsFrom_zeros, Nat.zero_mul, ← digitsValue, value]

theorem toDigits_digitsValue {integer : List Char} (nonempty : integer ≠ [])
    (integerDigits : ∀ c ∈ integer, c.isDigit = true)
    (noLeadingZero : integer.head? = some '0' → integer = ['0']) :
    Nat.toDigits 10 (digitsValue integer) = integer := by
  obtain ⟨c, rest, rfl⟩ := List.exists_cons_of_ne_nil nonempty
  by_cases zero : c = '0'
  · rw [noLeadingZero (by rw [zero]; rfl)]
    rfl
  obtain ⟨-, printedDigits, printedValue⟩ := toDigits_spec (digitsValue (c :: rest))
  have atLeast : 10 ^ rest.length ≤ digitsValue (c :: rest) :=
    le_digitsValue (integerDigits c (List.mem_cons_self _ _)) zero
  have longest : (Nat.toDigits 10 (digitsValue (c :: rest))).length ≤ (c :: rest).length :=
    Nat.toDigitsCore_length 10 (by decide) _ _ _ (digitsValue_lt integerDigits) (by simp)
  have printedBelow := digitsValue_lt printedDigits
  rw [printedValue] at printedBelow
  have shortest : rest.length < (Nat.toDigits 10 (digitsValue (c :: rest))).length :=
    (Nat.pow_lt_pow_iff_right (by decide)).mp (atLeast.trans_lt printedBelow)
  exact eq_of_digitsValue_eq printedDigits integerDigits (by simp only [List.length_cons] at longest ⊢; omega)
    printedValue

theorem scaledFraction_lt {fraction : List Char} {width : Nat} (fractionDigits : ∀ c ∈ fraction, c.isDigit = true)
    (short : fraction.length ≤ width) : digitsValue fraction * 10 ^ (width - fraction.length) < 10 ^ width :=
  calc digitsValue fraction * 10 ^ (width - fraction.length)
      < 10 ^ fraction.length * 10 ^ (width - fraction.length) :=
        Nat.mul_lt_mul_of_pos_right (digitsValue_lt fractionDigits) (Nat.pos_pow_of_pos _ (by decide))
    _ = 10 ^ width := by rw [← pow_add, Nat.add_sub_cancel' short]

theorem padded_digitsValue {fraction : List Char} {width : Nat} (fractionDigits : ∀ c ∈ fraction, c.isDigit = true)
    (short : fraction.length ≤ width) (positive : 0 < width) :
    List.replicate (width - (Nat.toDigits 10 (digitsValue fraction * 10 ^ (width - fraction.length))).length) '0' ++
        Nat.toDigits 10 (digitsValue fraction * 10 ^ (width - fraction.length)) =
      fraction ++ List.replicate (width - fraction.length) '0' := by
  obtain ⟨length, paddedDigits, paddedValue⟩ := padded_spec _ width (scaledFraction_lt fractionDigits short) positive
  refine eq_of_digitsValue_eq paddedDigits (fun c member => ?_) (by simp [length]; omega) ?_
  · rcases List.mem_append.mp member with inFraction | zero
    · exact fractionDigits c inFraction
    · rw [List.eq_of_mem_replicate zero]
      rfl
  · rw [paddedValue]
    simp only [digitsValue, digitsFrom_append, digitsFrom_zeros]

/-! ### `format_coin` -/

def coinDecimals : UInt8 := 8

def maximumSupply : UInt64 := 80000000000000000

/-- `format_coin`; `10usize.pow(decimals as u32)` wraps modulo `2^64` in a release build. -/
def formatCoin (value : UInt64) (decimals : UInt8) : String :=
  ((F64.ofNat value.toNat).div (F64.ofNat (10 ^ decimals.toNat % 2 ^ 64))).formatFixed decimals.toNat

def formatDapa (value : UInt64) : String := formatCoin value coinDecimals

def fromDapa (value : String) : Option UInt64 := fromCoin value coinDecimals

theorem powTen_fits {decimals : Nat} (few : decimals ≤ 19) :
    2 ^ (bitLength (10 ^ decimals) - 53) ∣ 10 ^ decimals := by
  obtain ⟨low, -, -⟩ := bitLength_spec (Nat.pos_pow_of_pos decimals (by decide : 0 < 10))
  have below : 10 ^ decimals < 2 ^ (decimals + 53) := by
    rw [show 10 ^ decimals = 2 ^ decimals * 5 ^ decimals by rw [← Nat.mul_pow], pow_add]
    exact Nat.mul_lt_mul_of_pos_left ((Nat.pow_le_pow_right (by decide) few).trans_lt (by decide))
      (Nat.pos_pow_of_pos _ (by decide))
  have bits : bitLength (10 ^ decimals) - 53 ≤ decimals := by
    have := low.trans_lt below
    have := (Nat.pow_lt_pow_iff_right (by decide : 1 < 2)).mp this
    omega
  exact (Nat.pow_dvd_pow 2 bits).trans (Dvd.intro _ (Nat.mul_pow 2 5 decimals).symm)

theorem small_fits {n : Nat} (small : n < 2 ^ 53) : 2 ^ (bitLength n - 53) ∣ n := by
  rcases Nat.eq_zero_or_pos n with rfl | positive
  · exact dvd_zero _
  obtain ⟨low, -, -⟩ := bitLength_spec positive
  have := (Nat.pow_lt_pow_iff_right (by decide : 1 < 2)).mp (low.trans_lt small)
  rw [show bitLength n - 53 = 0 by omega, pow_zero]
  exact one_dvd n

theorem formatCoin_digits (value : UInt64) (decimals : UInt8) (small : value.toNat < 2 ^ 52)
    (few : decimals.toNat ≤ 19) :
    ∃ m e bounded, (F64.ofNat value.toNat).div (F64.ofNat (10 ^ decimals.toNat % 2 ^ 64)) =
      .finite m e bounded ∧
      roundHalfEven (shiftFraction (m * 10 ^ decimals.toNat) 1 e).1
        (shiftFraction (m * 10 ^ decimals.toNat) 1 e).2 = value.toNat := by
  have tenSmall : 10 ^ decimals.toNat < 2 ^ 64 :=
    (Nat.pow_le_pow_right (by decide) few).trans_lt (by decide)
  obtain ⟨mt, et, _, tRound, tValue⟩ := F64.ofNat_exact (powTen_fits few)
  obtain ⟨mv, ev, _, vRound, vValue⟩ := F64.ofNat_exact (small_fits (small.trans (by decide)))
  have tenPos : (0 : ℚ) < 10 ^ decimals.toNat := by positivity
  have mtPos : 0 < mt := Nat.pos_of_ne_zero fun zero => by
    rw [zero, Nat.cast_zero, zero_mul] at tValue
    exact tenPos.ne (by exact_mod_cast tValue)
  obtain ⟨m, e, bounded, rounded, error⟩ := roundToF64_error mv mtPos (ev - et)
  refine ⟨m, e, bounded, ?_, ?_⟩
  · rw [Nat.mod_eq_of_lt tenSmall, tRound, vRound]
    simp only [F64.div, mtPos.ne', if_false, rounded]
  apply roundHalfEven_eq_of_abs_lt (shiftFraction_pos _ one_pos _)
  have quotient : (mv : ℚ) / mt * 2 ^ (ev - et) = value.toNat / 10 ^ decimals.toNat := by
    rw [zpow_sub₀ two_ne_zero, ← vValue, show (10 : ℚ) ^ decimals.toNat = ((10 ^ decimals.toNat : ℕ) : ℚ)
      by push_cast; rfl, ← tValue]
    field_simp
  rw [quotient] at error
  have valueSmall : (value.toNat : ℚ) < 2 ^ 52 := by exact_mod_cast small
  rw [shiftFraction_value]
  calc |((m * 10 ^ decimals.toNat : ℕ) : ℚ) / ((1 : ℕ) : ℚ) * 2 ^ e - value.toNat|
      = 10 ^ decimals.toNat * |(m : ℚ) * 2 ^ e - value.toNat / 10 ^ decimals.toNat| := by
        rw [← abs_of_pos tenPos, ← abs_mul, abs_of_pos tenPos]
        congr 1
        push_cast
        field_simp
        ring
    _ ≤ 10 ^ decimals.toNat * (value.toNat / 10 ^ decimals.toNat / 2 ^ 53) :=
        mul_le_mul_of_nonneg_left error tenPos.le
    _ = value.toNat / 2 ^ 53 := by field_simp; ring
    _ < 1 / 2 := by
        rw [div_lt_iff₀ (by positivity)]
        linarith

theorem formatCoin_eq (value : UInt64) (decimals : UInt8) (small : value.toNat < 2 ^ 52)
    (few : decimals.toNat ≤ 19) (positive : 0 < decimals.toNat) :
    formatCoin value decimals = String.mk (Nat.toDigits 10 (value.toNat / 10 ^ decimals.toNat) ++ '.' ::
      (List.replicate (decimals.toNat - (Nat.toDigits 10 (value.toNat % 10 ^ decimals.toNat)).length) '0' ++
        Nat.toDigits 10 (value.toNat % 10 ^ decimals.toNat))) := by
  obtain ⟨m, e, bounded, quotient, printed⟩ := formatCoin_digits value decimals small few
  rw [formatCoin, quotient]
  simp only [F64.formatFixed, printed, if_neg positive.ne']

/-- `from_coin` reads back what `format_coin` prints, below `2 ^ 52` atomic units and up to `19`
decimals, beyond which `10usize.pow` overflows. -/
theorem format_coin_round_trip (value : UInt64) (decimals : UInt8) (small : value.toNat < 2 ^ 52)
    (few : decimals.toNat ≤ 19) : fromCoin (formatCoin value decimals) decimals = some value := by
  obtain ⟨m, e, bounded, quotient, printed⟩ := formatCoin_digits value decimals small few
  obtain ⟨nonempty, integerDigits, integerValue⟩ := toDigits_spec (value.toNat / 10 ^ decimals.toNat)
  have fits : value.toNat < 2 ^ 64 := value.toNat_lt_size
  suffices read : (fromCoin (formatCoin value decimals) decimals).map UInt64.toNat = some value.toNat by
    obtain ⟨read, found, same⟩ := Option.map_eq_some'.mp read
    rw [found, UInt64.toNat.inj same]
  unfold formatCoin
  rw [quotient]
  simp only [F64.formatFixed, printed]
  split
  · next zero =>
    rw [fromCoin_digits _ _ nonempty integerDigits
      (by rwa [integerValue, zero, pow_zero, Nat.mul_one, Nat.div_one]), integerValue, zero]
    simp
  · next positive =>
    obtain ⟨length, fractionDigits, fractionValue⟩ :=
      padded_spec (value.toNat % 10 ^ decimals.toNat) decimals.toNat
        (Nat.mod_lt _ (by positivity)) (Nat.pos_of_ne_zero positive)
    rw [fromCoin_digits_point_digits _ _ _ nonempty integerDigits fractionDigits
      (Nat.pos_of_ne_zero positive) (by rw [length]) (by
        rwa [integerValue, fractionValue, length, Nat.sub_self, pow_zero, Nat.mul_one, Nat.div_add_mod']),
      integerValue, fractionValue, length, Nat.sub_self, pow_zero, Nat.mul_one, Nat.div_add_mod']

theorem format_coin_round_trip_largest :
    formatDapa 4503599627370495 = "45035996.27370495" ∧ (4503599627370495 : UInt64).toNat < 2 ^ 52 ∧
      coinDecimals.toNat ≤ 19 ∧
      fromCoin (formatCoin 4503599627370495 coinDecimals) coinDecimals = some 4503599627370495 :=
  ⟨by decide, by decide, by decide,
    format_coin_round_trip 4503599627370495 coinDecimals (by decide) (by decide)⟩

/-- `format_coin` prints back what `from_coin` reads in canonical form: the integer part, a point
and the fraction padded to `decimals` digits. -/
theorem format_coin_canonical (integer fraction : List Char) (decimals : UInt8) (nonempty : integer ≠ [])
    (integerDigits : ∀ c ∈ integer, c.isDigit = true) (noLeadingZero : integer.head? = some '0' → integer = ['0'])
    (fractionDigits : ∀ c ∈ fraction, c.isDigit = true) (positive : 0 < decimals)
    (short : fraction.length ≤ decimals.toNat) (few : decimals.toNat ≤ 19)
    (small : digitsValue integer * 10 ^ decimals.toNat +
      digitsValue fraction * 10 ^ (decimals.toNat - fraction.length) < 2 ^ 52) :
    (fromCoin (String.mk integer) decimals).map (formatCoin · decimals) =
      some (String.mk (integer ++ '.' :: List.replicate decimals.toNat '0')) ∧
    (fromCoin (String.mk (integer ++ '.' :: fraction)) decimals).map (formatCoin · decimals) =
      some (String.mk (integer ++ '.' :: (fraction ++ List.replicate (decimals.toNat - fraction.length) '0'))) := by
  have atLeastOne : 0 < decimals.toNat := positive
  have printed : ∀ digits : List Char, (∀ c ∈ digits, c.isDigit = true) → digits.length ≤ decimals.toNat →
      ∀ value : UInt64, value.toNat = digitsValue integer * 10 ^ decimals.toNat +
        digitsValue digits * 10 ^ (decimals.toNat - digits.length) → value.toNat < 2 ^ 52 →
      formatCoin value decimals =
        String.mk (integer ++ '.' :: (digits ++ List.replicate (decimals.toNat - digits.length) '0')) := by
    intro digits allDigits fitting value read fits
    have split := (Nat.div_mod_unique (Nat.pos_pow_of_pos decimals.toNat (by decide))).mpr
      (⟨by rw [read]; ring, scaledFraction_lt allDigits fitting⟩ :
        _ + 10 ^ decimals.toNat * digitsValue integer = value.toNat ∧ _)
    rw [formatCoin_eq value decimals fits few atLeastOne, split.1, split.2,
      toDigits_digitsValue nonempty integerDigits noLeadingZero, padded_digitsValue allDigits fitting atLeastOne]
  have wholeFits : digitsValue integer * 10 ^ decimals.toNat < 2 ^ 52 := (Nat.le_add_right _ _).trans_lt small
  constructor
  · obtain ⟨value, found, read⟩ := Option.map_eq_some'.mp
      (fromCoin_digits integer decimals nonempty integerDigits (wholeFits.trans (by decide)))
    rw [found, Option.map_some', printed [] nofun (Nat.zero_le _) value
      (by simp [read, digitsValue, digitsFrom]) (by rwa [read])]
    rfl
  · obtain ⟨value, found, read⟩ := Option.map_eq_some'.mp (fromCoin_digits_point_digits integer fraction decimals
      nonempty integerDigits fractionDigits positive short (small.trans (by decide)))
    rw [found, Option.map_some', printed fraction fractionDigits short value read (by rwa [read])]

theorem format_coin_canonical_twelve_and_a_half :
    ['1', '2'] ≠ [] ∧ (∀ c ∈ ['1', '2'], c.isDigit = true) ∧ (∀ c ∈ ['5'], c.isDigit = true) ∧
      digitsValue ['1', '2'] * 10 ^ 8 + digitsValue ['5'] * 10 ^ (8 - 1) < 2 ^ 52 ∧
      (fromCoin "12" 8).map (formatCoin · 8) = some "12.00000000" ∧
      (fromCoin "12.5" 8).map (formatCoin · 8) = some "12.50000000" :=
  ⟨by decide, by decide, by decide, by decide,
    format_coin_canonical ['1', '2'] ['5'] 8 (by decide) (by decide) (by decide) (by decide) (by decide)
      (by decide) (by decide) (by decide)⟩

/- Past `2 ^ 53` the bound is real: `2 ^ 54 + 1` atomic units, below `MAXIMUM_SUPPLY`, round to
`2 ^ 54` in `as f64`, and between `2 ^ 52` and `2 ^ 53` the quotient by `10 ^ decimals` can
already move the last printed decimal. -/
example : (18014398509481985 : UInt64) < maximumSupply ∧
    fromDapa (formatDapa 18014398509481985) = some 18014398509481984 := by
  decide

example : fromCoin (formatCoin 7036874417766401 2) 2 = some 7036874417766402 := by
  decide

end Dapa.Common
