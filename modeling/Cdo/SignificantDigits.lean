import Cdo.Text

/-!
Numbers printed with six significant digits, in the style `%g` of C. A positive
number is rounded to a mantissa of six digits and a power of ten (`sixDigits`);
the mantissa is printed with a point where the power is between -4 and 5, and with
an exponent otherwise, in both cases without zeros at its end (`Digits.text`). A
number between 0.0001 and 1 prints as `0.` and digits that read back as the
rounded number (`text_fraction`, `fraction_value`). Rounding keeps the order
between a number and any number that has few enough digits itself
(`value_le_of_le`, `le_value_of_le`).
-/
namespace Cdo.SignificantDigits
open Cdo.Text

/-! ### Rounding -/

/-- A rounding to a nearest integer. Which one a number halfway between two goes
    to is left open. -/
structure Nearest where
  round : ℚ → Int
  near : ∀ x, |x - round x| ≤ 1 / 2

theorem Nearest.round_le (g : Nearest) {x : ℚ} {k : Int} (below : x ≤ k) : g.round x ≤ k := by
  obtain ⟨least, -⟩ := abs_le.mp (g.near x)
  have less : (g.round x : ℚ) < k + 1 := by linarith
  exact Int.lt_add_one_iff.mp (by exact_mod_cast less)

theorem Nearest.le_round (g : Nearest) {x : ℚ} {k : Int} (above : k ≤ x) : k ≤ g.round x := by
  obtain ⟨-, most⟩ := abs_le.mp (g.near x)
  have less : (k : ℚ) < g.round x + 1 := by linarith
  exact Int.lt_add_one_iff.mp (by exact_mod_cast less)

/-- Six digits and the power of ten of the first one. -/
structure Digits where
  mantissa : Nat
  exponent : Int
  large : 100000 ≤ mantissa
  small : mantissa < 1000000

def Digits.value (d : Digits) : ℚ := d.mantissa * 10 ^ (d.exponent - 5)

/-- Digits from a rounded mantissa, which can have become the next power of ten. -/
def Digits.ofRounded (mantissa : Nat) (exponent : Int) (large : 100000 ≤ mantissa) (most : mantissa ≤ 1000000) : Digits :=
  if carry : mantissa = 1000000 then ⟨100000, exponent + 1, le_refl _, by norm_num⟩
  else ⟨mantissa, exponent, large, lt_of_le_of_ne most carry⟩

theorem Digits.value_ofRounded {mantissa : Nat} {exponent : Int} (large : 100000 ≤ mantissa) (most : mantissa ≤ 1000000) :
    (Digits.ofRounded mantissa exponent large most).value = mantissa * 10 ^ (exponent - 5) := by
  unfold Digits.ofRounded
  split_ifs with carry
  · have power : (10 : ℚ) ^ (exponent + 1 - 5) = 10 * 10 ^ (exponent - 5) := by
      rw [← zpow_one_add₀ (by norm_num)]
      congr 1
      ring
    rw [Digits.value, power, carry]
    push_cast
    ring
  · rfl

theorem Digits.value_bounds (d : Digits) : 10 ^ d.exponent ≤ d.value ∧ d.value < 10 ^ (d.exponent + 1) := by
  have positive : (0 : ℚ) < 10 ^ (d.exponent - 5) := by positivity
  have least : (100000 : ℚ) ≤ d.mantissa := by exact_mod_cast d.large
  have most : (d.mantissa : ℚ) < 1000000 := by exact_mod_cast d.small
  have low : (10 : ℚ) ^ d.exponent = 100000 * 10 ^ (d.exponent - 5) := by
    have five : (10 : ℚ) ^ (5 : Int) = 100000 := by norm_num
    rw [zpow_sub₀ (by norm_num), five]
    ring
  have high : (10 : ℚ) ^ (d.exponent + 1) = 1000000 * 10 ^ (d.exponent - 5) := by
    rw [zpow_add_one₀ (by norm_num), low]
    ring
  rw [low, high, Digits.value]
  exact ⟨mul_le_mul_of_nonneg_right least positive.le, mul_lt_mul_of_pos_right most positive⟩

theorem Digits.le_value_iff (d : Digits) (n : Int) : 10 ^ n ≤ d.value ↔ n ≤ d.exponent := by
  obtain ⟨low, high⟩ := d.value_bounds
  constructor
  · intro above
    by_contra less
    have power : (10 : ℚ) ^ (d.exponent + 1) ≤ 10 ^ n := zpow_le_zpow_right₀ (by norm_num) (by omega)
    linarith
  · intro least
    exact (zpow_le_zpow_right₀ (by norm_num) least).trans low

/-- A number with its first digit moved to the hundred thousands. -/
def scaled (v : ℚ) : ℚ := v * 10 ^ (5 - Int.log 10 v)

section
variable (g : Nearest) {v : ℚ}

theorem scaled_bounds (positive : 0 < v) : 100000 ≤ scaled v ∧ scaled v < 1000000 := by
  have power : (0 : ℚ) < 10 ^ (5 - Int.log 10 v) := by positivity
  have low : (10 : ℚ) ^ Int.log 10 v ≤ v := by exact_mod_cast Int.zpow_log_le_self (by norm_num) positive
  have high : v < (10 : ℚ) ^ (Int.log 10 v + 1) := by exact_mod_cast Int.lt_zpow_succ_log_self (by norm_num) v
  have isLow : (10 : ℚ) ^ Int.log 10 v * 10 ^ (5 - Int.log 10 v) = 100000 := by
    rw [← zpow_add₀ (by norm_num), add_sub_cancel]
    norm_num
  have isHigh : (10 : ℚ) ^ (Int.log 10 v + 1) * 10 ^ (5 - Int.log 10 v) = 1000000 := by
    rw [zpow_add_one₀ (by norm_num), mul_right_comm, isLow]
    norm_num
  rw [← isLow, ← isHigh]
  exact ⟨mul_le_mul_of_nonneg_right low power.le, mul_lt_mul_of_pos_right high power⟩

theorem rounded_bounds (positive : 0 < v) : 100000 ≤ g.round (scaled v) ∧ g.round (scaled v) ≤ 1000000 := by
  obtain ⟨low, high⟩ := scaled_bounds positive
  exact ⟨g.le_round (by exact_mod_cast low), g.round_le (by exact_mod_cast high.le)⟩

/-- The six digits of a positive number. -/
def sixDigits (positive : 0 < v) : Digits :=
  Digits.ofRounded (g.round (scaled v)).toNat (Int.log 10 v)
    (by have bounds := rounded_bounds g positive; omega) (by have bounds := rounded_bounds g positive; omega)

theorem value_sixDigits (positive : 0 < v) :
    (sixDigits g positive).value = g.round (scaled v) * 10 ^ (Int.log 10 v - 5) := by
  have nonneg : 0 ≤ g.round (scaled v) := by
    have bounds := rounded_bounds g positive
    omega
  have cast : (((g.round (scaled v)).toNat : Int) : ℚ) = g.round (scaled v) := by rw [Int.toNat_of_nonneg nonneg]
  rw [sixDigits, Digits.value_ofRounded, ← cast]
  rfl

theorem unscale (x : ℚ) (e : Int) : x * 10 ^ (5 - e) * 10 ^ (e - 5) = x := by
  rw [mul_assoc, ← zpow_add₀ (by norm_num), sub_add_sub_cancel, sub_self, zpow_zero, mul_one]

/-- A number up to one with the digits of the mantissa is rounded up to it at
    most. -/
theorem value_le_of_le (positive : 0 < v) {h : ℚ} {k : Int} (onGrid : h * 10 ^ (5 - Int.log 10 v) = k) (below : v ≤ h) :
    (sixDigits g positive).value ≤ h := by
  have power : (0 : ℚ) < 10 ^ (5 - Int.log 10 v) := by positivity
  have rounded : g.round (scaled v) ≤ k := by
    refine g.round_le ?_
    rw [← onGrid]
    exact mul_le_mul_of_nonneg_right below power.le
  have isH : h = k * 10 ^ (Int.log 10 v - 5) := by rw [← onGrid, unscale]
  rw [value_sixDigits, isH]
  exact mul_le_mul_of_nonneg_right (by exact_mod_cast rounded) (by positivity)

/-- Up to 1, the thousandths have the digits of the mantissa. -/
theorem thousandths_onGrid (positive : 0 < v) (most : v ≤ 1) {h : ℚ} {k : Int} (thousandths : h * 1000 = k) :
    ∃ i : Int, h * 10 ^ (5 - Int.log 10 v) = i := by
  have nonpos : Int.log 10 v ≤ 0 := by
    have mono := Int.log_mono_right (b := 10) positive most
    rwa [Int.log_one_right] at mono
  obtain ⟨n, isLog⟩ := Int.eq_ofNat_of_zero_le (neg_nonneg.mpr nonpos)
  have power : (10 : ℚ) ^ (5 - Int.log 10 v) = 1000 * 10 ^ (n + 2) := by
    have places : 5 - Int.log 10 v = ((n + 5 : Nat) : Int) := by
      push_cast
      omega
    rw [places, zpow_natCast, pow_add, pow_add]
    ring
  refine ⟨k * 10 ^ (n + 2), ?_⟩
  rw [power, ← mul_assoc, thousandths]
  push_cast
  rfl

theorem le_value_of_le (positive : 0 < v) {h : ℚ} {k : Int} (onGrid : h * 10 ^ (5 - Int.log 10 v) = k) (above : h ≤ v) :
    h ≤ (sixDigits g positive).value := by
  have power : (0 : ℚ) < 10 ^ (5 - Int.log 10 v) := by positivity
  have rounded : k ≤ g.round (scaled v) := by
    refine g.le_round ?_
    rw [← onGrid]
    exact mul_le_mul_of_nonneg_right above power.le
  have isH : h = k * 10 ^ (Int.log 10 v - 5) := by rw [← onGrid, unscale]
  rw [value_sixDigits, isH]
  exact mul_le_mul_of_nonneg_right (by exact_mod_cast rounded) (by positivity)

end

/-! ### Texts -/

def stripZeros (text : Str) : Str := text.rdropWhile (· == '0')

def withPoint (whole fraction : Str) : Str := if fraction = [] then whole else whole ++ '.' :: fraction

/-- An exponent has a sign and at least two digits. -/
def exponentText (e : Int) : Str :=
  'e' :: (if e < 0 then '-' else '+') :: (if e.natAbs < 10 then '0' :: natText e.natAbs else natText e.natAbs)

def Digits.text (d : Digits) : Str :=
  let digits := natText d.mantissa
  if d.exponent < -4 ∨ 6 ≤ d.exponent then
    withPoint (digits.take 1) (stripZeros (digits.drop 1)) ++ exponentText d.exponent
  else if d.exponent < 0 then
    withPoint ['0'] (List.replicate (-d.exponent - 1).toNat '0' ++ stripZeros digits)
  else withPoint (digits.take (d.exponent + 1).toNat) (stripZeros (digits.drop (d.exponent + 1).toNat))

/-- A number that is not negative, printed. -/
def gText (g : Nearest) (v : ℚ) : Str := if positive : 0 < v then (sixDigits g positive).text else ['0']

theorem stripZeros_append (text : Str) : ∃ zeros, text = stripZeros text ++ List.replicate zeros '0' := by
  induction text using List.reverseRecOn with
  | nil => exact ⟨0, rfl⟩
  | append_singleton text last ih =>
    by_cases zero : last = '0'
    · obtain ⟨zeros, isText⟩ := ih
      have stripped : stripZeros (text ++ [last]) = stripZeros text := by
        rw [stripZeros, List.rdropWhile_concat_pos _ _ _ (by simp [zero]), ← stripZeros]
      refine ⟨zeros + 1, ?_⟩
      rw [stripped, List.replicate_succ', ← List.append_assoc, ← isText, zero]
    · refine ⟨0, ?_⟩
      rw [stripZeros, List.rdropWhile_concat_neg _ _ _ (by simp [zero])]
      simp

theorem ofDigitChars_lt {digits : Str} (areDigits : ∀ c ∈ digits, c.isDigit = true) :
    Nat.ofDigitChars 10 digits 0 < 10 ^ digits.length := by
  induction digits using List.reverseRecOn with
  | nil => simp
  | append_singleton digits last ih =>
    have before := ih fun c member => areDigits c (List.mem_append_left _ member)
    have digit := areDigits last (by simp)
    have small : last.toNat - '0'.toNat < 10 := by
      simp only [Char.isDigit, Bool.and_eq_true, decide_eq_true_eq] at digit
      have upper : last.toNat ≤ 57 := by exact_mod_cast digit.2
      have zero : '0'.toNat = 48 := rfl
      omega
    rw [Nat.ofDigitChars_append, Nat.ofDigitChars_cons, Nat.ofDigitChars_nil, List.length_append, List.length_singleton,
      pow_succ]
    omega

section
variable (d : Digits)

theorem length_mantissa : (natText d.mantissa).length = 6 := by
  have most := (Nat.length_toDigits_le_iff (b := 10) (n := d.mantissa) (k := 6) (by norm_num) (by norm_num)).mpr d.small
  have least := (Nat.length_toDigits_le_iff (b := 10) (n := d.mantissa) (k := 5) (by norm_num) (by norm_num)).not.mpr
    (not_lt.mpr d.large)
  rw [natText]
  omega

/-- The first digit is not 0. -/
theorem mantissa_head : ∃ c rest, natText d.mantissa = c :: rest ∧ c ≠ '0' := by
  cases isText : natText d.mantissa with
  | nil => exact absurd isText (natText_ne_nil _)
  | cons c rest =>
    refine ⟨c, rest, rfl, ?_⟩
    rintro rfl
    have areDigits : ∀ c ∈ rest, c.isDigit = true := fun c member =>
      natText_isDigit (by rw [isText]; exact List.mem_cons_of_mem _ member)
    have length := length_mantissa d
    rw [isText, List.length_cons] at length
    have value : Nat.ofDigitChars 10 (natText d.mantissa) 0 = d.mantissa := Nat.ofDigitChars_ten_toDigits
    have zero : Nat.ofDigitChars 10 ('0' :: rest) 0 = Nat.ofDigitChars 10 rest 0 := Nat.ofDigitChars_cons
    have bound := ofDigitChars_lt areDigits
    have five : rest.length = 5 := by omega
    rw [isText, zero] at value
    rw [value, five] at bound
    have large := d.large
    omega

/-- The digits after `0.` of a number below 1. -/
def fractionDigits : Str := List.replicate (-d.exponent - 1).toNat '0' ++ stripZeros (natText d.mantissa)

theorem text_fraction (low : -4 ≤ d.exponent) (high : d.exponent < 0) : d.text = '0' :: '.' :: fractionDigits d := by
  have some : fractionDigits d ≠ [] := by
    intro none
    obtain ⟨c, rest, isText, nonzero⟩ := mantissa_head d
    obtain ⟨zeros, whole⟩ := stripZeros_append (natText d.mantissa)
    rw [(List.append_eq_nil_iff.mp none).2, List.nil_append, isText] at whole
    have member : c ∈ List.replicate zeros '0' := by rw [← whole]; exact List.mem_cons_self
    exact nonzero (List.eq_of_mem_replicate member)
  rw [Digits.text, if_neg (by omega), if_pos high]
  exact if_neg some

theorem isDigit_fractionDigits {c : Char} (member : c ∈ fractionDigits d) : c.isDigit = true := by
  rcases List.mem_append.mp member with zero | digit
  · rw [List.eq_of_mem_replicate zero]
    rfl
  · obtain ⟨zeros, whole⟩ := stripZeros_append (natText d.mantissa)
    exact natText_isDigit (n := d.mantissa) (by rw [whole]; exact List.mem_append_left _ digit)

/-- The digits after `0.` read back as the number. -/
theorem fraction_value (high : d.exponent < 0) :
    (Nat.ofDigitChars 10 (fractionDigits d) 0 : ℚ) / 10 ^ (fractionDigits d).length = d.value := by
  obtain ⟨zeros, whole⟩ := stripZeros_append (natText d.mantissa)
  have value : Nat.ofDigitChars 10 (natText d.mantissa) 0 = d.mantissa := Nat.ofDigitChars_ten_toDigits
  have length := length_mantissa d
  rw [whole, Nat.ofDigitChars_append, Nat.ofDigitChars_replicate_zero] at value
  rw [whole, List.length_append, List.length_replicate] at length
  have read : Nat.ofDigitChars 10 (fractionDigits d) 0 = Nat.ofDigitChars 10 (stripZeros (natText d.mantissa)) 0 := by
    rw [fractionDigits, Nat.ofDigitChars_append, Nat.ofDigitChars_replicate_zero, mul_zero]
  have mantissa : (d.mantissa : ℚ) = 10 ^ zeros * Nat.ofDigitChars 10 (stripZeros (natText d.mantissa)) 0 := by
    exact_mod_cast value.symm
  have places : (10 : ℚ) ^ (d.exponent - 5) = 1 / (10 ^ zeros * 10 ^ (fractionDigits d).length) := by
    have total : (zeros + (fractionDigits d).length : Int) = 5 - d.exponent := by
      rw [fractionDigits, List.length_append, List.length_replicate]
      omega
    rw [← pow_add, one_div, ← zpow_natCast, ← zpow_neg]
    congr 1
    push_cast
    omega
  rw [read, Digits.value, mantissa, places]
  have positive : (0 : ℚ) < 10 ^ zeros := by positivity
  field_simp

/-- 1 is printed without a point. -/
theorem text_one (exponent : d.exponent = 0) (most : d.value ≤ 1) : d.text = ['1'] := by
  have mantissa : d.mantissa = 100000 := by
    have power : (10 : ℚ) ^ (d.exponent - 5) = 1 / 100000 := by
      rw [exponent]
      norm_num
    have small : (d.mantissa : ℚ) ≤ 100000 := by
      rw [Digits.value, power] at most
      linarith
    exact le_antisymm (by exact_mod_cast small) d.large
  rw [Digits.text, exponent, mantissa]
  decide

theorem mem_exponentText {e : Int} {c : Char} (member : c ∈ exponentText e) :
    c.isDigit = true ∨ c = 'e' ∨ c = '-' ∨ c = '+' := by
  have digits : ∀ c, c ∈ (if e.natAbs < 10 then '0' :: natText e.natAbs else natText e.natAbs) → c.isDigit = true := by
    intro c isDigit
    split_ifs at isDigit
    · rcases List.mem_cons.mp isDigit with rfl | later
      · rfl
      · exact natText_isDigit later
    · exact natText_isDigit isDigit
  rcases List.mem_cons.mp member with rfl | rest
  · exact .inr (.inl rfl)
  · rcases List.mem_cons.mp rest with sign | later
    · split_ifs at sign
      · exact .inr (.inr (.inl sign))
      · exact .inr (.inr (.inr sign))
    · exact .inl (digits c later)

/-- A number below 0.0001 is printed with an exponent: a digit other than 0, then
    possibly a point, then no other point. -/
theorem text_exponent (small : d.exponent < -4) :
    ∃ c rest, c.isDigit = true ∧ c ≠ '0' ∧ rest ≠ [] ∧ (d.text = c :: rest ∨ d.text = c :: '.' :: rest) ∧
      ∀ ch ∈ rest, ch.isDigit = true ∨ ch = 'e' ∨ ch = '-' ∨ ch = '+' := by
  obtain ⟨c, rest, isText, nonzero⟩ := mantissa_head d
  have digit : c.isDigit = true := natText_isDigit (n := d.mantissa) (by rw [isText]; exact List.mem_cons_self)
  have text : d.text = withPoint [c] (stripZeros rest) ++ exponentText d.exponent := by
    rw [Digits.text, if_pos (.inl small), isText]
    rfl
  by_cases none : stripZeros rest = []
  · refine ⟨c, exponentText d.exponent, digit, nonzero, List.cons_ne_nil _ _, .inl ?_,
      fun ch member => mem_exponentText member⟩
    rw [text, withPoint, if_pos none]
    rfl
  · refine ⟨c, stripZeros rest ++ exponentText d.exponent, digit, nonzero, by simp [none], .inr ?_, ?_⟩
    · rw [text, withPoint, if_neg none]
      rfl
    · intro ch member
      rcases List.mem_append.mp member with fraction | exponent
      · obtain ⟨zeros, whole⟩ := stripZeros_append rest
        refine .inl (natText_isDigit (n := d.mantissa) ?_)
        rw [isText, whole]
        exact List.mem_cons_of_mem _ (List.mem_append_left _ fraction)
      · exact mem_exponentText exponent

end

end Cdo.SignificantDigits
