import Mathlib.Algebra.Order.Field.Basic
import Mathlib.Algebra.Order.Field.Power
import Mathlib.Tactic.FieldSimp
import Mathlib.Tactic.Linarith
import Mathlib.Tactic.NormNum
import Mathlib.Tactic.Positivity
import Mathlib.Tactic.Ring
import SchemaForms.Decimal.Binary64

/-!
# Rounding to the nearest number

A finite number of the binary format stands for the rational number `± m · 2 ^ e`, and the format
has one significand and exponent for each magnitude: the significand has all of its 53 bits, or the
exponent is the least one. `Rounds v r` says that `r` is the number of the format nearest to `v`,
and of two that are equally near the one with the even significand.

Around a positive `v`, the multiples of `2 ^ e` at the exponent that `exponentOf` chooses are all
numbers of the format that matter: `apart` says that no number lies strictly between two neighbouring
multiples. So it is enough to compare `v` with the two multiples around it, which is what
`divideHalfEven` does.
-/

namespace SchemaForms.Binary64

/-- The format has a number of this significand and this exponent. -/
structure InFormat (m : Nat) (e : Int) : Prop where
  significand : m < 2 ^ 53
  least : minExponent ≤ e
  greatest : e ≤ maxExponent
  normal : 2 ^ 52 ≤ m ∨ e = minExponent

def magnitude (m : Nat) (e : Int) : ℚ := m * 2 ^ e

def sign (negative : Bool) : ℚ := if negative then -1 else 1

/-- The exact value of a finite number. -/
def toRat? : Binary64 → Option ℚ
  | .finite negative m e => some (sign negative * magnitude m e)
  | _ => none

/-- Of two numbers, with their significands, the first is nearer to `v`, or both are equally near
and only the first has an even significand. -/
def Preferred (v x : ℚ) (m : Nat) (y : ℚ) (m' : Nat) : Prop :=
  |x - v| < |y - v| ∨ |x - v| = |y - v| ∧ m % 2 = 0 ∧ m' % 2 = 1

/-- The value `r` is that of the number of the format nearest to `v`, ties going to the even
significand. -/
def Rounds (v r : ℚ) : Prop :=
  ∃ negative m e, InFormat m e ∧ r = sign negative * magnitude m e ∧
    ∀ negative' m' e', InFormat m' e' → sign negative' * magnitude m' e' ≠ r →
      Preferred v r m (sign negative' * magnitude m' e') m'

/-- There is just one nearest number. -/
theorem Rounds.unique {v r r' : ℚ} (first : Rounds v r) (second : Rounds v r') : r = r' := by
  obtain ⟨negative, m, e, number, rfl, best⟩ := first
  obtain ⟨negative', m', e', number', rfl, best'⟩ := second
  by_contra different
  have one := best negative' m' e' number' (Ne.symm different)
  have two := best' negative m e number different
  rcases one with less | ⟨same, even, -⟩
  · rcases two with less' | ⟨same', -⟩
    · exact lt_asymm less less'
    · exact absurd same' (ne_of_gt less)
  · rcases two with less' | ⟨-, -, odd⟩
    · exact absurd same (ne_of_gt less')
    · omega

theorem InFormat.rounds {m : Nat} {e : Int} (number : InFormat m e) (negative : Bool) :
    Rounds (sign negative * magnitude m e) (sign negative * magnitude m e) := by
  refine ⟨negative, m, e, number, rfl, fun negative' m' e' _ different => .inl ?_⟩
  rw [sub_self, abs_zero]
  exact abs_pos.mpr (sub_ne_zero.mpr different)

/-! ## Significands at an exponent -/

theorem magnitude_nonneg (m : Nat) (e : Int) : 0 ≤ magnitude m e := by
  unfold magnitude
  positivity

/-- A magnitude may be written with a smaller exponent and a greater significand. -/
theorem magnitude_add (m : Nat) (e : Int) (k : Nat) :
    magnitude m (e + k) = magnitude (m * 2 ^ k) e := by
  unfold magnitude
  rw [zpow_add₀ two_ne_zero, zpow_natCast]
  push_cast
  ring

theorem magnitude_le {m m' : Nat} {e : Int} :
    magnitude m e ≤ magnitude m' e ↔ m ≤ m' := by
  have unit : (0 : ℚ) < 2 ^ e := by positivity
  unfold magnitude
  rw [mul_le_mul_iff_left₀ unit, Nat.cast_le]

theorem magnitude_inj {m m' : Nat} {e : Int} :
    magnitude m e = magnitude m' e ↔ m = m' := by
  rw [le_antisymm_iff, magnitude_le, magnitude_le, ← le_antisymm_iff]

theorem magnitude_succ (m : Nat) (e : Int) : magnitude (m + 1) e = magnitude m e + 2 ^ e := by
  unfold magnitude
  push_cast
  ring

variable {m m' q : Nat} {e e' : Int}

/-- A number of the format is a multiple of a power of two, or its exponent is less and it is not
greater than the least number with that power of two as its unit. -/
theorem InFormat.multiple_or_small (number : InFormat m' e') (e : Int) :
    (∃ k : Nat, e' = e + k) ∨ e' < e ∧ magnitude m' e' < magnitude (2 ^ 52) e := by
  rcases Int.lt_or_le e' e with less | least
  · right
    refine ⟨less, ?_⟩
    obtain ⟨k, rfl⟩ := Int.le.dest (show e' + 1 ≤ e by omega)
    rw [show e' + 1 + k = e' + (k + 1 : Nat) by push_cast; ring, magnitude_add, ← not_le,
      magnitude_le, not_le]
    have step : 2 ^ 53 ≤ 2 ^ 52 * 2 ^ (k + 1) := by
      rw [← pow_add]
      exact Nat.pow_le_pow_right (by omega) (by omega)
    exact Nat.lt_of_lt_of_le number.significand step
  · left
    obtain ⟨k, rfl⟩ := Int.le.dest least
    exact ⟨k, rfl⟩

/-- No number of the format lies strictly between neighbouring multiples of a power of two, if the
lower one has at least 53 bits or the power is the least of the format. -/
theorem InFormat.apart (number : InFormat m' e') (normal : 2 ^ 52 ≤ q ∨ e = minExponent) :
    magnitude m' e' ≤ magnitude q e ∨ magnitude (q + 1) e ≤ magnitude m' e' := by
  rcases number.multiple_or_small e with ⟨k, rfl⟩ | ⟨less, small⟩
  · rw [magnitude_add, magnitude_le, magnitude_le]
    omega
  · left
    have least := number.least
    have wide : 2 ^ 52 ≤ q := by omega
    exact le_trans (le_of_lt small) (magnitude_le.mpr wide)

/-- A number of the format that is an odd multiple of a power of two has an odd significand. -/
theorem InFormat.odd (number : InFormat m' e') (normal : 2 ^ 52 ≤ q ∨ e = minExponent)
    (same : magnitude m' e' = magnitude q e) (odd : q % 2 = 1) : m' % 2 = 1 := by
  rcases number.multiple_or_small e with ⟨k, rfl⟩ | ⟨less, small⟩
  · rw [magnitude_add, magnitude_inj] at same
    have factor : ¬ 2 ∣ m' := fun even => by
      have : 2 ∣ q := same ▸ Dvd.dvd.mul_right even _
      omega
    omega
  · have least := number.least
    have wide : 2 ^ 52 ≤ q := by omega
    rw [same] at small
    exact absurd (magnitude_le.mpr wide) (not_le.mpr small)

/-! ## The nearer of two multiples -/

/-- The multiple `m` of `2 ^ e` is the nearer one of the two multiples around `v`, the lower one of
which is `q`; of two equally near ones it is the even one. -/
structure IsHalfEven (v : ℚ) (q m : Nat) (e : Int) : Prop where
  lower : magnitude q e ≤ v
  upper : v < magnitude (q + 1) e
  choice :
    m = q ∧ (2 * (v - magnitude q e) < 2 ^ e ∨ 2 * (v - magnitude q e) = 2 ^ e ∧ q % 2 = 0) ∨
    m = q + 1 ∧ (2 ^ e < 2 * (v - magnitude q e) ∨ 2 * (v - magnitude q e) = 2 ^ e ∧ q % 2 = 1)

/-- The nearer multiple is preferred to all numbers of the format. -/
theorem IsHalfEven.preferred {v : ℚ} (half : IsHalfEven v q m e)
    (normal : 2 ^ 52 ≤ q ∨ e = minExponent) (number : InFormat m' e')
    (different : magnitude m' e' ≠ magnitude m e) :
    Preferred v (magnitude m e) m (magnitude m' e') m' := by
  obtain ⟨lower, upper, choice⟩ := half
  have next := magnitude_succ q e
  have place := number.apart normal
  have fromBelow : |magnitude q e - v| = v - magnitude q e := by
    rw [abs_sub_comm, abs_of_nonneg (by linarith)]
  have fromAbove : |magnitude (q + 1) e - v| = magnitude (q + 1) e - v :=
    abs_of_nonneg (by linarith)
  rcases choice with ⟨rfl, near⟩ | ⟨rfl, near⟩ <;> rcases place with below | above
  · -- below the chosen lower multiple
    have less := lt_of_le_of_ne below different
    left
    rw [fromBelow, abs_sub_comm, abs_of_nonneg (by linarith)]
    linarith
  · have distance : |magnitude m' e' - v| = magnitude m' e' - v := abs_of_nonneg (by linarith)
    rw [Preferred, fromBelow, distance]
    rcases near with less | ⟨tie, even⟩
    · left
      linarith
    · rcases eq_or_lt_of_le above with same | less
      · right
        refine ⟨by linarith, even, number.odd (q := m + 1) (by omega) same.symm (by omega)⟩
      · left
        linarith
  · have distance : |magnitude m' e' - v| = v - magnitude m' e' := by
      rw [abs_sub_comm, abs_of_nonneg (by linarith)]
    rw [Preferred, fromAbove, distance]
    rcases near with less | ⟨tie, odd⟩
    · left
      linarith
    · rcases eq_or_lt_of_le below with same | less
      · right
        refine ⟨by linarith, by omega, number.odd normal same odd⟩
      · left
        linarith
  · -- above the chosen upper multiple
    have less := lt_of_le_of_ne above (Ne.symm different)
    left
    rw [fromAbove, abs_of_nonneg (by linarith)]
    linarith

theorem inFormat_zero : InFormat 0 minExponent := ⟨by decide, le_refl _, by decide, .inr rfl⟩

theorem magnitude_zero (e : Int) : magnitude 0 e = 0 := by
  rw [magnitude, Nat.cast_zero, zero_mul]

/-- The magnitude is preferred to all other magnitudes of the format. -/
def IsBest (v : ℚ) (m : Nat) (e : Int) : Prop :=
  ∀ m' e', InFormat m' e' → magnitude m' e' ≠ magnitude m e →
    Preferred v (magnitude m e) m (magnitude m' e') m'

theorem IsBest.abs_sub_le {v : ℚ} (best : IsBest v m e) (nonneg : 0 ≤ v) :
    |magnitude m e - v| ≤ v := by
  have distance : |0 - v| = v := by rw [zero_sub, abs_neg, abs_of_nonneg nonneg]
  by_cases empty : magnitude m e = 0
  · rw [empty, distance]
  · have compared := best 0 minExponent inFormat_zero (by rw [magnitude_zero]; exact Ne.symm empty)
    rw [Preferred, magnitude_zero, distance] at compared
    rcases compared with less | ⟨same, -⟩
    · exact le_of_lt less
    · exact le_of_eq same

/-- The best magnitude is also preferred to all numbers of the other sign. -/
theorem IsBest.preferred_neg {v : ℚ} (best : IsBest v m e) (nonneg : 0 ≤ v)
    (number : InFormat m' e') (different : -magnitude m' e' ≠ magnitude m e) :
    Preferred v (magnitude m e) m (-magnitude m' e') m' := by
  rcases eq_or_lt_of_le (magnitude_nonneg m' e') with empty | positive
  · rw [← empty, neg_zero, empty] at different ⊢
    exact best m' e' number different
  · left
    have most := best.abs_sub_le nonneg
    have distance : |-magnitude m' e' - v| = magnitude m' e' + v := by
      rw [abs_of_nonpos (by linarith)]
      ring
    linarith

/-- The best magnitude is that of the nearest number, with any sign. -/
theorem IsBest.rounds {v : ℚ} (best : IsBest v m e) (nonneg : 0 ≤ v) (number : InFormat m e)
    (negative : Bool) : Rounds (sign negative * v) (sign negative * magnitude m e) := by
  have unit : |sign negative| = 1 := by cases negative <;> simp [sign]
  -- distances are those of the magnitudes after a reflection
  have reflected (y : ℚ) : |sign negative * y - sign negative * v| = |y - v| := by
    rw [← mul_sub, abs_mul, unit, one_mul]
  refine ⟨negative, m, e, number, rfl, fun negative' m' e' number' different => ?_⟩
  by_cases agree : negative' = negative
  · subst agree
    rw [Preferred, reflected, reflected]
    exact best m' e' number' fun same => different (by rw [same])
  · have opposite : sign negative' * magnitude m' e' = sign negative * -magnitude m' e' := by
      cases negative <;> cases negative' <;> simp_all [sign]
    rw [opposite] at different ⊢
    rw [Preferred, reflected, reflected]
    exact best.preferred_neg nonneg number' fun same => different (by rw [same])

/-! ## The procedure -/

theorem scale_eq (num den : Nat) (e : Int) :
    ((scale num den e).1 : ℚ) / (scale num den e).2 = (num : ℚ) / den / 2 ^ e := by
  cases e with
  | ofNat k =>
      rw [scale, Int.ofNat_eq_natCast, zpow_natCast]
      push_cast [Nat.pow_eq]
      rw [div_div]
  | negSucc k =>
      rw [scale, zpow_negSucc, div_inv_eq_mul]
      push_cast [Nat.pow_eq]
      ring

theorem scale_pos {den : Nat} (num : Nat) (positive : 0 < den) (e : Int) :
    0 < (scale num den e).2 := by
  cases e with
  | ofNat k => exact Nat.mul_pos positive (Nat.pow_pos (by omega))
  | negSucc k => exact positive

theorem log2_bounds {n : Nat} (positive : 0 < n) :
    (2 : ℚ) ^ (n.log2 : Int) ≤ n ∧ (n : ℚ) < 2 ^ (n.log2 + 1 : Int) := by
  constructor
  · rw [zpow_natCast]
    exact_mod_cast Nat.log2_self_le (by omega)
  · have : n < 2 ^ (n.log2 + 1) := Nat.lt_log2_self
    exact_mod_cast this

theorem magnitude_two_pow (k : Nat) (e : Int) : magnitude (2 ^ k) e = 2 ^ (k + e) := by
  rw [magnitude, zpow_add₀ two_ne_zero, zpow_natCast]
  push_cast
  rfl

/-- The logarithms of a fraction's parts give its exponent up to one. -/
theorem guess_bounds {num den : Nat} (some : 0 < num) (positive : 0 < den) {guess : Int}
    (hGuess : (num.log2 : Int) - den.log2 - 52 = guess) :
    magnitude (2 ^ 52) (guess - 1) ≤ (num : ℚ) / den ∧
      (num : ℚ) / den < magnitude (2 ^ 53) guess := by
  obtain ⟨numLower, numUpper⟩ := log2_bounds some
  obtain ⟨denLower, denUpper⟩ := log2_bounds positive
  have denominator : (0 : ℚ) < den := by exact_mod_cast positive
  constructor
  · rw [le_div_iff₀ denominator, magnitude_two_pow]
    calc (2 : ℚ) ^ ((52 : Nat) + (guess - 1)) * den
        ≤ 2 ^ ((52 : Nat) + (guess - 1)) * 2 ^ (den.log2 + 1 : Int) := by gcongr
      _ = 2 ^ (num.log2 : Int) := by
          rw [← zpow_add₀ two_ne_zero]
          congr 1
          omega
      _ ≤ num := numLower
  · rw [div_lt_iff₀ denominator, magnitude_two_pow]
    calc (num : ℚ) < 2 ^ (num.log2 + 1 : Int) := numUpper
      _ = 2 ^ ((53 : Nat) + guess) * 2 ^ (den.log2 : Int) := by
          rw [← zpow_add₀ two_ne_zero]
          congr 1
          omega
      _ ≤ 2 ^ ((53 : Nat) + guess) * den := by gcongr

/-- The comparison that decides between two exponents is that of the fraction with the least number
of the greater one. -/
theorem scale_lt_iff {num den : Nat} (positive : 0 < den) (e : Int) :
    (scale num den e).1 < Nat.pow 2 52 * (scale num den e).2 ↔
      (num : ℚ) / den < magnitude (2 ^ 52) e := by
  have scaled : (0 : ℚ) < (scale num den e).2 := by exact_mod_cast scale_pos num positive e
  rw [magnitude, ← div_lt_iff₀ (by positivity), ← scale_eq, div_lt_iff₀ scaled]
  exact_mod_cast Iff.rfl

/-- At the chosen exponent a fraction has at most 53 bits before the point, and fewer only at the
least exponent. -/
theorem exponentOf_spec {num den : Nat} (some : 0 < num) (positive : 0 < den) :
    minExponent ≤ exponentOf num den ∧
      (num : ℚ) / den < magnitude (2 ^ 53) (exponentOf num den) ∧
      (magnitude (2 ^ 52) (exponentOf num den) ≤ (num : ℚ) / den ∨
        exponentOf num den = minExponent) := by
  generalize hGuess : (num.log2 : Int) - (den.log2 : Int) - 52 = guess
  obtain ⟨lower, upper⟩ := guess_bounds some positive hGuess
  obtain ⟨chosen, hChosen, fits, full⟩ : ∃ chosen, exponentOf num den = max minExponent chosen ∧
      (num : ℚ) / den < magnitude (2 ^ 53) chosen ∧
      magnitude (2 ^ 52) chosen ≤ (num : ℚ) / den := by
    unfold exponentOf
    simp only [hGuess, scale_lt_iff positive]
    by_cases less : (num : ℚ) / den < magnitude (2 ^ 52) guess
    · refine ⟨guess - 1, by rw [if_pos less], ?_, lower⟩
      rw [magnitude_two_pow] at less ⊢
      rwa [show ((53 : Nat) : Int) + (guess - 1) = (52 : Nat) + guess by omega]
    · exact ⟨guess, by rw [if_neg less], upper, not_lt.mp less⟩
  rw [hChosen]
  refine ⟨le_max_left _ _, lt_of_lt_of_le fits ?_, ?_⟩
  · rw [magnitude_two_pow, magnitude_two_pow]
    exact zpow_le_zpow_right₀ one_le_two (by omega)
  · rcases le_total minExponent chosen with least | small
    · rw [max_eq_right least]
      exact .inl full
    · exact .inr (max_eq_left small)

/-- The rounded quotient is the nearer of the two multiples around a fraction. -/
theorem isHalfEven_divideHalfEven {n d : Nat} (positive : 0 < d) (e : Int) :
    IsHalfEven ((n : ℚ) / d * 2 ^ e) (n / d) (divideHalfEven n d) e := by
  have unit : (0 : ℚ) < 2 ^ e := by positivity
  have denominator : (0 : ℚ) < d := by exact_mod_cast positive
  have parts : (n : ℚ) / d = (n / d : Nat) + (n % d : Nat) / d := by
    have := Nat.div_add_mod n d
    field_simp
    exact_mod_cast this.symm
  have rest : (n : ℚ) / d * 2 ^ e - magnitude (n / d) e = (n % d : Nat) / d * 2 ^ e := by
    rw [parts, magnitude]
    ring
  have fraction : ((n % d : Nat) : ℚ) / d < 1 := by
    rw [div_lt_one denominator]
    exact_mod_cast Nat.mod_lt n positive
  have less : 2 * ((n : ℚ) / d * 2 ^ e - magnitude (n / d) e) < 2 ^ e ↔ 2 * (n % d) < d := by
    rw [rest, ← mul_assoc, mul_lt_iff_lt_one_left unit, ← mul_div_assoc, div_lt_one denominator]
    exact_mod_cast Iff.rfl
  have same : 2 * ((n : ℚ) / d * 2 ^ e - magnitude (n / d) e) = 2 ^ e ↔ 2 * (n % d) = d := by
    rw [rest, ← mul_assoc, mul_eq_right₀ (ne_of_gt unit), ← mul_div_assoc,
      div_eq_one_iff_eq (ne_of_gt denominator)]
    exact_mod_cast Iff.rfl
  refine ⟨?_, ?_, ?_⟩
  · have : 0 ≤ ((n % d : Nat) : ℚ) / d * 2 ^ e := by positivity
    linarith
  · rw [magnitude_succ]
    have := mul_lt_mul_of_pos_right fraction unit
    linarith
  · have greater : 2 ^ e < 2 * ((n : ℚ) / d * 2 ^ e - magnitude (n / d) e) ↔ d < 2 * (n % d) := by
      rw [← not_le, le_iff_lt_or_eq, less, same]
      omega
    rw [less, same, greater, divideHalfEven]
    split <;> omega

/-- A significand that has become too wide is the least one of the next exponent. -/
theorem magnitude_carry (e : Int) : magnitude (2 ^ 52) (e + 1) = magnitude (2 ^ 53) e := by
  rw [magnitude_two_pow, magnitude_two_pow]
  congr 1
  omega

/-- At the chosen exponent the nearer multiple is best, also when it is carried. -/
theorem IsHalfEven.isBest {v : ℚ} (half : IsHalfEven v q m e)
    (normal : 2 ^ 52 ≤ q ∨ e = minExponent) : IsBest v m e :=
  fun _ _ number different => half.preferred normal number different

theorem IsBest.carry {v : ℚ} (best : IsBest v (2 ^ 53) e) : IsBest v (2 ^ 52) (e + 1) := by
  intro m' e' number different
  rw [magnitude_carry] at different ⊢
  rcases best m' e' number different with less | ⟨same, -, odd⟩
  · exact .inl less
  · exact .inr ⟨same, by decide, odd⟩

/-- The number found for a fraction is the nearest one. -/
theorem ofRatio_rounds {negative negative' : Bool} {num den m : Nat} {e : Int}
    (positive : 0 < den) (found : ofRatio negative num den = .finite negative' m e) :
    Rounds (sign negative * (num / den)) (sign negative' * magnitude m e) := by
  rcases Nat.eq_zero_or_pos num with rfl | some
  · rw [ofRatio, if_pos rfl] at found
    cases found
    simpa [magnitude_zero] using inFormat_zero.rounds negative
  obtain ⟨least, fits, full⟩ := exponentOf_spec some positive
  have half := isHalfEven_divideHalfEven (n := (scale num den (exponentOf num den)).1)
    (scale_pos num positive (exponentOf num den)) (exponentOf num den)
  rw [scale_eq, div_mul_cancel₀ _ (by positivity)] at half
  simp only [ofRatio, Nat.ne_of_gt some, if_false] at found
  generalize exponentOf num den = e₀ at least fits full half found
  generalize divideHalfEven (scale num den e₀).1 (scale num den e₀).2 = m₀ at half found
  generalize (scale num den e₀).1 / (scale num den e₀).2 = q at half
  have narrow : q < 2 ^ 53 := by
    rw [← not_le, ← magnitude_le (e := e₀), not_le]
    exact lt_of_le_of_lt half.lower fits
  have normal : 2 ^ 52 ≤ q ∨ e₀ = minExponent := by
    refine full.imp_left fun above => ?_
    have : 2 ^ 52 < q + 1 := by
      rw [← not_le, ← magnitude_le (e := e₀), not_le]
      exact lt_of_le_of_lt above half.upper
    omega
  have between : q ≤ m₀ ∧ m₀ ≤ q + 1 := by
    rcases half.choice with ⟨rfl, -⟩ | ⟨rfl, -⟩ <;> omega
  have best := half.isBest normal
  have nonneg : (0 : ℚ) ≤ num / den := by positivity
  split at found <;> split at found <;> cases found
  · rename_i carried inside
    rw [carried] at best
    exact best.carry.rounds nonneg ⟨by decide, by omega, not_lt.mp inside, .inl (le_refl _)⟩ negative
  · rename_i kept inside
    have : m₀ ≠ 2 ^ 53 := kept
    exact best.rounds nonneg ⟨by omega, least, not_lt.mp inside, by omega⟩ negative

theorem ofRatio_ne_nan (negative : Bool) (num den : Nat) : ofRatio negative num den ≠ .nan := by
  unfold ofRatio
  split
  · nofun
  · dsimp only
    split <;> split <;> nofun

theorem sign_mul_natAbs (n : Int) : sign (decide (n < 0)) * ((n.natAbs : ℚ) / (1 : Nat)) = n := by
  rw [Nat.cast_one, div_one, Nat.cast_natAbs, Int.cast_abs]
  by_cases negative : n < 0
  · have : (n : ℚ) < 0 := by exact_mod_cast negative
    rw [sign, decide_eq_true negative, if_pos rfl, abs_of_neg this]
    ring
  · have : (0 : ℚ) ≤ n := by exact_mod_cast not_lt.mp negative
    rw [sign, decide_eq_false negative, if_neg (by decide), abs_of_nonneg this, one_mul]

/-- An integer that is not too large is converted to the nearest number. -/
theorem ofInt?_rounds {n : Int} {x : Binary64} (found : ofInt? n = some x) :
    ∃ r, x.toRat? = some r ∧ Rounds n r := by
  unfold ofInt? at found
  cases converted : ofRatio (decide (n < 0)) n.natAbs 1 with
  | nan => exact absurd converted (ofRatio_ne_nan _ _ _)
  | infinite negative =>
      rw [converted] at found
      cases found
  | finite negative m e =>
      rw [converted] at found
      cases found
      have nearest := ofRatio_rounds Nat.one_pos converted
      rw [sign_mul_natAbs] at nearest
      exact ⟨_, rfl, nearest⟩

example : (ofInt? (2 ^ 53 + 1)).bind toInt? = some (2 ^ 53) := by decide +kernel

end SchemaForms.Binary64
