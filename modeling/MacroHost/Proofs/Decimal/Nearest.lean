import MacroHost.Decimal.Binary
import Mathlib.Algebra.Order.Field.Power
import Mathlib.Data.Rat.Cast.Order
import Mathlib.Tactic.FieldSimp
import Mathlib.Tactic.Linarith
import Mathlib.Tactic.Ring

/-!
# The nearest pattern

Patterns of a format are ordered as the numbers that they stand for.  Rounding a fraction gives the
pattern nearest to it, and of two that are equally near the even one.  The pattern of infinity counts as
the power of two that follows the largest finite number, which puts the bound between the two halfway.
-/

namespace MacroHost
namespace Decimal

/-! ## Rounded quotients -/

/-- A rounded quotient is off by half at most, and by exactly half only if it is even. -/
theorem abs_sub_roundDiv_le (num : Nat) {den : Nat} (positive : 0 < den) :
    |(num / den : ℚ) - roundDiv num den| ≤ 1 / 2 ∧
      (|(num / den : ℚ) - roundDiv num den| = 1 / 2 → roundDiv num den % 2 = 0) := by
  have den_pos : (0 : ℚ) < den := by exact_mod_cast positive
  have split_num : (num : ℚ) = den * (num / den : Nat) + (num % den : Nat) := by
    exact_mod_cast (Nat.div_add_mod num den).symm
  have exact_ : (num / den : ℚ) = (num / den : Nat) + (num % den : Nat) / den := by
    rw [split_num]
    field_simp
  have small : ((num % den : Nat) : ℚ) < den := by exact_mod_cast Nat.mod_lt num positive
  have nonneg : (0 : ℚ) ≤ (num % den : Nat) := by positivity
  have below : ((num % den : Nat) / den : ℚ) < 1 := by rwa [div_lt_iff₀ den_pos, one_mul]
  have above : (0 : ℚ) ≤ (num % den : Nat) / den := div_nonneg nonneg den_pos.le
  rw [exact_, roundDiv]
  generalize num / den = quotient at *
  generalize rest_eq : ((num % den : Nat) / den : ℚ) = rest at *
  have half : 2 * (num % den) < den ↔ rest < 1 / 2 := by
    rw [← rest_eq, div_lt_iff₀ den_pos, ← Nat.cast_lt (α := ℚ)]
    push_cast
    constructor <;> intro <;> linarith
  have half' : den < 2 * (num % den) ↔ 1 / 2 < rest := by
    rw [← rest_eq, lt_div_iff₀ den_pos, ← Nat.cast_lt (α := ℚ)]
    push_cast
    constructor <;> intro <;> linarith
  simp only [half, half']
  split
  · rename_i less
    rw [add_sub_cancel_left, abs_of_nonneg above]
    exact ⟨less.le, fun same => absurd same less.ne⟩
  · rename_i notLess
    split
    · rename_i more
      have gap : (quotient : ℚ) + rest - ((quotient + 1 : Nat) : ℚ) = -(1 - rest) := by
        push_cast
        ring
      rw [gap, abs_neg, abs_of_nonneg (by linarith)]
      exact ⟨by linarith, fun same => by linarith⟩
    · rename_i notMore
      have tie : rest = 1 / 2 := le_antisymm (not_lt.mp notMore) (not_lt.mp notLess)
      split
      · rename_i even
        rw [add_sub_cancel_left, tie]
        exact ⟨by norm_num, fun _ => by simpa using even⟩
      · rename_i odd
        have gap : (quotient : ℚ) + rest - ((quotient + 1 : Nat) : ℚ) = -(1 / 2) := by
          rw [tie]
          push_cast
          ring
        have odd' : quotient % 2 ≠ 0 := by simpa using odd
        rw [gap]
        exact ⟨by norm_num, fun _ => by omega⟩

namespace Format

variable {format : Format}

/-! ## The numbers that patterns stand for -/

/-- The number that a pattern stands for; for the pattern of infinity, the power of two that follows the
largest finite number. -/
def amount (format : Format) (bits : Nat) : ℚ :=
  (format.value bits).1 / (format.value bits).2

theorem fraction_eq (mantissa : Nat) (exponent : Int) :
    ((fraction mantissa exponent).1 / (fraction mantissa exponent).2 : ℚ) = mantissa * 2 ^ exponent := by
  cases exponent with
  | ofNat k => simp [fraction, Nat.shiftLeft_eq]
  | negSucc k => simp [fraction, Nat.shiftLeft_eq, zpow_negSucc, div_eq_mul_inv]

section Patterns

variable {biased fraction steps mantissa : Nat}

theorem amount_of_lt (small : fraction < 2 ^ format.fractionBits) :
    format.amount fraction = fraction * 2 ^ format.minExponent := by
  rw [amount, value]
  dsimp only
  rw [fraction_eq, decode]
  simp [Nat.shiftRight_eq_div_pow, Nat.shiftLeft_eq, Nat.div_eq_of_lt small, Nat.mod_eq_of_lt small]

theorem amount_of_biased (small : fraction < 2 ^ format.fractionBits) :
    format.amount ((biased + 1) * 2 ^ format.fractionBits + fraction) =
      (fraction + 2 ^ format.fractionBits : Nat) * 2 ^ (format.minExponent + biased) := by
  have base_pos : 0 < 2 ^ format.fractionBits := Nat.two_pow_pos _
  have quotient : ((biased + 1) * 2 ^ format.fractionBits + fraction) / 2 ^ format.fractionBits =
      biased + 1 := by
    rw [Nat.add_comm, Nat.add_mul_div_right _ _ base_pos, Nat.div_eq_of_lt small, Nat.zero_add]
  have rest : ((biased + 1) * 2 ^ format.fractionBits + fraction) % 2 ^ format.fractionBits =
      fraction := by
    rw [Nat.add_comm, Nat.add_mul_mod_self_right, Nat.mod_eq_of_lt small]
  have exponent : format.minExponent + ((biased + 1 : Nat) : Int) - 1 =
      format.minExponent + biased := by
    push_cast
    ring
  rw [amount, value]
  dsimp only
  rw [fraction_eq, decode]
  simp only [Nat.shiftRight_eq_div_pow, Nat.shiftLeft_eq, quotient, rest, one_mul]
  rw [if_neg (by simp), exponent]

/-- A mantissa in units of a power of two, from the implicit leading one on or in the smallest unit, is
the number of the pattern so many places further on. -/
theorem amount_eq (bound : mantissa ≤ 2 * 2 ^ format.fractionBits)
    (normal : steps = 0 ∨ 2 ^ format.fractionBits ≤ mantissa) :
    format.amount (steps * 2 ^ format.fractionBits + mantissa) =
      mantissa * 2 ^ (format.minExponent + steps) := by
  rcases Nat.lt_or_ge mantissa (2 ^ format.fractionBits) with low | high
  · obtain rfl : steps = 0 := by omega
    simpa using amount_of_lt low
  · obtain ⟨fraction, rfl⟩ := Nat.exists_eq_add_of_le' high
    rcases Nat.lt_or_ge fraction (2 ^ format.fractionBits) with inside | top
    · have place : steps * 2 ^ format.fractionBits + (fraction + 2 ^ format.fractionBits) =
          (steps + 1) * 2 ^ format.fractionBits + fraction := by
        ring
      rw [place, amount_of_biased inside]
    · obtain rfl : fraction = 2 ^ format.fractionBits := by omega
      have place : steps * 2 ^ format.fractionBits +
          (2 ^ format.fractionBits + 2 ^ format.fractionBits) =
          (steps + 1 + 1) * 2 ^ format.fractionBits + 0 := by
        ring
      have power : (2 : ℚ) ^ (format.minExponent + (steps + 1 : Nat)) =
          2 * 2 ^ (format.minExponent + steps) := by
        rw [Nat.cast_succ, ← add_assoc, zpow_add_one₀ two_ne_zero, mul_comm]
      rw [place, amount_of_biased (Nat.two_pow_pos _), power]
      push_cast
      ring

end Patterns

/-- Every pattern has a mantissa in units of a power of two. -/
theorem exists_mantissa (format : Format) (bits : Nat) :
    ∃ steps mantissa, bits = steps * 2 ^ format.fractionBits + mantissa ∧
      mantissa < 2 * 2 ^ format.fractionBits ∧
      (steps = 0 ∨ 2 ^ format.fractionBits ≤ mantissa) := by
  have small := Nat.mod_lt bits (Nat.two_pow_pos format.fractionBits)
  have parts := Nat.div_add_mod' bits (2 ^ format.fractionBits)
  generalize bits / 2 ^ format.fractionBits = biased at *
  generalize bits % 2 ^ format.fractionBits = fraction at *
  subst parts
  cases biased with
  | zero => exact ⟨0, fraction, rfl, by omega, Or.inl rfl⟩
  | succ biased =>
      exact ⟨biased, 2 ^ format.fractionBits + fraction, by ring, by omega, Or.inr (by omega)⟩

theorem amount_strictMono (format : Format) : StrictMono format.amount := by
  refine strictMono_nat_of_lt_succ fun bits => ?_
  obtain ⟨steps, mantissa, rfl, bound, normal⟩ := format.exists_mantissa bits
  have unit_pos : (0 : ℚ) < 2 ^ (format.minExponent + steps) := by positivity
  rw [Nat.add_assoc, amount_eq bound.le normal, amount_eq bound (by omega)]
  push_cast
  linarith [mul_lt_mul_of_pos_right (lt_add_one (mantissa : ℚ)) unit_pos]

theorem amount_nonneg (format : Format) (bits : Nat) : 0 ≤ format.amount bits :=
  div_nonneg (Nat.cast_nonneg _) (Nat.cast_nonneg _)

/-! ## The nearest pattern -/

/-- The pattern up to that of infinity whose number is nearest to the given one; of two that are equally
near, the even one. -/
def IsNearest (format : Format) (amount : ℚ) (bits : Nat) : Prop :=
  bits ≤ format.infinity ∧ ∀ other ≤ format.infinity, other ≠ bits →
    |amount - format.amount bits| < |amount - format.amount other| ∨
      |amount - format.amount bits| = |amount - format.amount other| ∧ bits % 2 = 0

theorem IsNearest.not_lt {amount : ℚ} {bits other : Nat} (nearest : format.IsNearest amount bits)
    (otherNearest : format.IsNearest amount other) : ¬ bits < other := by
  intro less
  have same : |amount - format.amount bits| = |amount - format.amount other| ∧
      bits % 2 = 0 ∧ other % 2 = 0 := by
    rcases nearest.2 other otherNearest.1 less.ne' with first | ⟨first, even⟩ <;>
      rcases otherNearest.2 bits nearest.1 less.ne with second | ⟨second, even'⟩
    · exact absurd second first.not_gt
    · exact absurd second first.ne'
    · exact absurd first second.ne'
    · exact ⟨first, even, even'⟩
  -- two even patterns have one between them, which is nearer than both
  have below := format.amount_strictMono (Nat.lt_succ_self bits)
  have above := format.amount_strictMono (by omega : bits + 1 < other)
  have middle : |amount - format.amount bits| ≤ |amount - format.amount (bits + 1)| := by
    have bound : bits + 1 ≤ format.infinity := Nat.le_trans less otherNearest.1
    rcases nearest.2 (bits + 1) bound (Nat.succ_ne_self bits) with closer | ⟨equal, _⟩
    · exact closer.le
    · exact equal.le
  obtain ⟨halfway, -, -⟩ := same
  rcases abs_cases (amount - format.amount bits) with ⟨first, _⟩ | ⟨first, _⟩ <;>
    rcases abs_cases (amount - format.amount other) with ⟨second, _⟩ | ⟨second, _⟩ <;>
    rcases abs_cases (amount - format.amount (bits + 1)) with ⟨third, _⟩ | ⟨third, _⟩ <;>
    linarith

theorem IsNearest.unique {amount : ℚ} {bits other : Nat} (nearest : format.IsNearest amount bits)
    (otherNearest : format.IsNearest amount other) : bits = other :=
  Nat.le_antisymm (Nat.not_lt.mp (otherNearest.not_lt nearest))
    (Nat.not_lt.mp (nearest.not_lt otherNearest))

/-- Of two numbers the greater one does not have the lesser nearest pattern. -/
theorem IsNearest.mono {amount greater : ℚ} {bits other : Nat} (ordered : amount ≤ greater)
    (nearest : format.IsNearest amount bits) (otherNearest : format.IsNearest greater other) :
    bits ≤ other := by
  by_contra reversed
  have less : other < bits := Nat.not_le.mp reversed
  have apart := format.amount_strictMono less
  have near : |amount - format.amount bits| ≤ |amount - format.amount other| := by
    rcases nearest.2 other otherNearest.1 less.ne with closer | ⟨equal, -⟩
    · exact closer.le
    · exact equal.le
  have otherNear : |greater - format.amount other| ≤ |greater - format.amount bits| := by
    rcases otherNearest.2 bits nearest.1 less.ne' with closer | ⟨equal, -⟩
    · exact closer.le
    · exact equal.le
  -- the lesser number is on the upper side of the middle and the greater one on the lower side
  have above : format.amount other + format.amount bits ≤ 2 * amount := by
    rcases abs_cases (amount - format.amount bits) with ⟨first, _⟩ | ⟨first, _⟩ <;>
      rcases abs_cases (amount - format.amount other) with ⟨second, _⟩ | ⟨second, _⟩ <;>
      linarith
  have below : 2 * greater ≤ format.amount other + format.amount bits := by
    rcases abs_cases (greater - format.amount bits) with ⟨first, _⟩ | ⟨first, _⟩ <;>
      rcases abs_cases (greater - format.amount other) with ⟨second, _⟩ | ⟨second, _⟩ <;>
      linarith
  obtain rfl : amount = greater := le_antisymm ordered (by linarith)
  exact otherNearest.not_lt nearest less

/-- The nearest pattern is a finite one below the middle between the largest finite number and the power of
two that follows it. -/
theorem IsNearest.lt_infinity_iff {amount : ℚ} {bits last : Nat}
    (nearest : format.IsNearest amount bits) (next : format.infinity = last + 1)
    (even : format.infinity % 2 = 0) :
    bits < format.infinity ↔
      amount < (format.amount last + format.amount format.infinity) / 2 := by
  have top : format.amount last < format.amount format.infinity :=
    format.amount_strictMono (by omega)
  constructor
  · intro finite
    by_contra beyond
    have order : format.amount bits ≤ format.amount last :=
      format.amount_strictMono.monotone (by omega)
    have far : |amount - format.amount format.infinity| ≤ amount - format.amount last := by
      rcases abs_cases (amount - format.amount format.infinity) with ⟨same, _⟩ | ⟨same, _⟩ <;>
        linarith
    have whole : amount - format.amount last ≤ |amount - format.amount bits| :=
      le_trans (by linarith) (le_abs_self _)
    rcases nearest.2 format.infinity le_rfl finite.ne' with closer | ⟨equal, evenBits⟩
    · linarith
    · have lower : format.amount bits < format.amount last :=
        format.amount_strictMono (by omega)
      have strict : amount - format.amount last < |amount - format.amount bits| :=
        lt_of_lt_of_le (by linarith) (le_abs_self _)
      linarith
  · intro below
    by_contra infinite
    obtain rfl : bits = format.infinity := Nat.le_antisymm nearest.1 (Nat.not_lt.mp infinite)
    have near : |amount - format.amount format.infinity| ≤ |amount - format.amount last| := by
      rcases nearest.2 last (by omega) (by omega) with closer | ⟨equal, -⟩
      · exact closer.le
      · exact equal.le
    rcases abs_cases (amount - format.amount format.infinity) with ⟨first, _⟩ | ⟨first, _⟩ <;>
      rcases abs_cases (amount - format.amount last) with ⟨second, _⟩ | ⟨second, _⟩ <;>
      linarith

/-- The finite pattern whose number is nearest to the given one; of two that are equally near, the even
one. -/
def IsNearestFinite (format : Format) (amount : ℚ) (bits : Nat) : Prop :=
  bits < format.infinity ∧ ∀ other < format.infinity, other ≠ bits →
    |amount - format.amount bits| < |amount - format.amount other| ∨
      |amount - format.amount bits| = |amount - format.amount other| ∧ bits % 2 = 0

theorem IsNearest.isNearestFinite {amount : ℚ} {bits : Nat} (nearest : format.IsNearest amount bits)
    (finite : bits < format.infinity) : format.IsNearestFinite amount bits :=
  ⟨finite, fun other otherFinite => nearest.2 other otherFinite.le⟩

/-- A pattern is the nearest one if its neighbours are a whole unit away and it is off by half a unit at
most.  The neighbour below may be closer if the amount is not on its side. -/
private theorem isNearest_of_neighbours {amount : ℚ} (half : ℚ) {bits : Nat}
    (near : |amount - format.amount bits| ≤ half)
    (tie : |amount - format.amount bits| = half → bits % 2 = 0)
    (after : format.amount bits + 2 * half ≤ format.amount (bits + 1))
    (before : ∀ other, other + 1 = bits →
      format.amount other + 2 * half ≤ format.amount bits ∨ format.amount bits ≤ amount) :
    format.IsNearest amount (min bits format.infinity) := by
  have monotone := format.amount_strictMono.monotone
  obtain ⟨low, high⟩ := abs_le.mp near
  have compare : ∀ other, half ≤ |amount - format.amount other| →
      |amount - format.amount bits| < |amount - format.amount other| ∨
        |amount - format.amount bits| = |amount - format.amount other| ∧ bits % 2 = 0 := by
    intro other far
    rcases (near.trans far).lt_or_eq with less | same
    · exact Or.inl less
    · exact Or.inr ⟨same, tie (le_antisymm near (same ▸ far))⟩
  rcases Nat.lt_or_ge format.infinity bits with beyond | inside
  · obtain ⟨last, rfl⟩ := Nat.exists_eq_succ_of_ne_zero (Nat.ne_zero_of_lt beyond)
    have reached : format.amount format.infinity ≤ amount := by
      have order := monotone (Nat.le_of_lt_succ beyond)
      have strict := format.amount_strictMono (Nat.lt_succ_self last)
      have nonneg : 0 ≤ half := (abs_nonneg _).trans near
      rcases before last rfl with unit | side <;> linarith
    rw [min_eq_right beyond.le]
    refine ⟨le_rfl, fun other bound different => Or.inl ?_⟩
    have farther := format.amount_strictMono (lt_of_le_of_ne bound different)
    rw [abs_of_nonneg (by linarith), abs_of_nonneg (by linarith)]
    linarith
  · rw [min_eq_left inside]
    refine ⟨inside, fun other _ different => ?_⟩
    rcases Nat.lt_or_gt_of_ne different with less | more
    · obtain ⟨last, rfl⟩ := Nat.exists_eq_succ_of_ne_zero (Nat.ne_zero_of_lt less)
      have order := monotone (Nat.le_of_lt_succ less)
      have strict := format.amount_strictMono (Nat.lt_succ_self last)
      rcases before last rfl with unit | side
      · refine compare other (le_trans ?_ (le_abs_self _))
        linarith
      · left
        rw [abs_of_nonneg (by linarith), abs_of_nonneg (by linarith)]
        linarith
    · have order := monotone (Nat.succ_le_of_lt more)
      refine compare other (le_trans ?_ (neg_le_abs _))
      linarith

section Rounded

variable {steps mantissa : Nat} {amount : ℚ}

/-- The pattern after one with a mantissa is a whole unit further on at least. -/
private theorem le_amount_succ (bound : mantissa ≤ 2 * 2 ^ format.fractionBits)
    (normal : steps = 0 ∨ 2 ^ format.fractionBits ≤ mantissa) :
    (mantissa + 1) * 2 ^ (format.minExponent + steps) ≤
      format.amount (steps * 2 ^ format.fractionBits + mantissa + 1) := by
  have unit_pos : (0 : ℚ) < 2 ^ (format.minExponent + steps) := by positivity
  rcases Nat.lt_or_ge mantissa (2 * 2 ^ format.fractionBits) with inside | top
  · rw [Nat.add_assoc, amount_eq inside (by omega)]
    push_cast
    exact le_rfl
  · obtain rfl : mantissa = 2 * 2 ^ format.fractionBits := Nat.le_antisymm bound top
    have place : steps * 2 ^ format.fractionBits + 2 * 2 ^ format.fractionBits + 1 =
        (steps + 1) * 2 ^ format.fractionBits + (2 ^ format.fractionBits + 1) := by
      ring
    have power : (2 : ℚ) ^ (format.minExponent + (steps + 1 : Nat)) =
        2 * 2 ^ (format.minExponent + steps) := by
      rw [Nat.cast_succ, ← add_assoc, zpow_add_one₀ two_ne_zero, mul_comm]
    have base_pos := Nat.two_pow_pos format.fractionBits
    rw [place, amount_eq (by omega) (by omega), power]
    push_cast
    linarith

/-- The pattern before one with a mantissa is a whole unit back, unless the mantissa is that of a power of
two. -/
private theorem amount_pred (bits : Nat) (bound : mantissa ≤ 2 * 2 ^ format.fractionBits)
    (normal : steps = 0 ∨ 2 ^ format.fractionBits ≤ mantissa)
    (place : bits + 1 = steps * 2 ^ format.fractionBits + mantissa) :
    format.amount bits = (mantissa - 1) * 2 ^ (format.minExponent + steps) ∨
      steps ≠ 0 ∧ mantissa = 2 ^ format.fractionBits := by
  by_cases power : steps ≠ 0 ∧ mantissa = 2 ^ format.fractionBits
  · exact Or.inr power
  · have mantissa_pos : 0 < mantissa := by
      have := Nat.two_pow_pos format.fractionBits
      rcases normal with rfl | high <;> omega
    obtain ⟨rest, rfl⟩ := Nat.exists_eq_succ_of_ne_zero mantissa_pos.ne'
    obtain rfl : bits = steps * 2 ^ format.fractionBits + rest := by omega
    rw [amount_eq (by omega) (by omega)]
    left
    push_cast
    ring

/-- Rounding an amount to a mantissa gives the nearest pattern. -/
theorem isNearest_rounded (wide : 1 < format.precision)
    (bound : mantissa ≤ 2 * 2 ^ format.fractionBits)
    (normal : steps = 0 ∨ 2 ^ format.fractionBits ≤ mantissa)
    (close : |amount / 2 ^ (format.minExponent + steps) - mantissa| ≤ 1 / 2)
    (tie : |amount / 2 ^ (format.minExponent + steps) - mantissa| = 1 / 2 → mantissa % 2 = 0)
    (large : steps = 0 ∨ (2 ^ format.fractionBits : ℚ) ≤ amount / 2 ^ (format.minExponent + steps)) :
    format.IsNearest amount
      (min (steps * 2 ^ format.fractionBits + mantissa) format.infinity) := by
  have unit_pos : (0 : ℚ) < 2 ^ (format.minExponent + steps) := by positivity
  have here := amount_eq bound normal
  have after := le_amount_succ bound normal
  have before := fun bits => amount_pred bits bound normal
  have distance : |amount - mantissa * 2 ^ (format.minExponent + steps)| =
      |amount / 2 ^ (format.minExponent + steps) - mantissa| * 2 ^ (format.minExponent + steps) := by
    rw [← abs_of_pos unit_pos, ← abs_mul, abs_of_pos unit_pos, sub_mul,
      div_mul_cancel₀ _ unit_pos.ne']
  refine isNearest_of_neighbours (1 / 2 * 2 ^ (format.minExponent + (steps : Int))) ?_ ?_ ?_ ?_
  · rw [here, distance]
    exact mul_le_mul_of_nonneg_right close unit_pos.le
  · intro same
    rw [here, distance] at same
    have evenMantissa := tie (mul_right_cancel₀ unit_pos.ne' same)
    have some_bits : format.fractionBits = format.fractionBits - 1 + 1 := by
      have : 0 < format.fractionBits := Nat.sub_pos_of_lt wide
      omega
    rw [some_bits, pow_succ, ← mul_assoc]
    omega
  · rw [here]
    linarith
  · intro bits place
    rw [here]
    rcases before bits place with back | ⟨positive, rfl⟩
    · left
      linarith
    · right
      have above := large.resolve_left positive
      rw [le_div_iff₀ unit_pos] at above
      exact_mod_cast above

end Rounded

/-! ## Rounding fractions -/

/-- A fraction in units of a power of two. -/
def inUnits (num den : Nat) : Int → Nat × Nat
  | .ofNat places => (num, den <<< places)
  | .negSucc places => (num <<< (places + 1), den)

/-- Whether a fraction has no more units than a mantissa can hold. -/
def fitsUnit (format : Format) (num den : Nat) (unit : Int) : Bool :=
  (inUnits num den unit).1 < (inUnits num den unit).2 <<< format.precision

/-- The least unit that is tried. -/
def leastUnit (format : Format) (num den : Nat) : Int :=
  max ((Nat.log2 num : Int) - Nat.log2 den - format.precision) format.minExponent

/-- The unit that a fraction is rounded in. -/
def unitOf (format : Format) (num den : Nat) : Int :=
  if format.fitsUnit num den (format.leastUnit num den) then format.leastUnit num den
  else if format.fitsUnit num den (format.leastUnit num den + 1) then format.leastUnit num den + 1
  else format.leastUnit num den + 2

/-- The mantissa that a fraction is rounded to. -/
def mantissaOf (format : Format) (num den : Nat) : Nat :=
  roundDiv (inUnits num den (format.unitOf num den)).1 (inUnits num den (format.unitOf num den)).2

section Fraction

variable {num den : Nat}

theorem inUnits_eq (num : Nat) (positive : 0 < den) (unit : Int) :
    0 < (inUnits num den unit).2 ∧
      ((inUnits num den unit).1 / (inUnits num den unit).2 : ℚ) = num / den / 2 ^ unit := by
  cases unit with
  | ofNat places =>
      refine ⟨by simpa [inUnits, Nat.shiftLeft_eq] using positive, ?_⟩
      simp [inUnits, Nat.shiftLeft_eq, div_div]
  | negSucc places =>
      refine ⟨positive, ?_⟩
      simp [inUnits, Nat.shiftLeft_eq, zpow_negSucc]
      ring

theorem fitsUnit_iff (format : Format) (num : Nat) (positive : 0 < den) (unit : Int) :
    format.fitsUnit num den unit = true ↔
      (num / den / 2 ^ unit : ℚ) < 2 ^ format.precision := by
  obtain ⟨units_pos, units_eq⟩ := inUnits_eq num positive unit
  have cast_pos : (0 : ℚ) < (inUnits num den unit).2 := by exact_mod_cast units_pos
  rw [← units_eq, div_lt_iff₀ cast_pos, fitsUnit, decide_eq_true_iff, Nat.shiftLeft_eq,
    ← Nat.cast_lt (α := ℚ)]
  push_cast
  rw [mul_comm]

/-- The leading bits of numerator and denominator bound a fraction from both sides. -/
theorem log2_bounds (num_pos : num ≠ 0) (den_pos : den ≠ 0) :
    (2 : ℚ) ^ ((Nat.log2 num : Int) - Nat.log2 den - 1) < num / den ∧
      (num / den : ℚ) < 2 ^ ((Nat.log2 num : Int) - Nat.log2 den + 1) := by
  have numLow : (2 : ℚ) ^ num.log2 ≤ num := by exact_mod_cast Nat.log2_self_le num_pos
  have numHigh : (num : ℚ) < 2 ^ (num.log2 + 1) := by exact_mod_cast Nat.lt_log2_self
  have denLow : (2 : ℚ) ^ den.log2 ≤ den := by exact_mod_cast Nat.log2_self_le den_pos
  have denHigh : (den : ℚ) < 2 ^ (den.log2 + 1) := by exact_mod_cast Nat.lt_log2_self
  have den_pos' : (0 : ℚ) < den := by positivity
  constructor
  · rw [lt_div_iff₀ den_pos']
    calc (2 : ℚ) ^ ((Nat.log2 num : Int) - Nat.log2 den - 1) * den
        < 2 ^ ((Nat.log2 num : Int) - Nat.log2 den - 1) * 2 ^ (den.log2 + 1) := by gcongr
      _ = 2 ^ num.log2 := by
          rw [← zpow_natCast, ← zpow_add₀ two_ne_zero, ← zpow_natCast]
          congr 1
          push_cast
          ring
      _ ≤ num := numLow
  · rw [div_lt_iff₀ den_pos']
    calc (num : ℚ) < 2 ^ (num.log2 + 1) := numHigh
      _ = 2 ^ ((Nat.log2 num : Int) - Nat.log2 den + 1) * 2 ^ den.log2 := by
          rw [← zpow_natCast, ← zpow_natCast, ← zpow_add₀ two_ne_zero]
          congr 1
          push_cast
          ring
      _ ≤ 2 ^ ((Nat.log2 num : Int) - Nat.log2 den + 1) * den := by gcongr

/-- The unit is the least one in which the mantissa is not too large. -/
theorem unitOf_spec (format : Format) (num_pos : num ≠ 0) (den_pos : den ≠ 0) :
    format.minExponent ≤ format.unitOf num den ∧
      (num / den / 2 ^ format.unitOf num den : ℚ) < 2 ^ format.precision ∧
      (format.unitOf num den = format.minExponent ∨
        (2 ^ format.precision : ℚ) ≤ 2 * (num / den / 2 ^ format.unitOf num den)) := by
  obtain ⟨low, high⟩ := log2_bounds num_pos den_pos
  have positive := Nat.pos_of_ne_zero den_pos
  have guess_eq : format.leastUnit num den =
      max ((Nat.log2 num : Int) - Nat.log2 den - format.precision) format.minExponent := rfl
  have fits := format.fitsUnit_iff num positive
  rw [unitOf]
  generalize format.leastUnit num den = guess at *
  generalize (num / den : ℚ) = amount at *
  have next : amount / 2 ^ guess = 2 * (amount / 2 ^ (guess + 1)) := by
    rw [zpow_add_one₀ two_ne_zero]
    field_simp
  by_cases first : format.fitsUnit num den guess
  · rw [if_pos first]
    refine ⟨by omega, (fits guess).mp first, ?_⟩
    by_cases least : guess = format.minExponent
    · exact Or.inl least
    · right
      have place : guess = (Nat.log2 num : Int) - Nat.log2 den - format.precision := by omega
      have leading : (2 : ℚ) ^ format.precision * 2 ^ guess =
          2 * 2 ^ ((Nat.log2 num : Int) - Nat.log2 den - 1) := by
        rw [← zpow_natCast, ← zpow_add₀ two_ne_zero, ← zpow_one_add₀ two_ne_zero, place]
        congr 1
        ring
      rw [← mul_div_assoc, le_div_iff₀ (by positivity), leading]
      linarith
  · rw [if_neg first]
    have large : (2 : ℚ) ^ format.precision ≤ amount / 2 ^ guess :=
      not_lt.mp (mt (fits guess).mpr first)
    have second : format.fitsUnit num den (guess + 1) = true := by
      rw [fits, div_lt_iff₀ (by positivity), ← zpow_natCast, ← zpow_add₀ two_ne_zero]
      refine high.trans_le (zpow_le_zpow_right₀ one_le_two ?_)
      omega
    rw [if_pos second]
    exact ⟨by omega, (fits (guess + 1)).mp second, Or.inr (next ▸ large)⟩

/-- The mantissa of a fraction fits its place, and is off by half a unit at most. -/
theorem mantissaOf_spec (format : Format) (leading : 0 < format.precision) (num_pos : num ≠ 0)
    (den_pos : den ≠ 0) :
    format.mantissaOf num den ≤ 2 * 2 ^ format.fractionBits ∧
      (format.unitOf num den = format.minExponent ∨
        2 ^ format.fractionBits ≤ format.mantissaOf num den) ∧
      |(num / den / 2 ^ format.unitOf num den : ℚ) - format.mantissaOf num den| ≤ 1 / 2 ∧
      (|(num / den / 2 ^ format.unitOf num den : ℚ) - format.mantissaOf num den| = 1 / 2 →
        format.mantissaOf num den % 2 = 0) := by
  obtain ⟨-, small, large⟩ := format.unitOf_spec num_pos den_pos
  obtain ⟨units_pos, units_eq⟩ :=
    inUnits_eq num (Nat.pos_of_ne_zero den_pos) (format.unitOf num den)
  have rounded := abs_sub_roundDiv_le (inUnits num den (format.unitOf num den)).1 units_pos
  have base : (2 : ℚ) ^ format.precision = 2 * 2 ^ format.fractionBits := by
    rw [← pow_succ', fractionBits, Nat.sub_add_cancel leading]
  rw [units_eq] at rounded
  rw [base] at small large
  change _ ∧ _ ∧ _ ∧ _
  rw [mantissaOf]
  generalize (num / den / 2 ^ format.unitOf num den : ℚ) = amount at *
  generalize roundDiv _ _ = mantissa at *
  obtain ⟨low, high⟩ := abs_le.mp rounded.1
  refine ⟨?_, large.imp_right fun above => ?_, rounded⟩
  · have bound : (mantissa : ℚ) < (2 * 2 ^ format.fractionBits + 1 : Nat) := by
      push_cast
      linarith
    exact Nat.le_of_lt_succ (by exact_mod_cast bound)
  · have bound : ((2 ^ format.fractionBits : Nat) : ℚ) < (mantissa + 1 : Nat) := by
      push_cast
      linarith
    exact Nat.le_of_lt_succ (by exact_mod_cast bound)

/-- The pattern of a rounded fraction. -/
theorem nearest_eq (leading : 0 < format.precision) (exponents : 0 < format.exponentBits)
    (num_pos : num ≠ 0) (den_pos : den ≠ 0) :
    format.nearest num den =
      min ((format.unitOf num den - format.minExponent).toNat * 2 ^ format.fractionBits +
        format.mantissaOf num den) format.infinity := by
  obtain ⟨bound, normal, -, -⟩ := format.mantissaOf_spec leading num_pos den_pos
  obtain ⟨least, -, -⟩ := format.unitOf_spec num_pos den_pos
  have unfolded : format.nearest num den =
      let rounded := format.mantissaOf num den
      let unit := format.unitOf num den
      let settled :=
        if rounded == 1 <<< format.precision then (1 <<< format.fractionBits, unit + 1)
        else (rounded, unit)
      if settled.1 < 1 <<< format.fractionBits then settled.1
      else
        let biased := (settled.2 - format.minExponent).toNat + 1
        if (1 <<< format.exponentBits) - 1 ≤ biased then format.infinity
        else (biased <<< format.fractionBits) + (settled.1 - (1 <<< format.fractionBits)) := by
    rw [nearest, if_neg (by simpa using num_pos)]
    rfl
  have doubled : 2 ^ format.precision = 2 * 2 ^ format.fractionBits := by
    rw [← pow_succ', fractionBits, Nat.sub_add_cancel leading]
  have infinity_eq : format.infinity = (2 ^ format.exponentBits - 1) * 2 ^ format.fractionBits := by
    simp [infinity, Nat.shiftLeft_eq]
  have some_exponent : 1 ≤ 2 ^ format.exponentBits - 1 := by
    have := Nat.one_lt_two_pow exponents.ne'
    omega
  obtain ⟨steps, unit_eq⟩ := Int.eq_ofNat_of_zero_le (sub_nonneg.mpr least)
  have later : (format.unitOf num den + 1 - format.minExponent).toNat = steps + 1 := by omega
  have first : format.unitOf num den = format.minExponent ↔ steps = 0 := by omega
  rw [first] at normal
  rw [unfolded, infinity_eq]
  simp only [Nat.shiftLeft_eq, one_mul, doubled, beq_iff_eq]
  rw [unit_eq, Int.toNat_natCast]
  generalize 2 ^ format.fractionBits = base at *
  generalize format.mantissaOf num den = mantissa at *
  generalize 2 ^ format.exponentBits - 1 = top at *
  -- a mantissa at the upper end is the lower end of the next unit
  by_cases full : mantissa = 2 * base
  · have place : steps * base + mantissa = (steps + 1 + 1) * base := by
      rw [full]
      ring
    simp only [full, if_true, Nat.lt_irrefl, if_false, later, Nat.sub_self, Nat.add_zero]
    rw [← full, place]
    split
    · rename_i beyond
      exact (min_eq_right (Nat.mul_le_mul_right base beyond)).symm
    · rename_i inside
      exact (min_eq_left (Nat.mul_le_mul_right base (by omega))).symm
  · simp only [full, if_false, unit_eq, Int.toNat_natCast]
    rcases Nat.lt_or_ge mantissa base with low | high
    · obtain rfl : steps = 0 := normal.resolve_right (Nat.not_le.mpr low)
      have reached : base ≤ top * base := Nat.le_mul_of_pos_left base some_exponent
      rw [if_pos low]
      omega
    · obtain ⟨rest, rfl⟩ := Nat.exists_eq_add_of_le high
      have place : steps * base + (base + rest) = (steps + 1) * base + rest := by ring
      rw [if_neg (Nat.not_lt.mpr high), Nat.add_sub_cancel_left, place]
      split
      · rename_i beyond
        exact (min_eq_right ((Nat.mul_le_mul_right base beyond).trans (Nat.le_add_right _ _))).symm
      · rename_i inside
        have room : (steps + 1 + 1) * base ≤ top * base := Nat.mul_le_mul_right base (by omega)
        rw [min_eq_left]
        rw [Nat.succ_mul] at room
        omega

/-- The pattern of a rounded fraction is the nearest one. -/
theorem isNearest_nearest (format : Format) (wide : 1 < format.precision)
    (exponents : 0 < format.exponentBits) (num : Nat) (den_pos : den ≠ 0) :
    format.IsNearest (num / den) (format.nearest num den) := by
  have leading : 0 < format.precision := by omega
  rcases Nat.eq_zero_or_pos num with rfl | num_pos
  · have zero : format.IsNearest 0 (min (0 * 2 ^ format.fractionBits + 0) format.infinity) :=
      isNearest_rounded wide (Nat.zero_le _) (Or.inl rfl) (by norm_num) (fun _ => rfl) (Or.inl rfl)
    have result : format.nearest 0 den = 0 := by simp [nearest]
    rw [result]
    simpa using zero
  · obtain ⟨bound, normal, close, tie⟩ := format.mantissaOf_spec leading num_pos.ne' den_pos
    obtain ⟨least, -, large⟩ := format.unitOf_spec num_pos.ne' den_pos
    obtain ⟨steps, unit_eq⟩ := Int.eq_ofNat_of_zero_le (sub_nonneg.mpr least)
    have place : format.unitOf num den = format.minExponent + steps := by omega
    have first : format.unitOf num den = format.minExponent ↔ steps = 0 := by omega
    have doubled : (2 : ℚ) ^ format.precision = 2 * 2 ^ format.fractionBits := by
      rw [← pow_succ', fractionBits, Nat.sub_add_cancel leading]
    rw [first] at normal large
    rw [place] at close tie large
    rw [nearest_eq leading exponents num_pos.ne' den_pos, unit_eq, Int.toNat_natCast]
    refine isNearest_rounded wide bound normal close tie (large.imp_right fun above => ?_)
    linarith

/-- Every number that is not negative has a nearest pattern. -/
theorem exists_isNearest (format : Format) (wide : 1 < format.precision)
    (exponents : 0 < format.exponentBits) {amount : ℚ} (nonneg : 0 ≤ amount) :
    ∃ bits, format.IsNearest amount bits := by
  have quotient : ((amount.num.toNat : Nat) / amount.den : ℚ) = amount := by
    have same : ((amount.num.toNat : Nat) : ℚ) = amount.num := by
      exact_mod_cast Int.toNat_of_nonneg (Rat.num_nonneg.mpr nonneg)
    rw [same, Rat.num_div_den]
  exact ⟨_, quotient ▸ format.isNearest_nearest wide exponents amount.num.toNat amount.den_nz⟩

end Fraction

end Format
end Decimal
end MacroHost
