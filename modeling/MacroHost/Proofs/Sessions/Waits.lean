import MacroHost.Proofs.Decimal.Doubles
import MacroHost.Sessions.Runner

/-!
# How long a script is made to wait

A wait is rounded to whole nanoseconds and is never longer than the runner allows.  To ask for a longer
wait does not give a shorter one, unless the script asks to wait forever: that is not waited at all.
-/

namespace MacroHost

namespace Decimal

/-- Rounding keeps the order of quotients. -/
theorem roundDiv_mono {num den other otherDen : Nat} (den_pos : 0 < den) (otherDen_pos : 0 < otherDen)
    (ordered : (num / den : ℚ) ≤ other / otherDen) : roundDiv num den ≤ roundDiv other otherDen := by
  obtain ⟨near, tie⟩ := abs_sub_roundDiv_le num den_pos
  obtain ⟨otherNear, otherTie⟩ := abs_sub_roundDiv_le other otherDen_pos
  by_contra reversed
  have apart : (roundDiv other otherDen + 1 : ℚ) ≤ roundDiv num den := by
    exact_mod_cast Nat.succ_le_of_lt (Nat.not_le.mp reversed)
  obtain ⟨low, -⟩ := abs_le.mp near
  obtain ⟨-, high⟩ := abs_le.mp otherNear
  -- both quotients lie in the middle between neighbours, of which only one is even
  have middle : (num / den : ℚ) - roundDiv num den = -(1 / 2) := by linarith
  have otherMiddle : (other / otherDen : ℚ) - roundDiv other otherDen = 1 / 2 := by linarith
  have neighbours : roundDiv num den = roundDiv other otherDen + 1 := by
    have next : (roundDiv num den : ℚ) = roundDiv other otherDen + 1 := by linarith
    exact_mod_cast next
  have even := tie (by rw [middle]; norm_num)
  have otherEven := otherTie (by rw [otherMiddle]; norm_num)
  omega

theorem fraction_snd_pos (mantissa : Nat) (exponent : Int) :
    0 < (Format.fraction mantissa exponent).2 := by
  cases exponent with
  | ofNat places => exact Nat.one_pos
  | negSucc places => simp [Format.fraction, Nat.shiftLeft_eq]

end Decimal

namespace Sessions
namespace Runner

variable {runner : Runner} {seconds longer : Float}

theorem waitTime_le (runner : Runner) (seconds : Float) : runner.waitTime seconds ≤ runner.maxWait := by
  rw [waitTime]
  split
  · exact Nat.zero_le _
  · exact Nat.min_le_right _ _

theorem waitTime_of_not_finite (unbounded : seconds.isFinite = false) : runner.waitTime seconds = 0 := by
  simp [waitTime, unbounded]

theorem waitTime_of_le_zero (nonpos : seconds ≤ 0) : runner.waitTime seconds = 0 := by
  simp [waitTime, nonpos]

theorem waitTime_of_pos (finite : seconds.isFinite = true) (positive : ¬seconds ≤ 0) :
    runner.waitTime seconds =
      min (Decimal.roundDiv ((Decimal.exact seconds).2.1 * 1000000000) (Decimal.exact seconds).2.2)
        runner.maxWait := by
  simp [waitTime, finite, positive]

theorem waitTime_mono_of_pos (finite : seconds.isFinite = true) (positive : ¬seconds ≤ 0)
    (longerFinite : longer.isFinite = true) (longerPositive : ¬longer ≤ 0) (ordered : seconds ≤ longer) :
    runner.waitTime seconds ≤ runner.waitTime longer := by
  rw [waitTime_of_pos finite positive, waitTime_of_pos longerFinite longerPositive]
  refine min_le_min_right runner.maxWait (Decimal.roundDiv_mono (Decimal.fraction_snd_pos _ _)
    (Decimal.fraction_snd_pos _ _) ?_)
  have amounts := Decimal.amount_mono finite positive longerFinite longerPositive ordered
  have scaled := mul_le_mul_of_nonneg_right amounts (by norm_num : (0 : ℚ) ≤ 1000000000)
  rw [Decimal.Format.amount, Decimal.Format.amount, div_mul_eq_mul_div, div_mul_eq_mul_div] at scaled
  rw [Nat.cast_mul, Nat.cast_mul]
  exact_mod_cast scaled

theorem waitTime_mono (ordered : seconds ≤ longer) (bounded : ¬(0 < longer ∧ longer.isInf = true)) :
    runner.waitTime seconds ≤ runner.waitTime longer := by
  by_cases finite : seconds.isFinite = true
  · by_cases nonpos : seconds ≤ 0
    · rw [waitTime_of_le_zero nonpos]
      exact Nat.zero_le _
    · obtain ⟨above, positive, known⟩ := Decimal.pos_of_le finite nonpos ordered
      have longerFinite := known.resolve_right fun infinite => bounded ⟨above, infinite⟩
      exact waitTime_mono_of_pos finite nonpos longerFinite positive ordered
  · rw [waitTime_of_not_finite (Bool.eq_false_iff.mpr finite)]
    exact Nat.zero_le _

/-- No wait is longer than the runner allows, what is not a positive finite number of seconds is not
waited, and up to that a longer wait never takes a shorter time. -/
theorem waits_are_bounded_and_ordered (runner : Runner) :
    (∀ seconds : Float, runner.waitTime seconds ≤ runner.maxWait) ∧
    (∀ seconds : Float, seconds.isFinite = false ∨ seconds ≤ 0 → runner.waitTime seconds = 0) ∧
    ∀ seconds longer : Float, seconds ≤ longer → ¬(0 < longer ∧ longer.isInf = true) →
      runner.waitTime seconds ≤ runner.waitTime longer :=
  ⟨runner.waitTime_le, fun _ none => none.elim waitTime_of_not_finite waitTime_of_le_zero,
    fun _ _ => waitTime_mono⟩

/-- Positive infinity, as the pattern that stands for it. -/
def forever : Float := Float.ofBits 0x7ff0000000000000

/-- To wait for a second takes longer than to wait forever. -/
theorem forever_is_shorter : (1 : Float) ≤ forever ∧
    ({} : Runner).waitTime forever < ({} : Runner).waitTime 1 := by
  decide +kernel

end Runner
end Sessions
end MacroHost
