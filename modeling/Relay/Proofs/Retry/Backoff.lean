import Relay.Proofs.Number.Whole
import Relay.Retry.Policy

/-! How long the waits between attempts are. They grow by a whole factor from the initial interval up to the
    greatest one, without a trace of the rounding that they are computed with: the limit hides it. Only where the
    initial interval is zero and the factor by itself grows beyond all numbers does that show
    (`RetryPolicy.delay_formula`). -/

namespace Relay
namespace RetryPolicy
open Binary64 (StandsFor)
variable {p : RetryPolicy} {M k : Nat}

/-- By how much the wait after an attempt is longer than the first one, as it is computed. -/
def growth (p : RetryPolicy) (k : Nat) : Binary64 := p.multiplier.pow (Nat.min (k - 1) maxPower)

theorem delay_eq (hk : 0 < k) : p.delay k =
    ((Binary64.ofNat p.initialInterval * p.growth k).min (.ofNat p.maxInterval)).toNatUpTo maxWait :=
  if_neg (Nat.pos_iff_ne_zero.mp hk)

theorem validate_ok (h : p.validate = .ok ()) :
    Binary64.le .one p.multiplier = true ∧ p.initialInterval ≤ p.maxInterval := by
  unfold validate at h
  split at h
  · cases h
  · split at h
    · cases h
    · rename_i hm
      split at h
      · cases h
      · rename_i hi
        simp only [Bool.not_eq_true', Bool.not_eq_false, Bool.and_eq_true] at hm
        exact ⟨hm.2, Nat.le_of_not_lt hi⟩

theorem multiplier_pos (h : p.validate = .ok ()) (hM : p.multiplier.Is M) : 0 < M := by
  have hle := (Binary64.one_is.le_iff hM).mp (validate_ok h).1
  exact_mod_cast hle

theorem growth_standsFor (hM : p.multiplier.Is M) (hpos : 0 < M) : (p.growth k).StandsFor (M ^ (k - 1)) := by
  have hpow : (p.growth k).StandsFor (M ^ Nat.min (k - 1) maxPower) := (StandsFor.of_is hM).pow hpos
  -- The greatest exponent that is used makes all but one great enough.
  rcases Nat.le_total (k - 1) maxPower with hle | hge
  · rwa [show Nat.min (k - 1) maxPower = k - 1 from Nat.min_eq_left hle] at hpow
  · rw [show Nat.min (k - 1) maxPower = maxPower from Nat.min_eq_right hge] at hpow
    rcases Nat.lt_or_ge M 2 with hone | htwo
    · obtain rfl : M = 1 := by omega
      simpa using hpow
    · have hbig : 2 ^ 53 ≤ M ^ maxPower :=
        calc 2 ^ 53 ≤ 2 ^ maxPower := Nat.pow_le_pow_right Nat.two_pos (by decide)
          _ ≤ M ^ maxPower := Nat.pow_le_pow_left htwo _
      refine .beyond (hbig.trans (Nat.pow_le_pow_right hpos hge)) ?_
      exact_mod_cast hpow.atLeast hbig le_rfl

theorem maxInterval_is (hm : p.maxInterval < 2 ^ 53) : (Binary64.ofNat p.maxInterval).Is p.maxInterval :=
  Binary64.ofNat_is hm.le

theorem le_maxWait {n : Nat} (hm : p.maxInterval < 2 ^ 53) (h : n ≤ p.maxInterval) : n ≤ maxWait :=
  calc n ≤ 2 ^ 53 := h.trans hm.le
    _ ≤ maxWait := by decide

theorem delay_of_pos (hv : p.validate = .ok ()) (hM : p.multiplier.Is M) (hm : p.maxInterval < 2 ^ 53) (hk : 0 < k)
    (hi : 0 < p.initialInterval) : p.delay k = min (p.initialInterval * M ^ (k - 1)) p.maxInterval := by
  have hpos := multiplier_pos hv hM
  have hi' : p.initialInterval ≤ 2 ^ 53 := (validate_ok hv).2.trans hm.le
  have hgrown := (StandsFor.of_is (Binary64.ofNat_is hi')).mul (growth_standsFor (k := k) hM hpos) hi (Nat.pow_pos hpos)
  rw [delay_eq hk]
  exact (hgrown.min_is (maxInterval_is hm) hm).toNatUpTo_eq (le_maxWait hm (Nat.min_le_right _ _))

/-- Without an initial interval there is no wait, unless the factor is beyond all numbers. -/
theorem delay_of_zero (hv : p.validate = .ok ()) (hM : p.multiplier.Is M) (hm : p.maxInterval < 2 ^ 53) (hk : 0 < k)
    (hi : p.initialInterval = 0) : p.delay k = if (p.growth k).isFinite then 0 else p.maxInterval := by
  have hpos := multiplier_pos hv hM
  have hmax := maxInterval_is hm
  have hgrowth : p.growth k = .infinite false ∨ ∃ a, (p.growth k).Is a := by
    cases growth_standsFor (k := k) hM hpos with
    | exact _ h => exact .inr ⟨_, h⟩
    | beyond _ h => exact h.imp id fun ⟨b, hb, _⟩ => ⟨b, hb⟩
  rw [delay_eq hk, hi]
  rcases hgrowth with h | ⟨a, m, e, h, -⟩
  · -- Zero times infinity is no number, and the limit is what remains.
    rw [h]
    have hno : Binary64.ofNat 0 * .infinite false = .nan := rfl
    rw [hno]
    exact hmax.toNatUpTo_eq (le_maxWait hm le_rfl)
  · have hzero : (Binary64.ofNat 0 * p.growth k).Is (0 : Nat) := by
      obtain ⟨num, den, hd, hq, he⟩ := (Binary64.ofNat_is (n := 0) (by decide)).mul_eq ⟨m, e, h, rfl⟩
      rw [he]
      exact Binary64.ofRatio_is hd (.of_le (by decide)) (by positivity) (by simpa using hq)
    have hmin := (StandsFor.of_is hzero).min_is hmax hm
    rw [Nat.zero_min] at hmin
    have hfinite : (p.growth k).isFinite = true := by
      rw [h]
      rfl
    rw [hfinite, if_pos rfl]
    exact hmin.toNatUpTo_eq (Nat.zero_le _)

theorem growth_finite {c : Nat} (hM : p.multiplier.Is M) (hc : M ≤ 2 ^ c) (h : c * (k - 1) < 1024) :
    (p.growth k).isFinite = true := by
  refine Binary64.pow_finite (c := c) ⟨M, hM, by exact_mod_cast hc⟩ (Nat.lt_of_le_of_lt ?_ h)
  exact Nat.mul_le_mul_left c (Nat.min_le_left _ _)

theorem growth_infinite (hM : p.multiplier.Is M) (hM' : 2 ≤ M) (hk : 1024 < k) : p.growth k = .infinite false := by
  refine Binary64.pow_infinite (.inr ⟨M, hM, by exact_mod_cast hM'⟩) ?_
  exact Nat.le_min.mpr ⟨by omega, by decide⟩

/-- The backoff formula, as far as it goes. For a valid policy with a whole factor `M` and with intervals below
    `2 ^ 53`, the wait after attempt `k` is the initial interval times `M ^ (k - 1)`, or the greatest interval if
    that is less: exactly so if the initial interval is not zero, or the greatest one is, or the power is finite as
    a number of 53 bits. Otherwise it is not zero, as it should be, but the greatest interval. The power is finite
    as long as `c * (k - 1)` is below 1024 for a `c` with `M ≤ 2 ^ c`, and it is not from attempt 1025 on unless `M`
    is one. -/
theorem delay_formula (hv : p.validate = .ok ()) (hM : p.multiplier.Is M) (hm : p.maxInterval < 2 ^ 53) (hk : 1 ≤ k) :
    (p.delay k = min (p.initialInterval * M ^ (k - 1)) p.maxInterval ↔
      0 < p.initialInterval ∨ p.maxInterval = 0 ∨ (p.growth k).isFinite = true) ∧
    (p.initialInterval = 0 → (p.growth k).isFinite = false → p.delay k = p.maxInterval) ∧
    (∀ c, M ≤ 2 ^ c → c * (k - 1) < 1024 → (p.growth k).isFinite = true) ∧
    (2 ≤ M → 1024 < k → (p.growth k).isFinite = false) := by
  refine ⟨?_, fun hi hg => ?_, fun c hc h => growth_finite hM hc h, fun hM' hk' => ?_⟩
  · rcases Nat.eq_zero_or_pos p.initialInterval with hi | hi
    · rw [delay_of_zero hv hM hm hk hi, hi, Nat.zero_mul, Nat.zero_min]
      split
      · rename_i hg
        simp [hg]
      · rename_i hg
        simp [hg]
    · simp [delay_of_pos hv hM hm hk hi, hi]
  · rw [delay_of_zero hv hM hm hk hi, hg]
    rfl
  · rw [growth_infinite hM hM' hk']
    rfl

/-- Waits of 100, 200, 400 and then 500 milliseconds. -/
def doubling : RetryPolicy := ⟨100, .ofNat 2, 500, 10⟩

/-- No waits at first, and never more than a second. -/
def impatient : RetryPolicy := ⟨0, .ofNat 2, 1000, 2000⟩

theorem delay_formula_of_two : doubling.validate = .ok () ∧ doubling.multiplier.Is (2 : Nat) ∧
    doubling.delay 4 = min (100 * 2 ^ 3) 500 ∧ impatient.validate = .ok () ∧ impatient.multiplier.Is (2 : Nat) ∧
    impatient.delay 1024 = min (impatient.initialInterval * 2 ^ (1024 - 1)) impatient.maxInterval := by
  have hd : doubling.multiplier.Is (2 : Nat) := show (Binary64.ofNat 2).Is _ from Binary64.ofNat_is (by decide)
  have hi : impatient.multiplier.Is (2 : Nat) := show (Binary64.ofNat 2).Is _ from Binary64.ofNat_is (by decide)
  obtain ⟨hdelay, -, -, -⟩ := delay_formula (k := 4) (show doubling.validate = .ok () from rfl) hd (by decide) (by decide)
  obtain ⟨hdelay', -, hfinite, -⟩ :=
    delay_formula (k := 1024) (show impatient.validate = .ok () from rfl) hi (by decide) (by decide)
  exact ⟨rfl, hd, hdelay.mpr (.inl (by decide)), rfl, hi,
    hdelay'.mpr (.inr (.inr (hfinite 1 (by decide) (by decide))))⟩

/-- Zero does not stay zero: the wait after attempt 1025 is a second. -/
theorem wait_from_nothing : impatient.validate = .ok () ∧ impatient.multiplier.Is (2 : Nat) ∧
    impatient.initialInterval < 2 ^ 53 ∧ impatient.maxInterval < 2 ^ 53 ∧ impatient.delay 1025 = 1000 ∧
    min (impatient.initialInterval * 2 ^ (1025 - 1)) impatient.maxInterval = 0 := by
  have hM : impatient.multiplier.Is (2 : Nat) := show (Binary64.ofNat 2).Is _ from Binary64.ofNat_is (by decide)
  refine ⟨rfl, hM, by decide, by decide, ?_, ?_⟩
  · rw [delay_of_zero rfl hM (by decide) (by decide) rfl, growth_infinite hM le_rfl (by decide)]
    rfl
  · rw [show impatient.initialInterval = 0 from rfl, Nat.zero_mul, Nat.zero_min]

end RetryPolicy
end Relay
