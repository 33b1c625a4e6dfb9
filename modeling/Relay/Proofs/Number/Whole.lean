import Relay.Proofs.Number.Rounding

/-! Whole numbers up to `2 ^ 53` are exact, and what is beyond stays beyond. So a power of a whole number that
    is held down by a limit below `2 ^ 53` is the power of that whole number, held down by it
    (`StandsFor.pow`, `StandsFor.min_is`); without a limit it is finite at least below `2 ^ 1024`. -/

namespace Relay
namespace Binary64
variable {x y r : Binary64} {n k c : Nat} {a b : ℚ}

theorem one_is : one.Is 1 := by
  have h : (ofNat 1).Is (1 : Nat) := ofNat_is (by decide)
  rwa [Nat.cast_one] at h

/-! ### Powers -/

/-- What products keep, powers keep. -/
theorem powLoop_keeps {P : Binary64 → Nat → Prop} (hmul : ∀ x y n k, P x n → P y k → P (x * y) (n * k)) (hr : P r c)
    (hx : P x n) : P (powLoop r x k) (c * n ^ k) := by
  induction k using Nat.strongRecOn generalizing r x c n with
  | ind k ih =>
    rw [powLoop]
    -- The lowest digit of the exponent.
    have hdigit : P (if k % 2 = 1 then r * x else r) (c * n ^ (k % 2)) := by
      rcases Nat.mod_two_eq_zero_or_one k with h | h
      · simpa [h] using hr
      · simpa [h] using hmul _ _ _ _ hr hx
    split
    · simpa only [show k % 2 = k by omega] using hdigit
    · have hrest := ih (k / 2) (by omega) hdigit (hmul _ _ _ _ hx hx)
      rw [← Nat.pow_two, ← Nat.pow_mul, Nat.mul_assoc, ← Nat.pow_add, Nat.mod_add_div] at hrest
      exact hrest

theorem pow_keeps {P : Binary64 → Nat → Prop} (hmul : ∀ x y n k, P x n → P y k → P (x * y) (n * k)) (hone : P one 1)
    (hx : P x n) : P (x.pow k) (n ^ k) := by
  have h : P (powLoop one x k) (1 * n ^ k) := powLoop_keeps hmul hone hx
  rwa [Nat.one_mul] at h

/-- A power is the outcome of a rounding, if it is more than one. -/
theorem powLoop_lt (hk : 0 < k) (h : (powLoop r x k).Is a) : a < 2 ^ (1024 : Int) := by
  induction k using Nat.strongRecOn generalizing r x with
  | ind k ih =>
    rw [powLoop] at h
    split at h
    · rw [if_pos (by omega)] at h
      exact mul_lt h
    · exact ih (k / 2) (by omega) (by omega) h

theorem pow_infinite (hx : x.AtLeast 2) (hk : 1024 ≤ k) : x.pow k = infinite false := by
  have hbelow : (x.pow k).AtLeast (2 ^ k : Nat) := by
    have h := pow_keeps (P := fun x n => x.AtLeast n ∧ ∃ d, n = 2 ^ d) (x := x) (n := 2) (k := k) ?_
      ⟨.inr ⟨1, one_is, by simp⟩, 0, rfl⟩ ⟨by exact_mod_cast hx, 1, rfl⟩
    · exact h.1
    · rintro x y _ _ ⟨hx, d, rfl⟩ ⟨hy, e, rfl⟩
      refine ⟨?_, d + e, (Nat.pow_add 2 d e).symm⟩
      rw [← Nat.pow_add]
      refine hx.mul hy (by positivity) (by positivity) ?_ ?_
      · exact_mod_cast IsShort.two_pow (d + e)
      · rw [Nat.pow_add]
        push_cast
        exact le_rfl
  rcases hbelow with h | ⟨b, hb, hle⟩
  · exact h
  · have hlt : b < 2 ^ (1024 : Int) := powLoop_lt (Nat.lt_of_lt_of_le (by decide) hk) hb
    have hge : (2 : ℚ) ^ (1024 : Int) ≤ (2 ^ k : Nat) := by
      rw [Nat.cast_pow, Nat.cast_two, ← zpow_natCast]
      exact two_zpow_le (by exact_mod_cast hk)
    exact absurd hlt (not_lt.mpr (hge.trans hle))

theorem pow_finite (hx : x.AtMost (2 ^ c : Nat)) (hk : c * k < 1024) : (x.pow k).isFinite = true := by
  have h := pow_keeps (P := fun x n => ∃ d, n = 2 ^ d ∧ (d < 1024 → x.AtMost n)) (x := x) (n := 2 ^ c) (k := k) ?_
    ⟨0, rfl, fun _ => ⟨1, one_is, by simp⟩⟩ ⟨c, rfl, fun _ => hx⟩
  · obtain ⟨d, hd, hmost⟩ := h
    rw [← Nat.pow_mul] at hd
    obtain ⟨b, ⟨m, e, he, -⟩, -⟩ := hmost (Nat.pow_right_injective le_rfl hd ▸ hk)
    rw [he]
    rfl
  · rintro x y _ _ ⟨d, rfl, hx⟩ ⟨e, rfl, hy⟩
    refine ⟨d + e, (Nat.pow_add 2 d e).symm, fun hlt => ?_⟩
    rw [← Nat.pow_add]
    refine (hx (by omega)).mul (hy (by omega)) ?_ ?_ ?_
    · exact_mod_cast IsShort.two_pow (d + e)
    · rw [Nat.pow_add]
      push_cast
      exact le_rfl
    · rw [Nat.cast_pow, Nat.cast_two, ← zpow_natCast]
      exact zpow_lt_zpow_right₀ (by norm_num) (by exact_mod_cast hlt)

/-! ### Whole numbers -/

/-- A number is this whole number, or both are beyond those that are exact. -/
inductive StandsFor (x : Binary64) (n : Nat) : Prop where
  | exact : n < 2 ^ 53 → x.Is n → StandsFor x n
  | beyond : 2 ^ 53 ≤ n → x.AtLeast (2 ^ 53) → StandsFor x n

namespace StandsFor

theorem atLeast (h : x.StandsFor n) (hk : k ≤ n) (hk' : k ≤ 2 ^ 53) : x.AtLeast k := by
  cases h with
  | exact _ hx => exact .inr ⟨n, hx, by exact_mod_cast hk⟩
  | beyond _ hx =>
    rcases hx with rfl | ⟨b, hx, hb⟩
    · exact .inl rfl
    · exact .inr ⟨b, hx, le_trans (by exact_mod_cast hk') hb⟩

theorem of_is (h : x.Is n) : x.StandsFor n := by
  rcases Nat.lt_or_ge n (2 ^ 53) with hlt | hge
  · exact .exact hlt h
  · exact .beyond hge (.inr ⟨n, h, by exact_mod_cast hge⟩)

theorem mul (hx : x.StandsFor n) (hy : y.StandsFor k) (hn : 0 < n) (hk : 0 < k) : (x * y).StandsFor (n * k) := by
  have beyond : ∀ {i j : Nat}, i ≤ n → i ≤ 2 ^ 53 → 0 < i → j ≤ k → j ≤ 2 ^ 53 → 0 < j → 2 ^ 53 ≤ i * j →
      (x * y).StandsFor (n * k) := by
    intro i j hi hi' hpos hj hj' hpos' hij
    refine .beyond (hij.trans (Nat.mul_le_mul hi hj)) ?_
    refine (hx.atLeast hi hi').mul (hy.atLeast hj hj') (by exact_mod_cast hpos) (by exact_mod_cast hpos') ?_ ?_
    · exact_mod_cast IsShort.of_le (n := 2 ^ 53) le_rfl
    · exact_mod_cast hij
  cases hx with
  | beyond hn' hx => exact beyond hn' le_rfl (by decide) hk (by decide) (by decide) (by decide)
  | exact hn' hx =>
    cases hy with
    | beyond hk' hy => exact beyond hn (by decide) (by decide) hk' le_rfl (by decide) (by decide)
    | exact hk' hy =>
      rcases Nat.lt_or_ge (n * k) (2 ^ 53) with hlt | hge
      · obtain ⟨num, den, hd, hq, he⟩ := hx.mul_eq hy
        refine .exact hlt ?_
        rw [he]
        refine ofRatio_is hd (.of_le hlt.le) ?_ (by push_cast; exact hq)
        calc ((n * k : Nat) : ℚ) < 2 ^ (53 : Int) := by exact_mod_cast hlt
          _ ≤ 2 ^ (1024 : Int) := two_zpow_le (by decide)
      · exact beyond le_rfl hn'.le hn le_rfl hk'.le hk hge

theorem pow (hx : x.StandsFor n) (hn : 0 < n) : (x.pow k).StandsFor (n ^ k) := by
  have h := pow_keeps (P := fun x n => x.StandsFor n ∧ 0 < n) (x := x) (n := n) (k := k)
    (fun _ _ _ _ hx hy => ⟨hx.1.mul hy.1 hx.2 hy.2, Nat.mul_pos hx.2 hy.2⟩)
    ⟨.of_is (by exact_mod_cast one_is), Nat.one_pos⟩ ⟨hx, hn⟩
  exact h.1

/-- A limit below `2 ^ 53` hides all that is not exact. -/
theorem min_is (hx : x.StandsFor n) (hy : y.Is k) (hk : k < 2 ^ 53) : (x.min y).Is (Min.min n k : Nat) := by
  cases hx with
  | exact _ hx =>
    rw [Nat.cast_min]
    exact hx.min hy
  | beyond hn hx =>
    rw [Nat.min_eq_right (hk.le.trans hn)]
    rcases hx with rfl | ⟨b, hx, hb⟩
    · obtain ⟨m, e, rfl, -⟩ := id hy
      exact hy
    · have hle : (k : ℚ) ≤ b := le_trans (by exact_mod_cast hk.le) hb
      exact min_eq_right hle ▸ hx.min hy

end StandsFor
end Binary64
end Relay
