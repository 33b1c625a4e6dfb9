import Mathlib.Algebra.Order.Field.Power
import Mathlib.Tactic.FieldSimp
import Mathlib.Tactic.Linarith
import Mathlib.Tactic.Positivity
import Mathlib.Tactic.NormNum
import Mathlib.Tactic.Ring
import Relay.Number.Binary64

/-! What rounding leaves exact. A rounding never passes a number of at most 53 bits (`rounds`), so such
    numbers are their own roundings, and what lies on one side of such a number stays there. -/

namespace Relay
namespace Binary64
variable {num den k n : Nat} {e : Int} {x y : Binary64} {a b : ℚ}

/-! ### The mantissa -/

theorem roundEven_le (hd : 0 < den) (h : num ≤ k * den) : roundEven num den ≤ k := by
  have hq : num / den ≤ k := Nat.div_le_of_le_mul (by rwa [Nat.mul_comm] at h)
  unfold roundEven
  rcases Nat.lt_or_eq_of_le hq with hlt | heq
  · dsimp only
    split
    · exact hq
    · split
      · exact hlt
      · split <;> omega
  · have hr : num % den = 0 := by
      have := Nat.div_add_mod num den
      rw [heq, Nat.mul_comm] at this
      omega
    simp [hr, hd, heq]

theorem le_roundEven (hd : 0 < den) (h : k * den ≤ num) : k ≤ roundEven num den := by
  have hq : k ≤ num / den := (Nat.le_div_iff_mul_le hd).mpr h
  unfold roundEven
  dsimp only
  split
  · exact hq
  · split
    · omega
    · split <;> omega

theorem scaled_pos (hd : 0 < den) : 0 < (scaled num den e).2 := by
  unfold scaled
  split
  · exact hd
  · exact Nat.mul_pos hd (Nat.pow_pos Nat.two_pos)

theorem scaled_div (num den : Nat) (e : Int) :
    ((scaled num den e).1 : ℚ) / (scaled num den e).2 = num / den / 2 ^ e := by
  unfold scaled
  split
  · obtain ⟨n, rfl⟩ : ∃ n : Nat, e = -n := ⟨e.natAbs, by omega⟩
    simp [zpow_neg]
    field_simp
  · obtain ⟨n, rfl⟩ : ∃ n : Nat, e = n := ⟨e.natAbs, by omega⟩
    simp
    field_simp

/-- The mantissa of a rounded number lies on the same side of a whole number as the exact one. -/
theorem le_mantissa (hd : 0 < den) (h : k * (2 : ℚ) ^ e ≤ num / den) :
    k ≤ roundEven (scaled num den e).1 (scaled num den e).2 := by
  have hp : 0 < (scaled num den e).2 := scaled_pos hd
  refine le_roundEven hp ?_
  have hk : (k : ℚ) ≤ (scaled num den e).1 / (scaled num den e).2 := by
    rw [scaled_div, le_div_iff₀ (by positivity)]
    exact h
  rw [le_div_iff₀ (by exact_mod_cast hp)] at hk
  exact_mod_cast hk

theorem mantissa_le (hd : 0 < den) (h : (num : ℚ) / den ≤ k * 2 ^ e) :
    roundEven (scaled num den e).1 (scaled num den e).2 ≤ k := by
  have hp : 0 < (scaled num den e).2 := scaled_pos hd
  refine roundEven_le hp ?_
  have hk : ((scaled num den e).1 : ℚ) / (scaled num den e).2 ≤ k := by
    rw [scaled_div, div_le_iff₀ (by positivity)]
    exact h
  rw [div_le_iff₀ (by exact_mod_cast hp)] at hk
  exact_mod_cast hk

/-! ### The exponent -/

theorem two_zpow_add (i j : Int) : (2 : ℚ) ^ (i + j) = 2 ^ i * 2 ^ j := zpow_add₀ (by norm_num) i j

theorem two_zpow_le {i j : Int} (h : i ≤ j) : (2 : ℚ) ^ i ≤ 2 ^ j := zpow_le_zpow_right₀ (by norm_num) h

theorem log2_bounds (h : 0 < n) : (2 : ℚ) ^ (n.log2 : Int) ≤ n ∧ (n : ℚ) < 2 ^ (n.log2 + 1 : Int) := by
  constructor
  · exact_mod_cast Nat.log2_self_le (Nat.pos_iff_ne_zero.mp h)
  · exact_mod_cast Nat.lt_log2_self

/-- With its exponent, a number has a mantissa of 53 bits, or of fewer if the exponent is the least one. -/
theorem fitExponent_bounds (hn : 0 < num) (hd : 0 < den) :
    (num : ℚ) / den < 2 ^ (fitExponent num den + 53) ∧
      (minExponent < fitExponent num den → (2 : ℚ) ^ (fitExponent num den + 52) ≤ num / den) := by
  obtain ⟨hnum, hnum'⟩ := log2_bounds hn
  obtain ⟨hden, hden'⟩ := log2_bounds hd
  have hd' : (0 : ℚ) < den := by exact_mod_cast hd
  generalize hfirst : (num.log2 : Int) - den.log2 - 52 = first
  have hhigh : (num : ℚ) / den < 2 ^ (first + 53) := by
    rw [div_lt_iff₀ hd']
    calc (num : ℚ) < 2 ^ (num.log2 + 1 : Int) := hnum'
      _ = 2 ^ (first + 53) * 2 ^ (den.log2 : Int) := by
        rw [← two_zpow_add]
        congr 1
        omega
      _ ≤ 2 ^ (first + 53) * den := by gcongr
  have hlow : (2 : ℚ) ^ (first + 51) ≤ num / den := by
    rw [le_div_iff₀ hd']
    calc (2 : ℚ) ^ (first + 51) * den ≤ 2 ^ (first + 51) * 2 ^ (den.log2 + 1 : Int) := by gcongr
      _ = 2 ^ (num.log2 : Int) := by
        rw [← two_zpow_add]
        congr 1
        omega
      _ ≤ num := hnum
  -- The first guess is right, or too great by one.
  have hguess : (scaled num den first).1 < Nat.pow 2 52 * (scaled num den first).2 ↔
      (num : ℚ) / den < 2 ^ (first + 52) := by
    have hp : (0 : ℚ) < (scaled num den first).2 := by exact_mod_cast scaled_pos hd
    rw [two_zpow_add, mul_comm ((2 : ℚ) ^ first), ← div_lt_iff₀ (by positivity), ← scaled_div num den first,
      div_lt_iff₀ hp]
    norm_cast
  have hexp : fitExponent num den = max minExponent
      (if (num : ℚ) / den < 2 ^ (first + 52) then first - 1 else first) := by
    unfold fitExponent
    simp only [hfirst, hguess]
  generalize hfit : (if (num : ℚ) / den < 2 ^ (first + 52) then first - 1 else first) = fit at hexp
  have hfits : (num : ℚ) / den < 2 ^ (fit + 53) ∧ (2 : ℚ) ^ (fit + 52) ≤ num / den := by
    split at hfit
    · rename_i hlt
      subst hfit
      rw [show first - 1 + 53 = first + 52 by omega, show first - 1 + 52 = first + 51 by omega]
      exact ⟨hlt, hlow⟩
    · rename_i hle
      subst hfit
      exact ⟨hhigh, not_lt.mp hle⟩
  rw [hexp]
  refine ⟨hfits.1.trans_le (two_zpow_le (by omega)), fun hmin => ?_⟩
  rw [max_eq_right (by omega)]
  exact hfits.2

/-! ### Values -/

/-- A number that is not negative, and has this value. -/
def Is (x : Binary64) (a : ℚ) : Prop := ∃ m e, x = finite false m e ∧ (m : ℚ) * 2 ^ e = a

/-- At most 53 bits are enough for a value. -/
def IsShort (a : ℚ) : Prop := ∃ (k : Nat) (e : Int), k ≤ 2 ^ 53 ∧ minExponent ≤ e ∧ a = k * 2 ^ e

theorem IsShort.of_le (h : n ≤ 2 ^ 53) : IsShort n := ⟨n, 0, h, by decide, by simp⟩

theorem IsShort.two_pow (n : Nat) : IsShort (2 ^ n) := ⟨1, n, by decide, by simp [minExponent], by simp⟩

/-- A mantissa of 53 bits stands for a number below `2 ^ 1024`, or its exponent is too great. -/
theorem pack_cases {m : Nat} (hm : m ≤ 2 ^ 53) (hnormal : minExponent < e → 2 ^ 52 ≤ m) :
    (pack false m e).Is (m * 2 ^ e) ∧ (m : ℚ) * 2 ^ e < 2 ^ (1024 : Int) ∨
      pack false m e = infinite false ∧ (2 : ℚ) ^ (1024 : Int) ≤ m * 2 ^ e := by
  rcases Nat.lt_or_eq_of_le hm with hlt | rfl
  · have hne : m ≠ Nat.pow 2 53 := hlt.ne
    simp only [pack, hne, if_false]
    by_cases he : maxExponent < e
    · have hm' : (2 : ℚ) ^ (52 : Int) ≤ m := by exact_mod_cast hnormal (lt_trans (by decide) he)
      refine .inr ⟨if_pos he, ?_⟩
      calc (2 : ℚ) ^ (1024 : Int) ≤ 2 ^ (52 + e) := two_zpow_le (by unfold maxExponent at he; omega)
        _ = 2 ^ (52 : Int) * 2 ^ e := two_zpow_add _ _
        _ ≤ m * 2 ^ e := by gcongr
    · have hm' : (m : ℚ) < 2 ^ (53 : Int) := by exact_mod_cast hlt
      refine .inl ⟨⟨m, e, if_neg he, rfl⟩, ?_⟩
      calc (m : ℚ) * 2 ^ e < 2 ^ (53 : Int) * 2 ^ e := by gcongr
        _ = 2 ^ (53 + e) := (two_zpow_add _ _).symm
        _ ≤ 2 ^ (1024 : Int) := two_zpow_le (by unfold maxExponent at he; omega)
  · -- The mantissa has become too great by rounding up.
    have hvalue : ((2 ^ 53 : Nat) : ℚ) * 2 ^ e = 2 ^ (53 + e) := by
      rw [two_zpow_add]
      norm_num
    simp only [pack, hvalue, Nat.pow_eq, if_true]
    by_cases he : maxExponent < e + 1
    · exact .inr ⟨if_pos he, two_zpow_le (by unfold maxExponent at he; omega)⟩
    · refine .inl ⟨⟨2 ^ 52, e + 1, if_neg he, ?_⟩, ?_⟩
      · rw [show 53 + e = 52 + (e + 1) by omega, two_zpow_add 52]
        norm_num
      · exact zpow_lt_zpow_right₀ (by norm_num) (by unfold maxExponent at he; omega)

/-- A short number with a greater unit is a whole multiple of the lesser one. -/
theorem short_eq_multiple {k : Nat} {j fit : Int} (h : fit ≤ j) :
    (k : ℚ) * 2 ^ j = (k * 2 ^ (j - fit).toNat : Nat) * 2 ^ fit := by
  obtain ⟨d, rfl⟩ : ∃ d : Nat, j = fit + d := ⟨(j - fit).toNat, by omega⟩
  rw [two_zpow_add]
  simp
  ring

/-- One with a lesser unit is at most the least number of 53 bits with the greater one. -/
theorem short_le {k : Nat} {j fit : Int} (hk : k ≤ 2 ^ 53) (h : j < fit) :
    (k : ℚ) * 2 ^ j ≤ (2 ^ 52 : Nat) * 2 ^ fit := by
  have hk' : (k : ℚ) ≤ 2 ^ (53 : Int) := by exact_mod_cast hk
  calc (k : ℚ) * 2 ^ j ≤ 2 ^ (53 : Int) * 2 ^ (fit - 1) := by
        gcongr
        · norm_num
        · omega
    _ = (2 ^ 52 : Nat) * 2 ^ fit := by
      rw [← two_zpow_add, show 53 + (fit - 1) = 52 + fit by omega, two_zpow_add]
      norm_num

/-- A rounding is finite below `2 ^ 1024`, and never passes a short number. -/
theorem rounds (num : Nat) (hd : 0 < den) : ∃ r : ℚ,
    ((ofRatio false num den).Is r ∧ r < 2 ^ (1024 : Int) ∨
      ofRatio false num den = infinite false ∧ 2 ^ (1024 : Int) ≤ r) ∧
      ∀ a, IsShort a → (a ≤ num / den → a ≤ r) ∧ (num / den ≤ a → r ≤ a) := by
  rcases Nat.eq_zero_or_pos num with rfl | hn
  · exact ⟨0, .inl ⟨⟨0, minExponent, rfl, by simp⟩, by positivity⟩, fun a _ => by simp⟩
  obtain ⟨hlt, hge⟩ := fitExponent_bounds hn hd
  generalize hfit : fitExponent num den = fit at hlt hge
  have hmin : minExponent ≤ fit := by
    rw [← hfit]
    exact le_max_left _ _
  generalize hm : roundEven (scaled num den fit).1 (scaled num den fit).2 = m
  have hfull : m ≤ 2 ^ 53 := by
    rw [← hm]
    refine mantissa_le hd ?_
    rw [two_zpow_add, mul_comm] at hlt
    exact_mod_cast hlt.le
  have hnormal : minExponent < fit → 2 ^ 52 ≤ m := by
    intro hlow
    rw [← hm]
    refine le_mantissa hd ?_
    have := hge hlow
    rw [two_zpow_add, mul_comm] at this
    exact_mod_cast this
  refine ⟨m * 2 ^ fit, ?_, ?_⟩
  · have hr : ofRatio false num den = pack false m fit := by
      unfold ofRatio
      simp only [Nat.pos_iff_ne_zero.mp hn, if_false, hfit, hm]
    rw [hr]
    exact pack_cases hfull hnormal
  · rintro _ ⟨k, j, hk, hj, rfl⟩
    rcases le_or_gt fit j with hle | hgt
    · rw [short_eq_multiple hle]
      refine ⟨fun h => ?_, fun h => ?_⟩
      · gcongr
        exact hm ▸ le_mantissa hd h
      · gcongr
        exact hm ▸ mantissa_le hd h
    · -- The least number of 53 bits with this unit is between it and the rounding.
      have hbelow := short_le hk hgt
      have hlow : minExponent < fit := lt_of_le_of_lt hj hgt
      refine ⟨fun _ => hbelow.trans ?_, fun h => le_trans ?_ h⟩
      · gcongr
        exact hnormal hlow
      · have hm' : m ≤ 2 ^ 52 := hm ▸ mantissa_le hd (h.trans hbelow)
        calc (m : ℚ) * 2 ^ fit ≤ (2 ^ 52 : Nat) * 2 ^ fit := by gcongr
          _ = 2 ^ (fit + 52) := by
            rw [add_comm, two_zpow_add]
            norm_num
          _ ≤ num / den := hge hlow

theorem ofRatio_is (hd : 0 < den) (hs : IsShort a) (ha : a < 2 ^ (1024 : Int)) (h : (num : ℚ) / den = a) :
    (ofRatio false num den).Is a := by
  obtain ⟨r, hr, hside⟩ := rounds num hd
  obtain rfl : r = a := le_antisymm ((hside a hs).2 h.le) ((hside a hs).1 h.ge)
  rcases hr with ⟨hr, -⟩ | ⟨-, hr⟩
  · exact hr
  · exact absurd ha (not_lt.mpr hr)

theorem ofNat_is (h : n ≤ 2 ^ 53) : (ofNat n).Is n := by
  refine ofRatio_is Nat.one_pos (.of_le h) ?_ (by simp)
  calc (n : ℚ) ≤ 2 ^ (53 : Int) := by exact_mod_cast h
    _ < 2 ^ (1024 : Int) := zpow_lt_zpow_right₀ (by norm_num) (by norm_num)

/-! ### Bounds -/

/-- A number is at or above a bound, or it is beyond all bounds. -/
def AtLeast (x : Binary64) (a : ℚ) : Prop := x = infinite false ∨ ∃ b, x.Is b ∧ a ≤ b

def AtMost (x : Binary64) (a : ℚ) : Prop := ∃ b, x.Is b ∧ b ≤ a

theorem Is.pos {m : Nat} (h : (finite false m e).Is a) (ha : 0 < a) : m ≠ 0 := by
  obtain ⟨m', e', he, rfl⟩ := h
  cases he
  rintro rfl
  simp at ha

theorem Is.nonneg (h : x.Is a) : 0 ≤ a := by
  obtain ⟨m, e, -, rfl⟩ := h
  positivity

theorem Is.unique (h : x.Is a) (h' : x.Is b) : a = b := by
  obtain ⟨m, e, rfl, rfl⟩ := h
  obtain ⟨m', e', he, rfl⟩ := h'
  cases he
  rfl

theorem ratio_pos {m : Nat} : 0 < (ratio m e).2 := by
  unfold ratio
  split
  · exact Nat.pow_pos Nat.two_pos
  · exact Nat.one_pos

theorem ratio_div (m : Nat) (e : Int) : ((ratio m e).1 : ℚ) / (ratio m e).2 = m * 2 ^ e := by
  unfold ratio
  split
  · obtain ⟨n, rfl⟩ : ∃ n : Nat, e = -n := ⟨e.natAbs, by omega⟩
    simp [zpow_neg]
    field_simp
  · obtain ⟨n, rfl⟩ : ∃ n : Nat, e = n := ⟨e.natAbs, by omega⟩
    simp

/-- A product is the rounding of the exact one. -/
theorem Is.mul_eq (hx : x.Is a) (hy : y.Is b) :
    ∃ num den : Nat, 0 < den ∧ (num : ℚ) / den = a * b ∧ x * y = ofRatio false num den := by
  obtain ⟨m, e, rfl, rfl⟩ := hx
  obtain ⟨n, f, rfl, rfl⟩ := hy
  refine ⟨(ratio (m * n) (e + f)).1, (ratio (m * n) (e + f)).2, ratio_pos, ?_, rfl⟩
  rw [ratio_div, two_zpow_add]
  push_cast
  ring

theorem AtLeast.mul {c : ℚ} (hx : x.AtLeast a) (hy : y.AtLeast b) (ha : 0 < a) (hb : 0 < b) (hs : IsShort c)
    (hc : c ≤ a * b) : (x * y).AtLeast c := by
  rcases hx with rfl | ⟨a', hx, ha'⟩ <;> rcases hy with rfl | ⟨b', hy, hb'⟩
  · exact .inl rfl
  · obtain ⟨n, f, rfl, -⟩ := id hy
    exact .inl (if_neg (hy.pos (hb.trans_le hb')))
  · obtain ⟨m, e, rfl, -⟩ := id hx
    exact .inl (if_neg (hx.pos (ha.trans_le ha')))
  · obtain ⟨num, den, hd, hq, he⟩ := hx.mul_eq hy
    obtain ⟨r, hr, hside⟩ := rounds num hd
    rw [he]
    rcases hr with ⟨hr, -⟩ | ⟨hr, -⟩
    · have hle : c ≤ (num : ℚ) / den := hq ▸ hc.trans (mul_le_mul ha' hb' hb.le (ha.le.trans ha'))
      exact .inr ⟨r, hr, (hside c hs).1 hle⟩
    · exact .inl hr

theorem AtMost.mul {c : ℚ} (hx : x.AtMost a) (hy : y.AtMost b) (hs : IsShort c) (hc : a * b ≤ c)
    (hlt : c < 2 ^ (1024 : Int)) : (x * y).AtMost c := by
  obtain ⟨a', hx, ha'⟩ := hx
  obtain ⟨b', hy, hb'⟩ := hy
  obtain ⟨num, den, hd, hq, he⟩ := hx.mul_eq hy
  obtain ⟨r, hr, hside⟩ := rounds num hd
  have hle : r ≤ c := (hside c hs).2 (hq ▸ (mul_le_mul ha' hb' hy.nonneg (hx.nonneg.trans ha')).trans hc)
  rw [he]
  rcases hr with ⟨hr, -⟩ | ⟨-, hr⟩
  · exact ⟨r, hr, hle⟩
  · exact absurd (hle.trans_lt hlt) (not_lt.mpr hr)

theorem ofRatio_sign {negative : Bool} (h : (ofRatio negative num den).Is a) : negative = false := by
  obtain ⟨m, e, he, -⟩ := h
  unfold ofRatio at he
  split at he
  · cases he
    rfl
  · unfold pack at he
    dsimp only at he
    generalize (if roundEven _ _ = Nat.pow 2 53 then _ else _ : Nat × Int) = n at he
    split at he <;> cases he
    rfl

/-- The greatest product is below `2 ^ 1024`. -/
theorem mul_lt (h : (x * y).Is a) : a < 2 ^ (1024 : Int) := by
  have finite : ∀ {z : Binary64}, z.Is a → z.isFinite = true := by
    rintro _ ⟨m, e, rfl, -⟩
    rfl
  change (mul x y).Is a at h
  unfold mul at h
  split at h
  · cases finite h
  · cases finite h
  · cases finite h
  · split at h <;> cases finite h
  · split at h <;> cases finite h
  · rename_i s m e t n f
    have hs := ofRatio_sign h
    rw [hs] at h
    obtain ⟨r, ⟨hr, hlt⟩ | ⟨hr, -⟩, -⟩ := rounds (ratio (m * n) (e + f)).1 (ratio_pos (m := m * n) (e := e + f))
    · exact h.unique hr ▸ hlt
    · rw [hr] at h
      cases finite h

/-! ### Order -/

theorem magnitudeLe_iff {m n : Nat} {e f : Int} : magnitudeLe m e n f = true ↔ (m : ℚ) * 2 ^ e ≤ n * 2 ^ f := by
  have shift : ∀ (k : Nat) (g : Int), Min.min e f ≤ g →
      (k : ℚ) * 2 ^ g = (k * Nat.pow 2 (g - Min.min e f).toNat : Nat) * 2 ^ (Min.min e f) := by
    intro k g hg
    obtain ⟨d, rfl⟩ : ∃ d : Nat, g = Min.min e f + d := ⟨(g - Min.min e f).toNat, by omega⟩
    rw [two_zpow_add]
    simp
    ring
  rw [shift m e (min_le_left e f), shift n f (min_le_right e f), mul_le_mul_iff_left₀ (by positivity)]
  unfold magnitudeLe
  rw [decide_eq_true_iff]
  exact_mod_cast Iff.rfl

theorem Is.le_iff (hx : x.Is a) (hy : y.Is b) : le x y = true ↔ a ≤ b := by
  obtain ⟨m, e, rfl, rfl⟩ := hx
  obtain ⟨n, f, rfl, rfl⟩ := hy
  exact magnitudeLe_iff

theorem Is.min (hx : x.Is a) (hy : y.Is b) : (x.min y).Is (Min.min a b) := by
  have hle := hx.le_iff hy
  obtain ⟨m, e, rfl, -⟩ := id hx
  obtain ⟨n, f, rfl, -⟩ := id hy
  simp only [Binary64.min, hle, min_def]
  split
  · exact hx
  · exact hy

theorem Is.toNatUpTo_eq {limit : Nat} (hx : x.Is n) (h : n ≤ limit) : toNatUpTo limit x = n := by
  obtain ⟨m, e, rfl, he⟩ := hx
  have hp : 0 < (ratio m e).2 := ratio_pos
  rw [← ratio_div, div_eq_iff (by positivity)] at he
  have he' : (ratio m e).1 = n * (ratio m e).2 := by exact_mod_cast he
  simp only [toNatUpTo, Bool.false_eq_true, if_false, he', Nat.mul_div_cancel n hp]
  exact Nat.min_eq_right h

end Binary64
end Relay
