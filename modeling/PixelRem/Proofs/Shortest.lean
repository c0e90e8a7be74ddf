import Mathlib
import PixelRem.Number.Binary64

/-!
# The shortest decimal of a number

The shortest decimal of a positive number is searched on seventeen grids, each ten times finer
than the one before.  On the last of them a neighbour of the number is always near enough to
round to it, so the search succeeds:

* `log10_le`: the grids start at the greatest power of ten that the number reaches.
* `onGrid?_isSome`: a grid on which the number has seventeen digits has a point that rounds to
  the number.  Half a step of the grid is less than half the gap to the next number, also below
  a power of two, where the gap is half as wide.
* `shortest_pos`, `positive?_bounds`: so the decimal of a positive number is positive, and its
  exponent has a bound.
-/

namespace PixelRem

/-! ## Powers with a sign -/

section Powers

theorem cast_pow10 (n : Nat) : ((pow10 n : Nat) : ℚ) = 10 ^ n :=
  Nat.cast_pow 10 n

theorem cast_pow2 (n : Nat) : ((pow2 n : Nat) : ℚ) = 2 ^ n :=
  Nat.cast_pow 2 n

/-- A power with a sign is a quotient of powers without one. -/
theorem pow_toNat {base : ℚ} (hbase : base ≠ 0) (i : Int) :
    base ^ i.toNat = base ^ i * base ^ (-i).toNat := by
  have hsum : (i.toNat : Int) = i + (-i).toNat := by omega
  rw [← zpow_natCast, ← zpow_natCast, ← zpow_add₀ hbase, ← hsum]

end Powers

namespace Binary64

/-! ## The first grid -/

section First

variable {num den : Nat}

theorem pow_length_toDigits_le {n : Nat} (hn : 0 < n) :
    10 ^ ((Nat.toDigits 10 n).length - 1) ≤ n := by
  rcases Nat.eq_zero_or_pos ((Nat.toDigits 10 n).length - 1) with hone | hmore
  · rw [hone, pow_zero]
    exact hn
  · have hlength := Nat.length_toDigits_le_iff (b := 10) (n := n) (by decide) hmore
    by_contra hlt
    have := hlength.mpr (Nat.lt_of_not_le hlt)
    omega

theorem lt_pow_length_toDigits (n : Nat) : n < 10 ^ (Nat.toDigits 10 n).length :=
  (Nat.length_toDigits_le_iff (by decide) Nat.length_toDigits_pos).mp (Nat.le_refl _)

theorem log10_le (hnum : 0 < num) (hden : 0 < den) : (10 : ℚ) ^ log10 num den * den ≤ num := by
  unfold log10
  split_ifs with hle
  · -- at least one: the digits of the whole part
    have hwhole : 0 < num / den := Nat.div_pos hle hden
    have hpow := pow_length_toDigits_le hwhole
    have hdigits : 0 < (Nat.toDigits 10 (num / den)).length := Nat.length_toDigits_pos
    have hprod : 10 ^ ((Nat.toDigits 10 (num / den)).length - 1) * den ≤ num :=
      (Nat.mul_le_mul_right den hpow).trans (Nat.div_mul_le_self num den)
    have hexponent : ((Nat.toDigits 10 (num / den)).length : Int) - 1 =
        ((Nat.toDigits 10 (num / den)).length - 1 : Nat) := by omega
    rw [hexponent, zpow_natCast]
    exact_mod_cast hprod
  · -- below one: the digits of the inverse
    have hinverse : 0 < den / num := Nat.div_pos (Nat.le_of_not_le hle) hnum
    dsimp only
    split_ifs with heq
    · rw [zpow_neg, zpow_natCast, inv_mul_le_iff₀ (by positivity)]
      have hcast : ((den : Nat) : ℚ) =
          (num : ℚ) * 10 ^ ((Nat.toDigits 10 (den / num)).length - 1) := by
        rw [← cast_pow10]
        exact_mod_cast heq.symm
      rw [hcast, mul_comm]
    · have hlt := lt_pow_length_toDigits (den / num)
      have hdigits : 0 < (Nat.toDigits 10 (den / num)).length := Nat.length_toDigits_pos
      have hprod : den < 10 ^ (Nat.toDigits 10 (den / num)).length * num :=
        (Nat.div_lt_iff_lt_mul hnum).mp hlt
      have hexponent : -((((Nat.toDigits 10 (den / num)).length - 1 : Nat) : Int) + 1) =
          -((Nat.toDigits 10 (den / num)).length : Int) := by omega
      rw [hexponent, zpow_neg, zpow_natCast, inv_mul_le_iff₀ (by positivity)]
      exact_mod_cast hprod.le

theorem length_toDigits_le {n k : Nat} (hk : 0 < k) (hn : n < pow10 k) :
    (Nat.toDigits 10 n).length ≤ k :=
  (Nat.length_toDigits_le_iff (by decide) hk).mpr hn

theorem log10_bounds {above below : Nat} (habove : 0 < above) (hbelow : 0 < below)
    (hnum : num < pow10 above) (hden : den < pow10 below) :
    -below ≤ log10 num den ∧ log10 num den < above := by
  have hwhole := length_toDigits_le habove (Nat.lt_of_le_of_lt (Nat.div_le_self num den) hnum)
  have hinverse := length_toDigits_le hbelow (Nat.lt_of_le_of_lt (Nat.div_le_self den num) hden)
  unfold log10
  dsimp only
  split_ifs <;> omega

end First

/-! ## One grid -/

section Grid

variable {mantissa : Nat} {exponent k : Int}

/-- A quarter of the last bit, in the unit that makes it and a step of the grid whole. -/
def gridUnit (exponent k : Int) : Nat :=
  pow2 (exponent - 2).toNat * pow10 (-k).toNat

/-- A step of the grid in that unit. -/
def gridStep (exponent k : Int) : Nat :=
  pow2 (-(exponent - 2)).toNat * pow10 k.toNat

theorem gridUnit_pos : 0 < gridUnit exponent k :=
  Nat.mul_pos (pow2_pos _) (pow10_pos _)

theorem gridStep_pos : 0 < gridStep exponent k :=
  Nat.mul_pos (pow2_pos _) (pow10_pos _)

/-- A number that reaches a power of ten has that many steps on a grid. -/
theorem gridStep_le {n : Nat} (hpower : (10 : ℚ) ^ (k + n) ≤ mantissa * 2 ^ exponent) :
    10 ^ n * gridStep exponent k ≤ 4 * mantissa * gridUnit exponent k := by
  have hunit : (gridUnit exponent k : ℚ) =
      2 ^ (exponent - 2) * (2 ^ (-(exponent - 2)).toNat * 10 ^ (-k).toNat) := by
    rw [gridUnit, Nat.cast_mul, cast_pow2, cast_pow10, pow_toNat two_ne_zero]
    ring
  have hstep : (gridStep exponent k : ℚ) =
      10 ^ k * (2 ^ (-(exponent - 2)).toNat * 10 ^ (-k).toNat) := by
    rw [gridStep, Nat.cast_mul, cast_pow2, cast_pow10, pow_toNat (by norm_num) k]
    ring
  have hquarter : (2 : ℚ) ^ exponent = 4 * 2 ^ (exponent - 2) := by
    rw [zpow_sub₀ (by norm_num)]
    norm_num
    ring
  have hten : (10 : ℚ) ^ (k + n) = 10 ^ n * 10 ^ k := by
    rw [zpow_add₀ (by norm_num), zpow_natCast, mul_comm]
  have hcast : ((10 ^ n * gridStep exponent k : Nat) : ℚ) ≤
      (4 * mantissa * gridUnit exponent k : Nat) := by
    push_cast
    calc (10 : ℚ) ^ n * gridStep exponent k
        = 10 ^ (k + n) * (2 ^ (-(exponent - 2)).toNat * 10 ^ (-k).toNat) := by
          rw [hstep, hten]
          ring
      _ ≤ mantissa * 2 ^ exponent * (2 ^ (-(exponent - 2)).toNat * 10 ^ (-k).toNat) :=
          mul_le_mul_of_nonneg_right hpower (by positivity)
      _ = 4 * mantissa * gridUnit exponent k := by
          rw [hunit, hquarter]
          ring
  exact_mod_cast hcast

theorem le_of_onGrid? {d : Nat} (hd : onGrid? mantissa exponent k = some d) :
    4 * mantissa * gridUnit exponent k / gridStep exponent k ≤ d := by
  unfold onGrid? at hd
  dsimp only at hd
  rw [← gridUnit, ← gridStep] at hd
  split at hd
  · split_ifs at hd
    · exact (Option.some.inj hd).le
    · rw [← Option.some.inj hd]
      exact Nat.le_succ _
  · exact (Option.some.inj hd).le
  · rw [← Option.some.inj hd]
    exact Nat.le_succ _
  · exact absurd hd (by simp)

/-- Where a number has seventeen digits on a grid, one of its neighbours there is nearer than
half the gap to the next number on that side.  The gap below is half as wide if `low` says so,
and then the mantissa is a power of two. -/
theorem exists_near {unit step low : Nat} (hpos : 0 < mantissa) (hbits : mantissa < 2 ^ 53)
    (hunit : 0 < unit) (hgrid : 0 < step) (hstep : 10 ^ 16 * step ≤ 4 * mantissa * unit)
    (hlow : low = 4 * mantissa - 2 ∨ low = 4 * mantissa - 1 ∧ mantissa = 2 ^ 52) :
    ∃ d, (d = 4 * mantissa * unit / step ∨ d = 4 * mantissa * unit / step + 1) ∧
      low * unit < d * step ∧ d * step < (4 * mantissa + 2) * unit := by
  have hsplit := Nat.div_add_mod (4 * mantissa * unit) step
  have hrest := Nat.mod_lt (4 * mantissa * unit) hgrid
  generalize 4 * mantissa * unit / step = below at hsplit
  generalize 4 * mantissa * unit % step = rest at hsplit hrest
  -- the products are atoms from here on
  have hvalue : 4 * mantissa * unit = 4 * (mantissa * unit) := Nat.mul_assoc 4 mantissa unit
  have hmany : mantissa * unit ≤ (2 ^ 53 - 1) * unit := Nat.mul_le_mul_right unit (by omega)
  have hhigh : (4 * mantissa + 2) * unit = 4 * mantissa * unit + 2 * unit := Nat.add_mul ..
  have hbelow : below * step = step * below := Nat.mul_comm ..
  have habove : (below + 1) * step = step * below + step := by rw [Nat.add_mul, hbelow, Nat.one_mul]
  have hlowest : low * unit + 2 * unit = 4 * mantissa * unit ∨
      low * unit + unit = 4 * mantissa * unit ∧ mantissa * unit = 2 ^ 52 * unit := by
    rcases hlow with rfl | ⟨rfl, hpower⟩
    · left
      rw [← Nat.add_mul, Nat.sub_add_cancel (by omega)]
    · right
      refine ⟨?_, by rw [hpower]⟩
      rw [← Nat.succ_mul, Nat.succ_eq_add_one, Nat.sub_add_cancel (by omega)]
  by_cases hnear : 2 * rest ≤ step
  · refine ⟨below, .inl rfl, ?_, ?_⟩ <;> omega
  · refine ⟨below + 1, .inr rfl, ?_, ?_⟩ <;> omega

/-- On a grid where the number has seventeen digits a point is found. -/
theorem onGrid?_isSome (hpos : 0 < mantissa) (hbits : mantissa < pow2 53)
    (hstep : 10 ^ 16 * gridStep exponent k ≤ 4 * mantissa * gridUnit exponent k) :
    (onGrid? mantissa exponent k).isSome = true := by
  unfold onGrid?
  dsimp only
  rw [← gridUnit, ← gridStep]
  have hlow : (if mantissa = pow2 52 ∧ minExponent < exponent then 4 * mantissa - 1
        else 4 * mantissa - 2) = 4 * mantissa - 2 ∨
      (if mantissa = pow2 52 ∧ minExponent < exponent then 4 * mantissa - 1
        else 4 * mantissa - 2) = 4 * mantissa - 1 ∧ mantissa = 2 ^ 52 := by
    split_ifs with hpower
    · exact .inr ⟨rfl, hpower.1⟩
    · exact .inl rfl
  generalize (if mantissa = pow2 52 ∧ minExponent < exponent then 4 * mantissa - 1
    else 4 * mantissa - 2) = low at hlow ⊢
  obtain ⟨d, hd, hnear⟩ := exists_near hpos hbits gridUnit_pos gridStep_pos hstep hlow
  split
  · split_ifs <;> rfl
  · rfl
  · rfl
  · -- neither neighbour rounds to the number, but one of them is near
    rename_i hbelow habove
    have hrounds : ∀ d, low * gridUnit exponent k < d * gridStep exponent k ∧
        d * gridStep exponent k < (4 * mantissa + 2) * gridUnit exponent k →
        ¬(if mantissa % 2 = 0 then
            decide (low * gridUnit exponent k ≤ d * gridStep exponent k) &&
              decide (d * gridStep exponent k ≤ (4 * mantissa + 2) * gridUnit exponent k)
          else
            decide (low * gridUnit exponent k < d * gridStep exponent k) &&
              decide (d * gridStep exponent k < (4 * mantissa + 2) * gridUnit exponent k)) =
          false := by
      intro d hd
      split_ifs
      · simp [hd.1.le, hd.2.le]
      · simp [hd.1, hd.2]
    rcases hd with rfl | rfl
    · exact absurd hbelow (hrounds _ hnear)
    · exact absurd habove (hrounds _ hnear)

end Grid

/-! ## The search -/

section Search

variable {mantissa : Nat} {exponent : Int}

theorem stripZeros_spec (fuel c : Nat) (e : Int) (hc : c ≠ 0) :
    (stripZeros fuel c e).1 ≠ 0 ∧ e ≤ (stripZeros fuel c e).2 ∧
      (stripZeros fuel c e).2 ≤ e + fuel := by
  induction fuel generalizing c e with
  | zero => exact ⟨hc, Int.le_refl e, by simp [stripZeros]⟩
  | succ fuel ih =>
    unfold stripZeros
    split_ifs with hzero
    · have hdiv : c / 10 ≠ 0 := by
        simp only [Bool.and_eq_true, decide_eq_true_eq] at hzero
        omega
      have hrest := ih (c / 10) (e + 1) hdiv
      push_cast
      omega
    · refine ⟨hc, Int.le_refl e, ?_⟩
      dsimp only
      omega

/-- The power of ten that the search starts at. -/
def topPower (mantissa : Nat) (exponent : Int) : Int :=
  log10 (mantissa * pow2 exponent.toNat) (pow2 (-exponent).toNat)

theorem topPower_le (hpos : 0 < mantissa) :
    (10 : ℚ) ^ topPower mantissa exponent ≤ mantissa * 2 ^ exponent := by
  have hlog := log10_le (Nat.mul_pos hpos (pow2_pos exponent.toNat)) (pow2_pos (-exponent).toNat)
  rw [← topPower, Nat.cast_mul, cast_pow2, cast_pow2, pow_toNat two_ne_zero exponent,
    ← mul_assoc] at hlog
  exact le_of_mul_le_mul_right hlog (by positivity)

/-- The `n`-th grid has `n` digits behind the first one of the number. -/
theorem gridStep_topPower_le (exponent : Int) (hpos : 0 < mantissa) (n : Nat) :
    10 ^ n * gridStep exponent (topPower mantissa exponent - n) ≤
      4 * mantissa * gridUnit exponent (topPower mantissa exponent - n) := by
  apply gridStep_le
  rw [Int.sub_add_cancel]
  exact topPower_le hpos

/-- A point that is found on a grid is not zero. -/
theorem ne_zero_of_onGrid? (hpos : 0 < mantissa) {n d : Nat}
    (hd : onGrid? mantissa exponent (topPower mantissa exponent - n) = some d) : d ≠ 0 := by
  have hmany := gridStep_topPower_le exponent hpos n
  have hone : gridStep exponent (topPower mantissa exponent - n) ≤
      4 * mantissa * gridUnit exponent (topPower mantissa exponent - n) :=
    (Nat.le_mul_of_pos_left _ (Nat.pow_pos (by decide))).trans hmany
  have hbelow : 0 < 4 * mantissa * gridUnit exponent (topPower mantissa exponent - n) /
      gridStep exponent (topPower mantissa exponent - n) := Nat.div_pos hone gridStep_pos
  exact (hbelow.trans_le (le_of_onGrid? hd)).ne'

/-- The shortest decimal of a positive number is positive, and its exponent is near the power of
ten that the number reaches. -/
theorem shortest_pos (exponent : Int) (hpos : 0 < mantissa) (hbits : mantissa < pow2 53) :
    (shortest mantissa exponent).1 ≠ 0 ∧
      topPower mantissa exponent - 16 ≤ (shortest mantissa exponent).2 ∧
      (shortest mantissa exponent).2 ≤ topPower mantissa exponent + 17 := by
  unfold shortest
  rw [if_neg hpos.ne']
  dsimp only
  rw [← topPower]
  cases hfound : (List.range 17).findSome? fun (n : Nat) =>
      (onGrid? mantissa exponent (topPower mantissa exponent - n)).map fun d =>
        stripZeros 17 d (topPower mantissa exponent - n) with
  | none =>
    -- the last grid has a point
    have hlast := List.findSome?_eq_none_iff.mp hfound 16 (by decide)
    have hsome := onGrid?_isSome hpos hbits (gridStep_topPower_le exponent hpos 16)
    rw [Option.map_eq_none_iff.mp hlast] at hsome
    exact absurd hsome (by decide)
  | some found =>
    obtain ⟨n, hn, hgrid⟩ := List.exists_of_findSome?_eq_some hfound
    obtain ⟨d, hd, rfl⟩ := Option.map_eq_some_iff.mp hgrid
    have hstrip :=
      stripZeros_spec 17 d (topPower mantissa exponent - n) (ne_zero_of_onGrid? hpos hd)
    rw [List.mem_range] at hn
    rw [Option.getD_some]
    omega

end Search

/-! ## Numbers of the format -/

section Format

/-- A number of the format has at most 309 digits before the point, and reaches the 324th digit
behind it. -/
theorem topPower_bounds {mantissa : Nat} {exponent : Int} (hformat : InFormat mantissa exponent) :
    -324 ≤ topPower mantissa exponent ∧ topPower mantissa exponent < 309 := by
  obtain ⟨hbits, hmin, hmax⟩ := hformat
  have hminExponent : minExponent = -1074 := rfl
  have hmaxExponent : maxExponent = 971 := rfl
  have hnum : mantissa * pow2 exponent.toNat < pow10 309 :=
    calc mantissa * pow2 exponent.toNat
        ≤ mantissa * pow2 971 := Nat.mul_le_mul_left _ (pow2_le_pow2 (by omega))
      _ < pow2 53 * pow2 971 := Nat.mul_lt_mul_of_pos_right hbits (pow2_pos 971)
      _ < pow10 309 := by decide +kernel
  have hden : pow2 (-exponent).toNat < pow10 324 :=
    calc pow2 (-exponent).toNat
        ≤ pow2 1074 := pow2_le_pow2 (by omega)
      _ < pow10 324 := by decide +kernel
  exact log10_bounds (by decide) (by decide) hnum hden

/-- A positive number of the format has a positive decimal, with an exponent of three digits. -/
theorem positive?_bounds {x : Binary64} {d : Decimal} (hd : x.positive? = some d) :
    0 < d.coefficient ∧ -340 ≤ d.exponent ∧ d.exponent ≤ 325 := by
  unfold positive? at hd
  split at hd
  · rename_i mantissa exponent hformat
    split_ifs at hd with hzero
    cases hd
    have hshortest := shortest_pos exponent (Nat.pos_of_ne_zero hzero) hformat.1
    have htop := topPower_bounds hformat
    show 0 < ((shortest mantissa exponent).1 : Int) ∧ -340 ≤ (shortest mantissa exponent).2 ∧
      (shortest mantissa exponent).2 ≤ 325
    omega
  · cases hd

end Format

end Binary64

end PixelRem
