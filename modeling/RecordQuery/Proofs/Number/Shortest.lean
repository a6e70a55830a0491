import Mathlib.Algebra.Order.Field.Power
import Mathlib.Algebra.Order.Field.Rat
import Mathlib.Tactic.Linarith
import Mathlib.Tactic.Positivity
import Mathlib.Tactic.Ring
import RecordQuery.Number.Shortest

/-! # What the fewest digits tell

A floating point number has one canonical form (`Binary64.Canonical`), and rounding yields no other.
The reals that are read as a number lie in an interval around it (`Binary64.Covers`), and those of
different numbers have no real in common (`Covers.eq`). The digits written for a number lie in its
interval, since seventeen digits always reach into it (`covers_shortest`), so they tell which number
it is, its sign aside (`eq_of_shortest`).

Every comparison of the definitions is between natural numbers that are scaled by powers; `scaled`
takes it to the rational numbers. -/

namespace RecordQuery

/-! ### Scaled comparisons -/

/-- A power by an integer, as a quotient of powers by natural numbers. -/
theorem zpow_eq_div (b : ℚ) (k : ℤ) : b ^ k = b ^ k.toNat / b ^ (-k).toNat := by
  obtain ⟨n, rfl | rfl⟩ := k.eq_nat_or_neg
  · simp
  · simp

/-- The factor that takes a comparison of rational numbers to one of natural numbers. -/
theorem scaled {b d : ℕ} (hb : 0 < b) (hd : 0 < d) (k : ℤ) :
    ∃ f : ℚ, 0 < f ∧ (∀ m : ℕ, (m : ℚ) * b ^ k * f = ((m * (d * b ^ k.toNat) : ℕ) : ℚ)) ∧
      ∀ n : ℕ, (n : ℚ) / d * f = ((n * b ^ (-k).toNat : ℕ) : ℚ) := by
  have hb' : (0 : ℚ) < b := by exact_mod_cast hb
  have hd' : (0 : ℚ) < d := by exact_mod_cast hd
  have hpow : (0 : ℚ) < b ^ (-k).toNat := pow_pos hb' _
  refine ⟨d * b ^ (-k).toNat, mul_pos hd' hpow, fun m => ?_, fun n => ?_⟩
  · rw [zpow_eq_div, mul_div_assoc', div_mul_eq_mul_div, div_eq_iff hpow.ne']
    push_cast
    ring
  · rw [div_mul_eq_mul_div, div_eq_iff hd'.ne']
    push_cast
    ring

section

variable {b d m n : ℕ} {k : ℤ}

theorem le_ratio (hb : 0 < b) (hd : 0 < d) :
    m * (d * b ^ k.toNat) ≤ n * b ^ (-k).toNat ↔ (m : ℚ) * b ^ k ≤ (n : ℚ) / d := by
  obtain ⟨f, hf, hm, hn⟩ := scaled hb hd k
  rw [← mul_le_mul_iff_left₀ hf, hm, hn, Nat.cast_le]

theorem ratio_le (hb : 0 < b) (hd : 0 < d) :
    n * b ^ (-k).toNat ≤ m * (d * b ^ k.toNat) ↔ (n : ℚ) / d ≤ (m : ℚ) * b ^ k := by
  obtain ⟨f, hf, hm, hn⟩ := scaled hb hd k
  rw [← mul_le_mul_iff_left₀ hf, hm, hn, Nat.cast_le]

theorem ratio_lt (hb : 0 < b) (hd : 0 < d) :
    n * b ^ (-k).toNat < m * (d * b ^ k.toNat) ↔ (n : ℚ) / d < (m : ℚ) * b ^ k := by
  rw [← not_le, le_ratio hb hd, not_le]

end

namespace Binary64

/-! ### Canonical numbers -/

/-- The form that a finite number has: a mantissa of 53 bits, or the least exponent. -/
structure Canonical (x : Binary64) : Prop where
  mantissa_lt : x.mantissa < 2 ^ 53
  exponent_ge : -1074 ≤ x.exponent
  exponent_le : x.exponent ≤ 971
  full : x.exponent = -1074 ∨ 2 ^ 52 ≤ x.mantissa

/-- A quotient lies between two powers of two that its logarithms tell. -/
theorem log2_bounds {num den : ℕ} (hn : 0 < num) (hd : 0 < den) :
    (2 : ℚ) ^ ((num.log2 : ℤ) - den.log2 - 1) ≤ num / den ∧
      (num : ℚ) / den < 2 ^ ((num.log2 : ℤ) - den.log2 + 1) := by
  have hd' : (0 : ℚ) < den := by exact_mod_cast hd
  have hlow : ((2 : ℚ) ^ num.log2) ≤ num := by exact_mod_cast Nat.log2_self_le hn.ne'
  have hhigh : (num : ℚ) < 2 ^ (num.log2 + 1) := by exact_mod_cast Nat.lt_log2_self
  have hlow' : ((2 : ℚ) ^ den.log2) ≤ den := by exact_mod_cast Nat.log2_self_le hd.ne'
  have hhigh' : (den : ℚ) < 2 ^ (den.log2 + 1) := by exact_mod_cast Nat.lt_log2_self
  have hsplit (i j : ℕ) : (2 : ℚ) ^ ((i : ℤ) - j) = 2 ^ i / 2 ^ j := by
    rw [zpow_sub₀ (by norm_num), zpow_natCast, zpow_natCast]
  constructor
  · rw [show (num.log2 : ℤ) - den.log2 - 1 = (num.log2 : ℤ) - (den.log2 + 1 : ℕ) by omega, hsplit]
    exact div_le_div₀ (by positivity) hlow hd' hhigh'.le
  · rw [show (num.log2 : ℤ) - den.log2 + 1 = (num.log2 + 1 : ℕ) - (den.log2 : ℤ) by omega, hsplit]
    calc (num : ℚ) / den < 2 ^ (num.log2 + 1) / den := div_lt_div_of_pos_right hhigh hd'
      _ ≤ 2 ^ (num.log2 + 1) / 2 ^ den.log2 :=
        div_le_div_of_nonneg_left (by positivity) (by positivity) hlow'

theorem exponentOf_ge (num den : ℕ) : -1074 ≤ exponentOf num den := le_max_right _ _

/-- At the exponent of a quotient its mantissa has 53 bits, unless the exponent is the least one. -/
theorem exponentOf_spec {num den : ℕ} (hn : 0 < num) (hd : 0 < den) :
    (num : ℚ) / den < (2 ^ 53 : ℕ) * 2 ^ exponentOf num den ∧
      (exponentOf num den = -1074 ∨
        ((2 ^ 52 : ℕ) : ℚ) * 2 ^ exponentOf num den ≤ (num : ℚ) / den) := by
  obtain ⟨hlow, hhigh⟩ := log2_bounds hn hd
  have hpow (i : ℕ) (k : ℤ) : ((2 ^ i : ℕ) : ℚ) * 2 ^ k = 2 ^ (i + k) := by
    rw [zpow_add₀ (by norm_num)]
    push_cast
    rw [zpow_natCast]
  have hmono {i j : ℤ} (h : i ≤ j) : (2 : ℚ) ^ i ≤ 2 ^ j := zpow_le_zpow_right₀ (by norm_num) h
  let guess : ℤ := (num.log2 : ℤ) - den.log2 - 52
  let full : Prop := 2 ^ 52 * den * 2 ^ guess.toNat ≤ num * 2 ^ (-guess).toNat
  obtain ⟨e, he, hbelow, habove⟩ : ∃ e, exponentOf num den = max e (-1074) ∧
      (num : ℚ) / den < 2 ^ (53 + e) ∧ (2 : ℚ) ^ (52 + e) ≤ num / den := by
    have hiff : full ↔ (2 : ℚ) ^ (52 + guess) ≤ num / den := by
      change 2 ^ 52 * den * 2 ^ guess.toNat ≤ num * 2 ^ (-guess).toNat ↔ _
      rw [mul_assoc, le_ratio two_pos hd, Nat.cast_two, hpow]
      rfl
    by_cases hfull : full
    · refine ⟨guess, ?_, hhigh.trans_le (hmono (by omega)), hiff.mp hfull⟩
      exact congrArg (max · (-1074)) (if_pos hfull)
    · refine ⟨guess - 1, ?_, ?_, le_trans (hmono (by omega)) hlow⟩
      · exact congrArg (max · (-1074)) (if_neg hfull)
      · rw [show 53 + (guess - 1) = 52 + guess by omega]
        exact not_le.mp fun h => hfull (hiff.mpr h)
  rw [hpow, hpow, he]
  refine ⟨hbelow.trans_le (hmono (by have := le_max_left e (-1074); push_cast; omega)), ?_⟩
  obtain h | h := max_choice e (-1074)
  · rw [h]
    exact .inr habove
  · exact .inl h

/-- Rounding a quotient moves it by less than one. -/
theorem roundQuotient_cases (num den : ℕ) :
    roundQuotient num den = num / den ∨ roundQuotient num den = num / den + 1 := by
  unfold roundQuotient
  dsimp only
  split
  · exact .inl rfl
  · exact .inr rfl

theorem canonical_zero : zero.Canonical := ⟨by decide, by decide, by decide, .inl rfl⟩

/-- **Rounding yields canonical numbers.** -/
theorem canonical_of_ofRatio? {num den : ℕ} {x : Binary64} (hd : 0 < den)
    (h : ofRatio? num den = some x) : x.Canonical := by
  unfold ofRatio? at h
  split at h
  · cases h
    exact canonical_zero
  · next hn =>
    obtain ⟨hbelow, habove⟩ := exponentOf_spec (Nat.pos_of_ne_zero hn) hd
    have hge := exponentOf_ge num den
    generalize exponentOf num den = e at h hbelow habove hge
    dsimp only at h
    have hden : 0 < den * 2 ^ e.toNat := Nat.mul_pos hd (Nat.two_pow_pos _)
    have hupper : num * 2 ^ (-e).toNat / (den * 2 ^ e.toNat) < 2 ^ 53 :=
      (Nat.div_lt_iff_lt_mul hden).mpr ((ratio_lt two_pos hd).mpr hbelow)
    have hlower : e = -1074 ∨ 2 ^ 52 ≤ num * 2 ^ (-e).toNat / (den * 2 ^ e.toNat) :=
      habove.imp_right fun h => (Nat.le_div_iff_mul_le hden).mpr ((le_ratio two_pos hd).mpr h)
    have hround := roundQuotient_cases (num * 2 ^ (-e).toNat) (den * 2 ^ e.toNat)
    generalize roundQuotient (num * 2 ^ (-e).toNat) (den * 2 ^ e.toNat) = m at h hround
    generalize num * 2 ^ (-e).toNat / (den * 2 ^ e.toNat) = q at hupper hlower hround
    by_cases hm : m = 2 ^ 53
    · rw [if_pos hm] at h
      split at h
      · next hle =>
        cases h
        exact ⟨by norm_num, by dsimp only; omega, hle, .inr le_rfl⟩
      · cases h
    · rw [if_neg hm] at h
      split at h
      · next hle =>
        cases h
        exact ⟨by dsimp only; omega, hge, hle, hlower.imp_right fun h => by dsimp only; omega⟩
      · cases h

theorem canonical_of_ofTens? {n : ℕ} {tens : ℤ} {x : Binary64} (h : ofTens? n tens = some x) :
    x.Canonical := by
  unfold ofTens? at h
  split at h
  · cases h
    exact canonical_zero
  · split at h
    · cases h
    · split at h
      · cases h
        exact canonical_zero
      · exact canonical_of_ofRatio? (Nat.pow_pos (by decide)) h

/-! ### Intervals -/

variable {x y : Binary64} {v : ℚ}

/-- A quarter of the step to the next greater number. -/
def quarter (x : Binary64) : ℚ := 2 ^ (x.exponent - 2)

theorem quarter_pos (x : Binary64) : 0 < x.quarter := zpow_pos two_pos _

theorem quarter_eq (x : Binary64) : x.quarter = x.interval.num / x.interval.den := by
  unfold quarter interval
  rw [zpow_eq_div, neg_sub]
  push_cast
  rfl

theorem den_pos (x : Binary64) : 0 < x.interval.den := Nat.two_pow_pos _

theorem interval_here (x : Binary64) : x.interval.here = 4 * x.mantissa := rfl

theorem interval_high (x : Binary64) : x.interval.high = 4 * x.mantissa + 2 := rfl

/-- The reals that are read as the absolute value of a number. -/
structure Covers (x : Binary64) (v : ℚ) : Prop where
  low_le : x.interval.low * x.quarter ≤ v
  le_high : v ≤ x.interval.high * x.quarter
  inside : x.mantissa % 2 = 1 → v ≠ x.interval.low * x.quarter ∧ v ≠ x.interval.high * x.quarter

/-- The bounds of an interval are compared with decimals exactly. -/
theorem covers_iff {d : ℕ} {k : ℤ} :
    x.interval.holds d k = true ↔ x.Covers (d * 10 ^ k) := by
  have hbound (n : ℕ) : (n : ℚ) * x.quarter = (n * x.interval.num : ℕ) / (x.interval.den : ℕ) := by
    rw [quarter_eq]
    push_cast
    rw [mul_div_assoc]
  have hpoint : d * 10 ^ k.toNat * x.interval.den = d * (x.interval.den * 10 ^ k.toNat) := by ring
  have hle (n : ℕ) : n * x.interval.num * 10 ^ (-k).toNat ≤ d * 10 ^ k.toNat * x.interval.den ↔
      n * x.quarter ≤ d * 10 ^ k := by
    rw [hpoint, hbound, ratio_le (by decide) x.den_pos, Nat.cast_ofNat]
  have hge (n : ℕ) : d * 10 ^ k.toNat * x.interval.den ≤ n * x.interval.num * 10 ^ (-k).toNat ↔
      d * 10 ^ k ≤ n * x.quarter := by
    rw [hpoint, hbound, le_ratio (by decide) x.den_pos, Nat.cast_ofNat]
  have hclosed : x.interval.closed = true ↔ x.mantissa % 2 = 0 := beq_iff_eq
  unfold Interval.holds
  dsimp only
  by_cases heven : x.mantissa % 2 = 0
  · rw [if_pos (hclosed.mpr heven), decide_eq_true_iff, hle, hge]
    exact ⟨fun h => ⟨h.1, h.2, fun hodd => by omega⟩, fun h => ⟨h.low_le, h.le_high⟩⟩
  · rw [if_neg (mt hclosed.mp heven), decide_eq_true_iff, ← not_le, ← not_le, hge, hle, not_le,
      not_le]
    refine ⟨fun h => ⟨h.1.le, h.2.le, fun _ => ⟨h.1.ne', h.2.ne⟩⟩, fun h => ?_⟩
    obtain ⟨hlow, hhigh⟩ := h.inside (Nat.mod_two_ne_zero.mp heven)
    exact ⟨h.low_le.lt_of_ne hlow.symm, h.le_high.lt_of_ne hhigh⟩

/-- The lower bound of an interval is half a step down, or a quarter of one. -/
theorem low_cases (x : Binary64) :
    x.interval.low = 4 * x.mantissa - 2 ∨
      x.interval.low = 4 * x.mantissa - 1 ∧ x.mantissa = 2 ^ 52 ∧ -1074 < x.exponent := by
  unfold interval
  dsimp only
  split
  · next h => exact .inr ⟨rfl, h⟩
  · exact .inl rfl

/-- A real between numbers of one exponent is read as one of them only. -/
theorem not_covers_of_mantissa_lt (hx : x.Canonical)
    (he : x.exponent = y.exponent) (hm : x.mantissa < y.mantissa) (hcx : x.Covers v) :
    ¬ y.Covers v := by
  intro hcy
  have hquarter : x.quarter = y.quarter := by rw [quarter, quarter, he]
  have hlow : x.interval.high ≤ y.interval.low := by
    rw [interval_high]
    obtain h | ⟨-, hfull, hgt⟩ := low_cases y
    · omega
    · have hfull' := hx.full.resolve_left (by omega)
      omega
  have hbounds : (x.interval.high : ℚ) * x.quarter ≤ y.interval.low * y.quarter := by
    rw [hquarter]
    exact mul_le_mul_of_nonneg_right (by exact_mod_cast hlow) y.quarter_pos.le
  have hhigh : v = x.interval.high * x.quarter :=
    le_antisymm hcx.le_high (hbounds.trans hcy.low_le)
  have hlow' : v = y.interval.low * y.quarter :=
    le_antisymm (hcx.le_high.trans hbounds) hcy.low_le
  have hxeven : x.mantissa % 2 ≠ 1 := fun h => (hcx.inside h).2 hhigh
  have hyeven : y.mantissa % 2 ≠ 1 := fun h => (hcy.inside h).1 hlow'
  have hsame : x.interval.high = y.interval.low := by
    have h := hhigh.symm.trans hlow'
    rw [hquarter] at h
    exact_mod_cast mul_right_cancel₀ y.quarter_pos.ne' h
  rw [interval_high] at hsame
  obtain h | ⟨h, -, -⟩ := low_cases y
  · omega
  · omega

/-- A real between numbers of different exponents is read as one of them only. -/
theorem not_covers_of_exponent_lt (hy : y.Canonical) (hx : x.Canonical)
    (he : x.exponent < y.exponent) (hcx : x.Covers v) : ¬ y.Covers v := by
  intro hcy
  have hquarter : 2 * x.quarter ≤ y.quarter := by
    unfold quarter
    calc (2 : ℚ) * 2 ^ (x.exponent - 2) = 2 ^ (1 + (x.exponent - 2)) := by
          rw [zpow_add₀ (by norm_num), zpow_one]
      _ ≤ 2 ^ (y.exponent - 2) := zpow_le_zpow_right₀ (by norm_num) (by omega)
  have hfull := hy.full.resolve_left (by have := hx.exponent_ge; omega)
  have hlow : 2 ^ 54 - 1 ≤ y.interval.low := by
    obtain h | ⟨h, -, -⟩ := low_cases y
    · have hne : y.mantissa ≠ 2 ^ 52 := by
        intro hm
        have hlow : y.interval.low = 4 * y.mantissa - 1 := by
          unfold interval
          exact congrArg (4 * y.mantissa - ·)
            (if_pos ⟨hm, hx.exponent_ge.trans_lt he⟩)
        omega
      omega
    · omega
  have hhigh : x.interval.high ≤ 2 ^ 55 - 2 := by
    have := hx.mantissa_lt
    rw [interval_high]
    omega
  have hlow' : ((2 ^ 54 - 1 : ℕ) : ℚ) ≤ y.interval.low := by exact_mod_cast hlow
  have hbelow : ((2 ^ 55 - 2 : ℕ) : ℚ) * x.quarter ≤ v := by
    calc ((2 ^ 55 - 2 : ℕ) : ℚ) * x.quarter = (2 ^ 54 - 1 : ℕ) * (2 * x.quarter) := by
          push_cast
          ring
      _ ≤ y.interval.low * y.quarter := by
          exact mul_le_mul hlow' hquarter (by have := x.quarter_pos; positivity) (by positivity)
      _ ≤ v := hcy.low_le
  have hhigh' : (x.interval.high : ℚ) * x.quarter ≤ (2 ^ 55 - 2 : ℕ) * x.quarter :=
    mul_le_mul_of_nonneg_right (by exact_mod_cast hhigh) x.quarter_pos.le
  -- Only the greatest mantissa reaches this far, and it is odd.
  have hv : v = x.interval.high * x.quarter :=
    le_antisymm hcx.le_high (hhigh'.trans hbelow)
  have hsame : x.interval.high = 2 ^ 55 - 2 := by
    have h := le_antisymm hhigh' (hv ▸ hbelow)
    exact_mod_cast mul_right_cancel₀ x.quarter_pos.ne' h
  refine (hcx.inside ?_).2 hv
  rw [interval_high] at hsame
  omega

/-- **A real is read as one number only**, signs aside. -/
theorem Covers.eq (hx : x.Canonical) (hy : y.Canonical) (hcx : x.Covers v) (hcy : y.Covers v) :
    x.mantissa = y.mantissa ∧ x.exponent = y.exponent := by
  obtain he | he | he := lt_trichotomy x.exponent y.exponent
  · exact absurd hcy (not_covers_of_exponent_lt hy hx he hcx)
  · obtain hm | hm | hm := lt_trichotomy x.mantissa y.mantissa
    · exact absurd hcy (not_covers_of_mantissa_lt hx he hm hcx)
    · exact ⟨hm, he⟩
    · exact absurd hcx (not_covers_of_mantissa_lt hy he.symm hm hcy)
  · exact absurd hcx (not_covers_of_exponent_lt hx hy he hcy)

end Binary64

/-! ### The digits written -/

/-- The number that digits denote. -/
def Digits.value (d : Digits) : ℚ := d.coefficient * 10 ^ d.exponent

namespace Binary64

variable {x y : Binary64}

/-- The first exponent that is tried for a power of two is small enough for it: the fraction that
the logarithm of two is taken for lies between two others, up to the digit that is subtracted. -/
theorem tens_le_twos {p : ℤ} (hlow : -1080 ≤ p) (hhigh : p ≤ 1030) :
    (10 : ℚ) ^ (p * 30103 / 100000 - 1) ≤ 2 ^ p := by
  generalize hg : p * 30103 / 100000 - 1 = g
  have hroot (n a : ℕ) (hn : n ≠ 0) (hle : n * g ≤ a * p)
      (hpow : ((10 : ℚ) ^ a) ^ p ≤ (2 ^ n) ^ p) : (10 : ℚ) ^ g ≤ 2 ^ p := by
    refine le_of_pow_le_pow_left₀ hn (by positivity) ?_
    calc ((10 : ℚ) ^ g) ^ n = 10 ^ (n * g) := by rw [← zpow_natCast, ← zpow_mul, mul_comm]
      _ ≤ 10 ^ (a * p) := zpow_le_zpow_right₀ (by norm_num) hle
      _ = (10 ^ a) ^ p := by rw [← zpow_natCast, ← zpow_mul]
      _ ≤ (2 ^ n) ^ p := hpow
      _ = (2 ^ p) ^ n := by rw [← zpow_natCast, ← zpow_natCast, ← zpow_mul, ← zpow_mul, mul_comm]
  obtain hp | hp := le_total 0 p
  · exact hroot 196 59 (by decide) (by push_cast; omega)
      (zpow_le_zpow_left₀ hp (by positivity) (by norm_num))
  · refine hroot 93 28 (by decide) (by push_cast; omega) ?_
    obtain ⟨q, rfl⟩ := Int.exists_eq_neg_ofNat hp
    rw [zpow_neg, zpow_neg, zpow_natCast, zpow_natCast]
    exact inv_anti₀ (by positivity) (pow_le_pow_left₀ (by positivity) (by norm_num) q)

/-- The value of a number, its sign aside, is that many quarters. -/
theorem value_bounds (hx : x.Canonical) (hzero : x.mantissa ≠ 0) :
    (2 : ℚ) ^ (-1074 : ℤ) ≤ x.interval.here * x.quarter ∧
      x.interval.here * x.quarter < 2 ^ (1024 : ℤ) := by
  have hone : (1 : ℚ) ≤ x.mantissa := by exact_mod_cast Nat.one_le_iff_ne_zero.mpr hzero
  have htop : (x.mantissa : ℚ) < 2 ^ (53 : ℤ) := by exact_mod_cast hx.mantissa_lt
  have hvalue : x.interval.here * x.quarter = x.mantissa * (2 : ℚ) ^ x.exponent := by
    rw [interval_here, quarter, zpow_sub₀ (by norm_num)]
    push_cast
    ring
  have hpos : (0 : ℚ) < 2 ^ x.exponent := zpow_pos two_pos _
  rw [hvalue]
  constructor
  · calc (2 : ℚ) ^ (-1074 : ℤ) ≤ 2 ^ x.exponent :=
        zpow_le_zpow_right₀ (by norm_num) hx.exponent_ge
      _ ≤ x.mantissa * 2 ^ x.exponent := le_mul_of_one_le_left hpos.le hone
  · calc (x.mantissa : ℚ) * 2 ^ x.exponent < 2 ^ (53 : ℤ) * 2 ^ x.exponent :=
        mul_lt_mul_of_pos_right htop hpos
      _ = 2 ^ (53 + x.exponent) := (zpow_add₀ (by norm_num) _ _).symm
      _ ≤ 2 ^ (1024 : ℤ) :=
        zpow_le_zpow_right₀ (by norm_num) (by have := hx.exponent_le; omega)

/-- The exponent of the first digit is not too great. -/
theorem leadingExponent_le {num den : ℕ} (hn : 0 < num) (hd : 0 < den)
    (hlow : (2 : ℚ) ^ (-1074 : ℤ) ≤ num / den) (hhigh : (num : ℚ) / den < 2 ^ (1024 : ℤ)) :
    (10 : ℚ) ^ leadingExponent num den ≤ num / den := by
  obtain ⟨hlog, hlog'⟩ := log2_bounds hn hd
  let p : ℤ := (num.log2 : ℤ) - den.log2 - 1
  have hp : p < 1024 := (zpow_lt_zpow_iff_right₀ one_lt_two).mp (hlog.trans_lt hhigh)
  have hp' : -1074 < p + 2 := by
    refine (zpow_lt_zpow_iff_right₀ (@one_lt_two ℚ _ _ _ _ _)).mp (hlow.trans_lt ?_)
    rw [show p + 2 = (num.log2 : ℤ) - den.log2 + 1 by omega]
    exact hlog'
  have hguess : (10 : ℚ) ^ (p * 30103 / 100000 - 1) ≤ num / den :=
    (tens_le_twos (by omega) (by omega)).trans hlog
  have hreached (e : ℤ) (h : decide (den * 10 ^ e.toNat ≤ num * 10 ^ (-e).toNat) = true) :
      (10 : ℚ) ^ e ≤ num / den := by
    rw [decide_eq_true_iff, ← one_mul (den * _), le_ratio (by decide) hd, Nat.cast_one, one_mul] at h
    exact h
  unfold leadingExponent
  dsimp only
  split
  · next h => exact hreached _ h
  · split
    · next h => exact hreached _ h
    · exact hguess

/-- Where neither of two neighbours on a grid lies in the interval of a number between them, the
interval is not wider than a step of the grid. -/
theorem width_le_of_not_covers {d : ℕ} {t : ℚ} (hbelow : d * t ≤ x.interval.here * x.quarter)
    (habove : x.interval.here * x.quarter < (d + 1 : ℕ) * t) (hnone : ¬ x.Covers (d * t))
    (hnone' : ¬ x.Covers ((d + 1 : ℕ) * t)) :
    (x.interval.high - x.interval.low : ℚ) * x.quarter ≤ t := by
  have hq := x.quarter_pos
  have hupper : x.interval.high * x.quarter ≤ (d + 1 : ℕ) * t := by
    by_contra hlt
    rw [not_le] at hlt
    have hlow : (x.interval.low : ℚ) * x.quarter < (d + 1 : ℕ) * t := by
      refine lt_of_le_of_lt (mul_le_mul_of_nonneg_right ?_ hq.le) habove
      have hle : x.interval.low ≤ x.interval.here := Nat.sub_le _ _
      exact_mod_cast hle
    exact hnone' ⟨hlow.le, hlt.le, fun _ => ⟨hlow.ne', hlt.ne⟩⟩
  have hlower : d * t ≤ x.interval.low * x.quarter := by
    by_contra hlt
    rw [not_le] at hlt
    have hhigh : (d : ℚ) * t < x.interval.high * x.quarter := by
      refine lt_of_le_of_lt hbelow (mul_lt_mul_of_pos_right ?_ hq)
      have hlt' : x.interval.here < x.interval.high := Nat.lt_add_of_pos_right two_pos
      exact_mod_cast hlt'
    exact hnone ⟨hlt.le, hhigh.le, fun _ => ⟨hlt.ne', hhigh.ne⟩⟩
  have hstep : t = (d + 1 : ℕ) * t - d * t := by
    push_cast
    ring
  rw [hstep, sub_mul]
  linarith

/-- One of two neighbours on a grid lies in the interval of a number, if seventeen steps of the grid
from the first digit on do not reach beyond the number. -/
theorem covers_of_grid (hx : x.Canonical) (hzero : x.mantissa ≠ 0) {d : ℕ} {t : ℚ}
    (hgrid : 10 ^ 16 * t ≤ x.interval.here * x.quarter)
    (hbelow : d * t ≤ x.interval.here * x.quarter)
    (habove : x.interval.here * x.quarter < (d + 1 : ℕ) * t) :
    x.Covers (d * t) ∨ x.Covers ((d + 1 : ℕ) * t) := by
  by_contra hnone
  obtain ⟨hnone, hnone'⟩ := not_or.mp hnone
  have hwide := width_le_of_not_covers hbelow habove hnone hnone'
  have hcount : (10 : ℚ) ^ 16 * (x.interval.high - x.interval.low) ≤ x.interval.here := by
    refine le_of_mul_le_mul_right ?_ x.quarter_pos
    linarith
  have hbound : (x.mantissa : ℚ) < 2 ^ 53 := by exact_mod_cast hx.mantissa_lt
  rw [interval_here, interval_high] at hcount
  push_cast at hcount
  obtain h | ⟨h, hfull, -⟩ := low_cases x
  · have hlow : (x.interval.low : ℚ) + 2 = 4 * x.mantissa := by
      exact_mod_cast (show x.interval.low + 2 = 4 * x.mantissa by omega)
    linarith
  · have hlow : (x.interval.low : ℚ) + 1 = 4 * x.mantissa := by
      exact_mod_cast (show x.interval.low + 1 = 4 * x.mantissa by omega)
    have hfull' : (x.mantissa : ℚ) = 2 ^ 52 := by exact_mod_cast hfull
    linarith

/-- A point that is found on a grid lies in the interval. -/
theorem covers_of_onGrid? {halfUp : Bool} {k : ℤ} {d : Digits}
    (h : x.interval.onGrid? halfUp k = some d) : x.Covers d.value := by
  unfold Interval.onGrid? at h
  dsimp only at h
  split at h
  · cases h
  · next hdown _ =>
    cases h
    exact covers_iff.mp hdown
  · next _ hup =>
    cases h
    exact covers_iff.mp hup
  · next hdown hup =>
    cases h
    unfold Digits.value
    dsimp only
    split
    · exact covers_iff.mp hdown
    · exact covers_iff.mp hup

theorem not_holds_of_onGrid? {halfUp : Bool} {k : ℤ} (h : x.interval.onGrid? halfUp k = none) :
    let d := x.interval.here * x.interval.num * 10 ^ (-k).toNat / (x.interval.den * 10 ^ k.toNat)
    ¬ x.Covers (d * 10 ^ k) ∧ ¬ x.Covers ((d + 1 : ℕ) * 10 ^ k) := by
  unfold Interval.onGrid? at h
  dsimp only at h
  split at h
  · next hdown hup =>
    intro d
    rw [← covers_iff, ← covers_iff, Bool.not_eq_true, Bool.not_eq_true]
    exact ⟨hdown, hup⟩
  all_goals cases h

/-- Seventeen digits reach into the interval of a number. -/
theorem onGrid?_ne_none (halfUp : Bool) (hx : x.Canonical) (hzero : x.mantissa ≠ 0) :
    x.interval.onGrid? halfUp
      (leadingExponent (x.interval.here * x.interval.num) x.interval.den - 16) ≠ none := by
  intro hnone
  have hden := x.den_pos
  have hnum : 0 < x.interval.here * x.interval.num :=
    Nat.mul_pos (Nat.mul_pos (by decide) (Nat.pos_of_ne_zero hzero)) (Nat.two_pow_pos _)
  have hratio : x.interval.here * x.quarter =
      (x.interval.here * x.interval.num : ℕ) / (x.interval.den : ℕ) := by
    rw [quarter_eq, Nat.cast_mul, mul_div_assoc]
  obtain ⟨hlow, hhigh⟩ := value_bounds hx hzero
  rw [hratio] at hlow hhigh
  have hlead := leadingExponent_le hnum hden hlow hhigh
  obtain ⟨hdown, hup⟩ := not_holds_of_onGrid? hnone
  generalize leadingExponent _ _ = p at hlead hdown hup
  have hbelow := (le_ratio (by decide) hden).mp
    (Nat.div_mul_le_self (x.interval.here * x.interval.num * 10 ^ (-(p - 16)).toNat)
      (x.interval.den * 10 ^ (p - 16).toNat))
  have habove := (ratio_lt (by decide) hden).mp ((Nat.div_lt_iff_lt_mul
    (Nat.mul_pos hden (Nat.pow_pos (by decide)))).mp (Nat.lt_succ_self
      (x.interval.here * x.interval.num * 10 ^ (-(p - 16)).toNat /
        (x.interval.den * 10 ^ (p - 16).toNat))))
  rw [← hratio, Nat.cast_ofNat] at hbelow habove
  have hgrid : (10 : ℚ) ^ 16 * 10 ^ (p - 16) ≤ x.interval.here * x.quarter := by
    rw [← zpow_natCast, ← zpow_add₀ (by norm_num), hratio]
    exact le_of_eq_of_le (congrArg _ (by push_cast; omega)) hlead
  exact (covers_of_grid hx hzero hgrid hbelow habove).elim hdown hup

/-- **The digits written** for a number lie in its interval. -/
theorem covers_shortest (halfUp : Bool) (hx : x.Canonical) :
    x.Covers (x.shortest halfUp).value := by
  have hiff : x.isZero = true ↔ x.mantissa = 0 := beq_iff_eq
  unfold shortest
  by_cases hzero : x.mantissa = 0
  · rw [if_pos (hiff.mpr hzero)]
    have hlow : x.interval.low = 0 := by
      obtain h | ⟨-, h, -⟩ := low_cases x
      · omega
      · omega
    refine ⟨?_, ?_, fun hodd => by omega⟩
    · simp [hlow, Digits.value]
    · have := x.quarter_pos
      simp only [Digits.value, Nat.cast_zero, zero_mul]
      positivity
  · rw [if_neg (mt hiff.mp hzero)]
    dsimp only
    cases hhit : (List.range 17).findSome? fun n : ℕ => x.interval.onGrid? halfUp
        (leadingExponent (x.interval.here * x.interval.num) x.interval.den - (n : ℤ)) with
    | none =>
      have hnone := List.findSome?_eq_none_iff.mp hhit 16 (by decide)
      exact absurd hnone (onGrid?_ne_none halfUp hx hzero)
    | some d =>
      obtain ⟨n, -, hd⟩ := List.exists_of_findSome?_eq_some hhit
      exact covers_of_onGrid? hd

/-- The digits written tell which number they are written for, its sign aside. -/
theorem eq_of_shortest {halfUp : Bool} (hx : x.Canonical) (hy : y.Canonical)
    (h : (x.shortest halfUp).value = (y.shortest halfUp).value) :
    x.mantissa = y.mantissa ∧ x.exponent = y.exponent :=
  Covers.eq hx hy (covers_shortest halfUp hx) (h ▸ covers_shortest halfUp hy)

end Binary64

end RecordQuery
