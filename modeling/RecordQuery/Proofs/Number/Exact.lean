import Mathlib.Tactic.FieldSimp
import RecordQuery.Proofs.Number.Values
import RecordQuery.Proofs.Number.Written

/-! # How exactly a decimal holds a literal

A literal is read as a decimal in three steps. The digits in front of the point are all kept, and
those behind it while they fit; the first digit that does not fit rounds the ones that were kept
(`addFraction_eq`, `rounded_spec`). An exponent and the zeros at the end change no value
(`value_shift`, `value_stripZeros`). So a decimal is the literal exactly if the digits that were
dropped are zeros, and otherwise half a unit away from it at most (`rounds_of_read?`). -/

namespace RecordQuery

namespace Decimal

/-- The number that a decimal stands for. -/
def value (d : Decimal) : ℚ := d.coefficient / 10 ^ d.scale

/-! ### Digits behind a point -/

theorem toNat_of_isDigit {c : Char} (h : c.isDigit = true) : 48 ≤ c.toNat ∧ c.toNat ≤ 57 := by
  unfold Char.isDigit at h
  rw [Bool.and_eq_true, decide_eq_true_eq, decide_eq_true_eq] at h
  exact h

theorem digit_lt {c : Char} (h : c.isDigit = true) : digit c < 10 := by
  have hbounds := toNat_of_isDigit h
  have hzero : '0'.toNat = 48 := rfl
  unfold digit
  omega

theorem digit_eq_zero {c : Char} (h : c.isDigit = true) : digit c = 0 ↔ c = '0' := by
  have hbounds := toNat_of_isDigit h
  have hzero : '0'.toNat = 48 := rfl
  unfold digit
  rw [← Char.toNat_inj]
  omega

theorem natural_cons (c : Char) (ds : List Char) :
    natural (c :: ds) = digit c * 10 ^ ds.length + natural ds := by
  have happend := natural_append [c] ds
  rw [List.singleton_append] at happend
  rw [happend]
  congr 1
  unfold natural
  rw [List.foldl_cons, List.foldl_nil, Nat.zero_mul, Nat.zero_add]

/-- The number that digits right behind a point stand for. -/
def behindPoint (ds : List Char) : ℚ := natural ds / 10 ^ ds.length

theorem behindPoint_cons (c : Char) (ds : List Char) :
    behindPoint (c :: ds) = (digit c + behindPoint ds) / 10 := by
  unfold behindPoint
  rw [natural_cons, List.length_cons, pow_succ]
  push_cast
  field_simp

theorem behindPoint_nonneg (ds : List Char) : 0 ≤ behindPoint ds := by
  unfold behindPoint
  positivity

theorem behindPoint_lt {ds : List Char} (h : AllDigits ds) : behindPoint ds < 1 := by
  induction ds with
  | nil => norm_num [behindPoint, natural]
  | cons c ds ih =>
    have hc : (digit c : ℚ) ≤ 9 := by
      have := digit_lt (h c List.mem_cons_self)
      exact_mod_cast (by omega : digit c ≤ 9)
    have hds := ih fun d hd => h d (List.mem_cons_of_mem _ hd)
    rw [behindPoint_cons, div_lt_one (by norm_num)]
    linarith

theorem behindPoint_eq_zero {ds : List Char} (h : AllDigits ds) :
    behindPoint ds = 0 ↔ ∀ c ∈ ds, c = '0' := by
  induction ds with
  | nil => exact iff_of_true (by norm_num [behindPoint, natural]) nofun
  | cons c ds ih =>
    have hds := behindPoint_nonneg ds
    have hc : (0 : ℚ) ≤ digit c := Nat.cast_nonneg _
    rw [behindPoint_cons, List.forall_mem_cons, ← ih fun d hd => h d (List.mem_cons_of_mem _ hd),
      ← digit_eq_zero (h c List.mem_cons_self), div_eq_zero_iff, add_eq_zero_iff_of_nonneg hc hds]
    norm_num

/-! ### Rounding -/

/-- A coefficient rounded by the digits that were dropped. -/
def rounded (n scale : ℕ) : List Char → Option (ℕ × ℕ)
  | [] => some (n, scale)
  | c :: _ => roundBy n scale (digit c)

/-- Digits are taken in as long as they fit, and the first one that does not rounds the others. -/
theorem addFraction_eq (ds : List Char) : ∀ n scale : ℕ, n < 2 ^ 96 → scale ≤ 28 →
    ∃ kept dropped, ds = kept ++ dropped ∧ scale + kept.length ≤ 28 ∧
      n * 10 ^ kept.length + natural kept < 2 ^ 96 ∧
      (∀ c ∈ dropped.head?, ¬ (scale + kept.length < 28 ∧
        (n * 10 ^ kept.length + natural kept) * 10 + digit c < 2 ^ 96)) ∧
      addFraction n scale ds =
        rounded (n * 10 ^ kept.length + natural kept) (scale + kept.length) dropped := by
  induction ds with
  | nil =>
    intro n scale hn hscale
    refine ⟨[], [], rfl, hscale, ?_, nofun, ?_⟩
    · simpa [natural] using hn
    · simp [addFraction, rounded, natural]
  | cons c ds ih =>
    intro n scale hn hscale
    by_cases hfits : scale < 28 ∧ n * 10 + digit c < 2 ^ 96
    · obtain ⟨kept, dropped, rfl, hkept, hlt, hnext, heq⟩ := ih _ (scale + 1) hfits.2 hfits.1
      have hvalue : (n * 10 + digit c) * 10 ^ kept.length + natural kept =
          n * 10 ^ (c :: kept).length + natural (c :: kept) := by
        rw [natural_cons, List.length_cons, pow_succ]
        ring
      have hlength : scale + 1 + kept.length = scale + (c :: kept).length := by
        rw [List.length_cons]
        omega
      rw [hvalue] at hlt hnext heq
      rw [hlength] at hkept hnext heq
      refine ⟨c :: kept, dropped, rfl, hkept, hlt, hnext, ?_⟩
      rw [addFraction, if_pos hfits]
      exact heq
    · refine ⟨[], c :: ds, rfl, hscale, ?_, ?_, ?_⟩
      · simpa [natural] using hn
      · rintro _ ⟨⟩
        simpa [natural] using hfits
      · rw [addFraction, if_neg hfits]
        simp [rounded, natural]

/-- What rounding by a digit does. The greatest coefficient cannot grow by one, so it is rounded to
one place less. -/
theorem roundBy_cases {n scale d r s : ℕ} (hn : n < 2 ^ 96) (h : roundBy n scale d = some (r, s)) :
    (d < 5 ∧ r = n ∧ s = scale) ∨ (5 ≤ d ∧ r = n + 1 ∧ s = scale) ∨
      5 ≤ d ∧ n + 1 = 2 ^ 96 ∧ r = (n + 5) / 10 ∧ s + 1 = scale := by
  unfold roundBy at h
  split at h
  · next hsmall =>
    cases h
    exact .inl ⟨hsmall, rfl, rfl⟩
  · next hlarge =>
    split at h
    · cases h
      exact .inr (.inl ⟨Nat.le_of_not_lt hlarge, rfl, rfl⟩)
    · next hfull =>
      split at h
      · cases h
      · next hscale =>
        cases h
        exact .inr (.inr ⟨Nat.le_of_not_lt hlarge, by omega, rfl, by omega⟩)

theorem rounds_unit {a b f unit : ℚ} (hunit : 0 < unit) (heq : a = b ↔ f = 0)
    (hnear : |a - b| ≤ 1 / 2) :
    (a / unit = b / unit ↔ f = 0) ∧ |a / unit - b / unit| ≤ 1 / 2 / unit := by
  constructor
  · rw [div_left_inj' hunit.ne', heq]
  · rw [← sub_div, abs_div, abs_of_pos hunit]
    gcongr

/-- What rounding by dropped digits does: nothing exactly if they are zeros, and it moves the number
by half a unit of its last place at most. The greatest coefficient gives up its last place. -/
theorem rounded_spec {n scale r s : ℕ} {dropped : List Char} (hn : n < 2 ^ 96)
    (hd : AllDigits dropped) (h : rounded n scale dropped = some (r, s)) :
    (s = scale ∨ s + 1 = scale ∧ n + 1 = 2 ^ 96) ∧
      ((r : ℚ) / 10 ^ s = (n + behindPoint dropped) / 10 ^ scale ↔ ∀ c ∈ dropped, c = '0') ∧
      |(r : ℚ) / 10 ^ s - (n + behindPoint dropped) / 10 ^ scale| ≤ 1 / 2 / 10 ^ s := by
  have hunit (k : ℕ) : (0 : ℚ) < 10 ^ k := by positivity
  have hnonneg := behindPoint_nonneg dropped
  have hlt := behindPoint_lt hd
  rw [← behindPoint_eq_zero hd]
  rcases dropped with _ | ⟨c, rest⟩
  · have hnil : behindPoint [] = 0 := by norm_num [behindPoint, natural]
    cases h
    rw [hnil, add_zero]
    exact ⟨.inl rfl, rounds_unit (hunit _) (iff_of_true rfl rfl) (by norm_num)⟩
  · have hrest := behindPoint_lt fun d hd' => hd d (List.mem_cons_of_mem c hd')
    have hrest' := behindPoint_nonneg rest
    have hcons := behindPoint_cons c rest
    generalize behindPoint (c :: rest) = f at hnonneg hlt hcons
    obtain ⟨hsmall, rfl, rfl⟩ | ⟨hlarge, rfl, rfl⟩ | ⟨hlarge, hgreatest, rfl, rfl⟩ :=
      roundBy_cases hn h
    · have hdigit : (digit c : ℚ) ≤ 4 := by exact_mod_cast (by omega : digit c ≤ 4)
      refine ⟨.inl rfl, rounds_unit (hunit _) left_eq_add ?_⟩
      rw [abs_le]
      constructor <;> linarith
    · have hdigit : (5 : ℚ) ≤ digit c := by exact_mod_cast hlarge
      refine ⟨.inl rfl, rounds_unit (hunit _) ?_ ?_⟩
      · push_cast
        constructor <;> intro heq <;> linarith
      · push_cast
        rw [abs_le]
        constructor <;> linarith
    · have hdigit : (5 : ℚ) ≤ digit c := by exact_mod_cast hlarge
      have htens : (((n + 5) / 10 : ℕ) : ℚ) = (n + 5) / 10 := by
        rw [show n = 2 ^ 96 - 1 by omega]
        norm_num
      have hplace : ((n : ℚ) + f) / 10 ^ (s + 1) = ((n + f) / 10) / 10 ^ s := by
        rw [pow_succ]
        field_simp
      rw [htens, hplace]
      refine ⟨.inr ⟨rfl, hgreatest⟩, rounds_unit (hunit _) ?_ ?_⟩
      · constructor <;> intro heq <;> linarith
      · rw [abs_le]
        constructor <;> linarith

/-! ### Steps that keep the value -/

theorem value_shift {n scale n' s : ℕ} {t : ℤ} (h : shift n scale t = some (n', s)) :
    (n' : ℚ) / 10 ^ s = n / 10 ^ scale * 10 ^ t := by
  have hmove {k : ℕ} (hk : (k : ℤ) = scale - t) : (n : ℚ) / 10 ^ k = n / 10 ^ scale * 10 ^ t := by
    rw [← zpow_natCast, ← zpow_natCast, hk, div_mul, ← zpow_sub₀ (by norm_num)]
  unfold shift at h
  split at h
  · split at h
    · cases h
      exact hmove (by omega)
    · cases h
  · split at h
    · cases h
      exact hmove (by omega)
    · split at h
      · cases h
        have hlift : (10 : ℚ) ^ t = 10 ^ scale * 10 ^ (t - scale).toNat := by
          rw [← zpow_natCast, ← zpow_natCast, ← zpow_add₀ (by norm_num)]
          congr 1
          omega
        rw [hlift]
        push_cast
        field_simp
      · cases h

theorem value_stripZeros (n scale : ℕ) :
    ((stripZeros n scale).1 : ℚ) / 10 ^ (stripZeros n scale).2 = n / 10 ^ scale := by
  fun_induction stripZeros n scale with
  | case1 n => rfl
  | case2 n scale hzero ih =>
    have hn : (n : ℚ) = (n / 10 : ℕ) * 10 := by exact_mod_cast (by omega : n = n / 10 * 10)
    rw [ih, pow_succ, hn]
    field_simp
  | case3 n scale hzero => rfl

theorem value_of_ofParts? {n scale : ℕ} {d : Decimal} (h : ofParts? n scale = some d) :
    d.value = n / 10 ^ scale := by
  unfold ofParts? at h
  split at h
  · cases h
    unfold value
    push_cast
    rfl
  · cases h

theorem read?_value {whole fraction : List Char} {tens : Option ℤ} {d : Decimal}
    (h : read? whole fraction tens = some d) :
    natural whole < 2 ^ 96 ∧ ∃ r s, addFraction (natural whole) 0 fraction = some (r, s) ∧
      d.value = r / 10 ^ s * 10 ^ tens.getD 0 := by
  unfold read? at h
  obtain ⟨⟨r, s⟩, hdigits, h₁⟩ := Option.bind_eq_some_iff.mp h
  have hshifted : ∃ n scale : ℕ, (n : ℚ) / 10 ^ scale = r / 10 ^ s * 10 ^ tens.getD 0 ∧
      ofParts? (stripZeros n scale).1 (stripZeros n scale).2 = some d := by
    rcases tens with _ | t
    · refine ⟨r, s, ?_, h₁⟩
      rw [Option.getD_none, zpow_zero, mul_one]
    · obtain ⟨⟨n, scale⟩, hshift, h₂⟩ := Option.bind_eq_some_iff.mp h₁
      exact ⟨n, scale, value_shift hshift, h₂⟩
  obtain ⟨n, scale, hvalue, hparts⟩ := hshifted
  unfold readDigits at hdigits
  split at hdigits
  · next hwhole =>
    refine ⟨hwhole, r, s, hdigits, ?_⟩
    rw [value_of_ofParts? hparts, value_stripZeros, hvalue]
  · cases hdigits

end Decimal

/-! ### Literals -/

namespace NumberLiteral

open Decimal

variable {l : NumberLiteral} {d : Decimal} {kept dropped ds : List Char}

/-- A decimal can hold digits behind the point, together with those of a literal in front of it. -/
def Fits (l : NumberLiteral) (ds : List Char) : Prop :=
  ds.length ≤ 28 ∧ natural (l.whole ++ ds) < 2 ^ 96

/-- **A decimal is a literal up to rounding.** Its digits behind the point are kept while they fit;
it is the literal exactly if the others are zeros, and otherwise it is half a unit away from it at
most. The unit is that of the last digit kept, or of the one before if there is no greater
coefficient. -/
structure Rounds (l : NumberLiteral) (d : Decimal) (kept dropped : List Char) : Prop where
  parts : l.fraction = kept ++ dropped
  fits : l.Fits kept
  longest : ∀ c ∈ dropped.head?, ¬ l.Fits (kept ++ [c])
  exact_iff : d.value = l.amount ↔ ∀ c ∈ dropped, c = '0'
  near : ∃ places : ℕ, (places = kept.length ∨
      places + 1 = kept.length ∧ natural (l.whole ++ kept) + 1 = 2 ^ 96) ∧
    |d.value - l.amount| ≤ 1 / 2 * 10 ^ (l.tens?.getD 0 - places)

theorem fits_concat (c : Char) : l.Fits (kept ++ [c]) ↔
    kept.length < 28 ∧ natural (l.whole ++ kept) * 10 + digit c < 2 ^ 96 := by
  have hvalue : natural (l.whole ++ (kept ++ [c])) = natural (l.whole ++ kept) * 10 + digit c := by
    rw [← List.append_assoc, natural_append, natural_cons]
    simp [natural]
  unfold Fits
  rw [hvalue, List.length_append, List.length_singleton]
  exact and_congr_left fun _ => Nat.succ_le_iff

theorem Fits.of_append (h : l.Fits (kept ++ ds)) : l.Fits kept := by
  obtain ⟨hlength, hlt⟩ := h
  rw [List.length_append] at hlength
  rw [← List.append_assoc, natural_append] at hlt
  have hle : natural (l.whole ++ kept) ≤ natural (l.whole ++ kept) * 10 ^ ds.length :=
    Nat.le_mul_of_pos_right _ (by positivity)
  exact ⟨by omega, by omega⟩

theorem amount_append (hfraction : l.fraction = kept ++ dropped) :
    l.amount = (natural (l.whole ++ kept) + behindPoint dropped) / 10 ^ kept.length *
      10 ^ l.tens?.getD 0 := by
  have hplace : (10 : ℚ) ^ (l.tens?.getD 0 - (kept.length + dropped.length : ℕ)) =
      10 ^ l.tens?.getD 0 / (10 ^ kept.length * 10 ^ dropped.length) := by
    rw [zpow_sub₀ (by norm_num), zpow_natCast, pow_add]
  unfold amount behindPoint
  rw [hfraction, ← List.append_assoc, natural_append, List.length_append, hplace]
  push_cast
  field_simp

theorem rounds_of_read? (hdigits : AllDigits l.fraction)
    (h : read? l.whole l.fraction l.tens? = some d) :
    ∃ kept dropped, l.Rounds d kept dropped := by
  obtain ⟨hwhole, r, s, hadd, hvalue⟩ := read?_value h
  obtain ⟨kept, dropped, hparts, hlength, hlt, hnext, heq⟩ :=
    addFraction_eq l.fraction (natural l.whole) 0 hwhole (Nat.zero_le _)
  rw [← natural_append] at hlt hnext heq
  rw [Nat.zero_add] at hlength hnext heq
  rw [heq] at hadd
  have hdropped : AllDigits dropped := hdigits.sublist (hparts ▸ List.sublist_append_right _ _)
  obtain ⟨hplaces, hexact, hnear⟩ := rounded_spec hlt hdropped hadd
  have htens : (0 : ℚ) < 10 ^ l.tens?.getD 0 := by positivity
  refine ⟨kept, dropped, hparts, ⟨hlength, hlt⟩, ?_, ?_, s, hplaces, ?_⟩
  · intro c hc
    rw [fits_concat]
    exact hnext c hc
  · rw [hvalue, amount_append hparts, mul_left_inj' htens.ne', hexact]
  · have hunit : (1 : ℚ) / 2 * 10 ^ (l.tens?.getD 0 - s) =
        1 / 2 / 10 ^ s * 10 ^ l.tens?.getD 0 := by
      rw [zpow_sub₀ (by norm_num), zpow_natCast]
      field_simp
    rw [hvalue, amount_append hparts, ← sub_mul, abs_mul, abs_of_pos htens, hunit]
    exact mul_le_mul_of_nonneg_right hnear htens.le

theorem Rounds.eq_amount (h : l.Rounds d kept dropped) (hfits : l.Fits l.fraction) :
    d.value = l.amount := by
  rw [h.exact_iff]
  rcases dropped with _ | ⟨c, rest⟩
  · exact nofun
  · refine absurd ?_ (h.longest c rfl)
    rw [h.parts, List.append_cons] at hfits
    exact hfits.of_append

theorem integer?_value {n : Int64} (h : l.integer? = some n) : (n.toInt : ℚ) = l.amount := by
  obtain ⟨hfraction, hexponent, hn⟩ := integer?_eq_some h
  have htens : l.tens? = none := by
    unfold tens?
    rw [hexponent]
    rfl
  unfold amount
  rw [hn, hfraction, htens]
  simp

end NumberLiteral

end RecordQuery
