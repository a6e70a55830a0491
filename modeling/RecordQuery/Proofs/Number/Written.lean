import RecordQuery.Proofs.Number.Digits
import RecordQuery.Proofs.Number.Shortest

/-! # Texts of numbers

Numbers are written as number literals behind a sign (`signedText`). The literal of a decimal has
its coefficient and its scale, and that of a floating point number denotes its digits, whichever
form a style gives it (`FloatStyle.amount_literal`). So each kind of number is told by its text:
`Decimal.text_injective`, `FloatStyle.write_injective`. -/

namespace RecordQuery

/-! ### Literals -/

namespace NumberLiteral

/-- The number that a literal denotes. -/
def amount (l : NumberLiteral) : ℚ :=
  Decimal.natural (l.whole ++ l.fraction) * 10 ^ (l.tens?.getD 0 - l.fraction.length)

/-- Zeros in front of digits do not count, and zeros behind them count as tens. -/
theorem amount_eq {l : NumberLiteral} (ds : List Char) (i k : ℕ)
    (h : l.whole ++ l.fraction = List.replicate i '0' ++ (ds ++ List.replicate k '0')) :
    l.amount = Decimal.natural ds * 10 ^ (k + l.tens?.getD 0 - l.fraction.length) := by
  unfold amount
  rw [h, Decimal.natural_append, Decimal.natural_append, Decimal.natural_zeros,
    Decimal.natural_zeros, List.length_replicate, Nat.zero_mul, Nat.zero_add, Nat.add_zero,
    Nat.cast_mul, mul_assoc, add_sub_assoc, zpow_add₀ (by norm_num), zpow_natCast]
  push_cast
  rfl

/-- The text of a literal behind a minus, or alone. -/
def signedText (negative : Bool) (l : NumberLiteral) : List Char :=
  if negative then '-' :: l.text.toList else l.text.toList

theorem head_text {l : NumberLiteral} (h : l.Proper) :
    ∃ c cs, l.text.toList = c :: cs ∧ c.isDigit = true := by
  rw [toList_text h]
  cases hw : l.whole with
  | nil => exact absurd hw h.begun
  | cons c cs => exact ⟨c, _, rfl, h.whole c (hw ▸ List.mem_cons_self)⟩

/-- A signed literal is told by its text. -/
theorem signedText_injective {l l' : NumberLiteral} {b b' : Bool} (h : l.Proper) (h' : l'.Proper)
    (heq : signedText b l = signedText b' l') : b = b' ∧ l = l' := by
  obtain ⟨c, cs, hl, hc⟩ := head_text h
  obtain ⟨c', cs', hl', hc'⟩ := head_text h'
  cases b with
  | false =>
    cases b' with
    | false => exact ⟨rfl, text_injective h h' heq⟩
    | true =>
      obtain rfl : c = '-' := (List.cons.inj (hl.symm.trans heq)).1
      cases hc
  | true =>
    cases b' with
    | false =>
      obtain rfl : '-' = c' := (List.cons.inj (heq.trans hl')).1
      cases hc'
    | true => exact ⟨rfl, text_injective h h' (List.cons.inj heq).2⟩

end NumberLiteral

open NumberLiteral

/-! ### Integers -/

/-- The literal of an integer, its sign aside. -/
def integerLiteral (i : ℤ) : NumberLiteral := ⟨Nat.toDigits 10 i.natAbs, [], none⟩

theorem proper_integerLiteral (i : ℤ) : (integerLiteral i).Proper :=
  ⟨allDigits_toDigits _, Nat.toDigits_ne_nil, nofun, nofun⟩

theorem toList_natural (n : ℕ) : (toString n).toList = Nat.toDigits 10 n := Nat.toList_repr

theorem toList_integer (i : ℤ) :
    (toString i).toList = signedText (decide (i < 0)) (integerLiteral i) := by
  have htext : (integerLiteral i).text.toList = Nat.toDigits 10 i.natAbs := by
    rw [toList_text (proper_integerLiteral i)]
    exact List.append_nil _
  cases i with
  | ofNat n =>
    have hneg : ¬ Int.ofNat n < 0 := not_lt.mpr (Int.natCast_nonneg n)
    rw [signedText, decide_eq_false hneg, htext]
    exact toList_natural n
  | negSucc n =>
    rw [signedText, decide_eq_true (Int.negSucc_lt_zero n), htext]
    change ("-" ++ toString (n + 1)).toList = _
    rw [String.toList_append, toList_natural]
    rfl

/-- **An integer** is told by its text. -/
theorem toString_integer_injective {i j : ℤ} (h : (toString i).toList = (toString j).toList) :
    i = j := by
  rw [toList_integer, toList_integer] at h
  obtain ⟨hsign, hl⟩ := signedText_injective (proper_integerLiteral i) (proper_integerLiteral j) h
  have habs : i.natAbs = j.natAbs := by
    have hdigits := congrArg (fun l => Decimal.natural l.whole) hl
    simpa only [integerLiteral, Decimal.natural_toDigits] using hdigits
  rw [decide_eq_decide] at hsign
  omega

/-! ### Decimals -/

namespace Decimal

/-- The digits of a decimal, with one in front of the point. -/
def digits (d : Decimal) : List Char :=
  List.replicate (d.scale + 1 - (Nat.toDigits 10 d.coefficient.natAbs).length) '0' ++
    Nat.toDigits 10 d.coefficient.natAbs

theorem scale_lt_length (d : Decimal) : d.scale < d.digits.length := by
  unfold digits
  rw [List.length_append, List.length_replicate]
  omega

/-- The literal of a decimal, its sign aside. -/
def literal (d : Decimal) : NumberLiteral :=
  ⟨d.digits.take (d.digits.length - d.scale), d.digits.drop (d.digits.length - d.scale), none⟩

theorem proper_literal (d : Decimal) : d.literal.Proper where
  whole := (allDigits_digits d).sublist (List.take_sublist _ _)
  begun := by
    have := d.scale_lt_length
    refine List.ne_nil_of_length_pos ?_
    rw [literal, List.length_take]
    omega
  fraction := (allDigits_digits d).sublist (List.drop_sublist _ _)
  exponent := nofun
where
  allDigits_digits (d : Decimal) : AllDigits d.digits :=
    .append (allDigits_zeros _) (allDigits_toDigits _)

theorem toList_text (d : Decimal) :
    d.text.toList = signedText (decide (d.coefficient < 0)) d.literal := by
  have hlength := d.scale_lt_length
  have hbody : (if d.scale = 0 then d.digits
      else d.digits.take (d.digits.length - d.scale) ++
        '.' :: d.digits.drop (d.digits.length - d.scale)) = d.literal.text.toList := by
    rw [NumberLiteral.toList_text d.proper_literal]
    change _ = d.digits.take (d.digits.length - d.scale) ++
      (fractionText (d.digits.drop (d.digits.length - d.scale)) ++ [])
    rw [List.append_nil]
    split
    · next hscale =>
      rw [hscale, Nat.sub_zero, List.take_length, List.drop_length]
      exact (List.append_nil _).symm
    · next hscale =>
      have hne : (d.digits.drop (d.digits.length - d.scale)).isEmpty = false := by
        rw [List.isEmpty_eq_false_iff]
        refine List.ne_nil_of_length_pos ?_
        rw [List.length_drop]
        omega
      rw [fractionText, hne]
      rfl
  unfold text signedText
  rw [String.toList_ofList, ← hbody]
  simp only [decide_eq_true_eq]
  rfl

/-- **A decimal** is told by its text. -/
theorem text_injective {d e : Decimal} (h : d.text = e.text) : d = e := by
  have hlist := congrArg String.toList h
  rw [toList_text, toList_text] at hlist
  obtain ⟨hsign, hl⟩ := signedText_injective d.proper_literal e.proper_literal hlist
  have hscale (d : Decimal) : d.literal.fraction.length = d.scale := by
    have := d.scale_lt_length
    rw [literal, List.length_drop]
    omega
  have hcoefficient (d : Decimal) :
      natural (d.literal.whole ++ d.literal.fraction) = d.coefficient.natAbs := by
    rw [literal, List.take_append_drop, digits, natural_append, natural_zeros, natural_toDigits,
      Nat.zero_mul, Nat.zero_add]
  have hs : d.scale = e.scale := by rw [← hscale, hl, hscale]
  have hc : d.coefficient.natAbs = e.coefficient.natAbs := by
    rw [← hcoefficient, hl, hcoefficient]
  rw [decide_eq_decide] at hsign
  have hc' : d.coefficient = e.coefficient := by omega
  cases d
  cases e
  cases hs
  cases hc'
  rfl

end Decimal

/-! ### Floating point numbers -/

namespace FloatStyle

/-- The literal of digits without an exponent, the first digit at exponent `p`. -/
def plainLiteral (ds : List Char) (p : ℤ) : NumberLiteral :=
  if p < 0 then ⟨['0'], List.replicate (-p - 1).toNat '0' ++ ds, none⟩
  else if ds.length ≤ p.toNat + 1 then
    ⟨ds ++ List.replicate (p.toNat + 1 - ds.length) '0', ['0'], none⟩
  else ⟨ds.take (p.toNat + 1), ds.drop (p.toNat + 1), none⟩

/-- The literal of digits with an exponent, the first digit at exponent `p`. -/
def exponentLiteral (plusSign : Bool) (ds : List Char) (p : ℤ) : NumberLiteral :=
  ⟨ds.take 1, ds.drop 1,
    some (if p < 0 then some '-' else if plusSign then some '+' else none,
      Nat.toDigits 10 p.natAbs)⟩

variable {ds : List Char} {p : ℤ}

theorem proper_plainLiteral (hd : AllDigits ds) (hne : ds ≠ []) : (plainLiteral ds p).Proper := by
  have hzero : AllDigits ['0'] := allDigits_zeros 1
  unfold plainLiteral
  split
  · exact ⟨hzero, nofun, .append (allDigits_zeros _) hd, nofun⟩
  · split
    · exact ⟨.append hd (allDigits_zeros _), List.append_ne_nil_of_left_ne_nil hne _, hzero, nofun⟩
    · refine ⟨hd.sublist (List.take_sublist _ _), ?_, hd.sublist (List.drop_sublist _ _), nofun⟩
      exact mt List.take_eq_nil_iff.mp (by rintro (h | h); exacts [absurd h (Nat.succ_ne_zero _), hne h])

theorem proper_exponentLiteral (plusSign : Bool) (hd : AllDigits ds) (hne : ds ≠ []) :
    (exponentLiteral plusSign ds p).Proper where
  whole := hd.sublist (List.take_sublist _ _)
  begun := mt List.take_eq_nil_iff.mp (by rintro (h | h); exacts [absurd h one_ne_zero, hne h])
  fraction := hd.sublist (List.drop_sublist _ _)
  exponent := by
    rintro e ⟨⟩
    refine ⟨?_, allDigits_toDigits _, Nat.toDigits_ne_nil⟩
    dsimp only
    split
    · exact .inr (.inr rfl)
    · split
      · exact .inr (.inl rfl)
      · exact .inl rfl

theorem fractionText_of_ne_nil (h : ds ≠ []) : fractionText ds = '.' :: ds := by
  rw [fractionText, List.isEmpty_eq_false_iff.mpr h]
  rfl

theorem toList_plain (hd : AllDigits ds) (hne : ds ≠ []) :
    (plainLiteral ds p).text.toList = positional ds p := by
  rw [toList_text (proper_plainLiteral hd hne)]
  unfold plainLiteral positional
  dsimp only
  split
  · rw [fractionText_of_ne_nil (List.append_ne_nil_of_right_ne_nil _ hne)]
    exact congrArg ('0' :: '.' :: ·) (List.append_nil _)
  · split
    · rfl
    · next hlength =>
      have hdrop : ds.drop (p.toNat + 1) ≠ [] := by
        rw [Ne, List.drop_eq_nil_iff]
        exact hlength
      rw [fractionText_of_ne_nil hdrop]
      exact congrArg (_ ++ ·) (List.append_nil _)

theorem toList_exponent (plusSign : Bool) (hd : AllDigits ds) (hne : ds ≠ []) :
    (exponentLiteral plusSign ds p).text.toList = scientific plusSign ds p := by
  have hsign : 'e' :: (if plusSign && decide (0 ≤ p) then ['+'] else []) ++ (toString p).toList =
      exponentText (exponentLiteral plusSign ds p).exponent := by
    rw [toList_integer, signedText, NumberLiteral.toList_text (proper_integerLiteral p)]
    unfold exponentLiteral integerLiteral exponentText fractionText
    by_cases hp : p < 0
    · simp [hp, not_le.mpr hp]
    · cases plusSign <;> simp [hp, not_lt.mp hp]
  rw [toList_text (proper_exponentLiteral plusSign hd hne), ← hsign]
  unfold scientific exponentLiteral
  dsimp only
  generalize (if (plusSign && decide (0 ≤ p)) = true then ['+'] else []) = plus
  split
  · next hdrop =>
    rw [hdrop]
    simp only [fractionText, List.isEmpty_nil, if_true, List.nil_append, List.append_nil,
      List.append_assoc]
  · next hdrop =>
    rw [fractionText_of_ne_nil hdrop]
    simp only [List.append_assoc, List.cons_append]

/-- A literal without an exponent denotes its digits at their place. -/
theorem amount_plain (ds : List Char) (p : ℤ) :
    (plainLiteral ds p).amount = Decimal.natural ds * 10 ^ (p + 1 - ds.length) := by
  unfold plainLiteral
  split
  · rw [amount_eq ds ((-p - 1).toNat + 1) 0 (by simp [List.replicate_succ])]
    congr 2
    simp [NumberLiteral.tens?]
    omega
  · split
    · next hlength =>
      rw [amount_eq ds 0 (p.toNat + 1 - ds.length + 1)
        (by simp [List.replicate_succ'])]
      congr 2
      simp [NumberLiteral.tens?]
      omega
    · rw [amount_eq ds 0 0 (by simp)]
      congr 2
      simp [NumberLiteral.tens?]
      omega

/-- A literal with an exponent denotes its digits at their place. -/
theorem amount_exponent (plusSign : Bool) (hne : ds ≠ []) :
    (exponentLiteral plusSign ds p).amount = Decimal.natural ds * 10 ^ (p + 1 - ds.length) := by
  have htens : (exponentLiteral plusSign ds p).tens? = some p := by
    unfold exponentLiteral NumberLiteral.tens?
    simp only [Option.map_some, Decimal.natural_toDigits, Option.some.injEq]
    by_cases hp : p < 0
    · rw [if_pos hp, if_pos rfl]
      omega
    · rw [if_neg hp, if_neg (by split <;> nofun)]
      omega
  have hlength := List.length_pos_of_ne_nil hne
  rw [amount_eq ds 0 0 ((List.take_append_drop 1 ds).trans (by simp)), htens]
  congr 2
  simp [exponentLiteral]
  omega

/-- The literal of a floating point number in a style, its sign aside. -/
def literal (style : FloatStyle) (x : Binary64) : NumberLiteral :=
  let digits := x.shortest style.halfUp
  let p := digits.exponent + Binary64.digitCount digits.coefficient - 1
  let ds := significant digits.coefficient
  if style.plainFrom ≤ p ∧ p < style.plainBelow then plainLiteral ds p
  else exponentLiteral style.plusSign ds p

variable (style : FloatStyle)

theorem proper_literal (x : Binary64) : (style.literal x).Proper := by
  unfold literal
  dsimp only
  split
  · exact proper_plainLiteral (allDigits_significant _) (significant_ne_nil _)
  · exact proper_exponentLiteral _ (allDigits_significant _) (significant_ne_nil _)

theorem toList_literal (x : Binary64) :
    let digits := x.shortest style.halfUp
    let p := digits.exponent + Binary64.digitCount digits.coefficient - 1
    (style.literal x).text.toList = if style.plainFrom ≤ p ∧ p < style.plainBelow
      then positional (significant digits.coefficient) p
      else scientific style.plusSign (significant digits.coefficient) p := by
  intro digits p
  change (if _ then plainLiteral _ _ else exponentLiteral _ _ _).text.toList = _
  split
  · exact toList_plain (allDigits_significant _) (significant_ne_nil _)
  · exact toList_exponent _ (allDigits_significant _) (significant_ne_nil _)

theorem toList_write (x : Binary64) :
    (style.write x).toList = signedText x.negative (style.literal x) := by
  unfold write signedText
  rw [toList_literal]
  exact String.toList_ofList

/-- **What is written denotes the digits** of a floating point number, in every style. -/
theorem amount_literal (x : Binary64) :
    (style.literal x).amount = (x.shortest style.halfUp).value := by
  generalize hd : x.shortest style.halfUp = d
  obtain ⟨k, hk⟩ := significant_zeros d.coefficient
  have hcount : Binary64.digitCount d.coefficient = (significant d.coefficient).length + k := by
    rw [Binary64.digitCount, hk, List.length_append, List.length_replicate]
  have hvalue : d.coefficient = Decimal.natural (significant d.coefficient) * 10 ^ k := by
    have hnatural := Decimal.natural_toDigits d.coefficient
    rw [hk, Decimal.natural_append, Decimal.natural_zeros, List.length_replicate,
      Nat.add_zero] at hnatural
    exact hnatural.symm
  have hamount : (style.literal x).amount = Decimal.natural (significant d.coefficient) *
      10 ^ (d.exponent + Binary64.digitCount d.coefficient - 1 + 1 -
        (significant d.coefficient).length) := by
    unfold literal
    rw [hd]
    dsimp only
    split
    · exact amount_plain _ _
    · exact amount_exponent _ (significant_ne_nil _)
  rw [hamount, hcount, Digits.value]
  conv_rhs => rw [hvalue]
  push_cast
  rw [mul_assoc, ← zpow_natCast, ← zpow_add₀ (by norm_num)]
  congr 2
  omega

/-- **A floating point number** is told by its text. -/
theorem write_injective {x y : Binary64} (hx : x.Canonical) (hy : y.Canonical)
    (h : style.write x = style.write y) : x = y := by
  have hlist := congrArg String.toList h
  rw [toList_write, toList_write] at hlist
  obtain ⟨hsign, hl⟩ :=
    signedText_injective (style.proper_literal x) (style.proper_literal y) hlist
  have hvalue : (x.shortest style.halfUp).value = (y.shortest style.halfUp).value := by
    rw [← amount_literal, hl, amount_literal]
  obtain ⟨hmantissa, hexponent⟩ := Binary64.eq_of_shortest hx hy hvalue
  cases x
  cases y
  cases hsign
  cases hmantissa
  cases hexponent
  rfl

end FloatStyle

end RecordQuery
