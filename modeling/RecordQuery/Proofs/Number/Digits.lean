import Mathlib.Data.List.TakeWhile
import Mathlib.Tactic.Ring
import RecordQuery.Token.Scan

/-! # Runs of digits

The value of a run of digits, and the number literal at the front of a text. A literal whose parts
are runs of digits is read back from every text that holds it (`splitNumber_written`), so its own
text tells it from every other literal. -/

namespace RecordQuery

section

variable {α : Type} {p : α → Bool} {cs rest : List α}

theorem takeWhile_ends (hp : ∀ d ∈ cs, p d = true) (hr : ∀ d ∈ rest.head?, p d = false) :
    (cs ++ rest).takeWhile p = cs := by
  have hrest : rest.takeWhile p = [] := by
    cases rest with
    | nil => rfl
    | cons d ds => rw [List.takeWhile_cons_of_neg (by rw [hr d rfl]; nofun)]
  rw [List.takeWhile_append_of_pos hp, hrest, List.append_nil]

theorem dropWhile_ends (hp : ∀ d ∈ cs, p d = true) (hr : ∀ d ∈ rest.head?, p d = false) :
    (cs ++ rest).dropWhile p = rest := by
  have hrest : rest.dropWhile p = rest := by
    cases rest with
    | nil => rfl
    | cons d ds => rw [List.dropWhile_cons_of_neg (by rw [hr d rfl]; nofun)]
  rw [List.dropWhile_append_of_pos hp, hrest]

end

/-- A run of digits. -/
def AllDigits (cs : List Char) : Prop := ∀ c ∈ cs, c.isDigit = true

theorem allDigits_toDigits (n : Nat) : AllDigits (Nat.toDigits 10 n) :=
  fun _ hc => Nat.isDigit_of_mem_toDigits (by decide) (by decide) hc

theorem allDigits_zeros (n : Nat) : AllDigits (List.replicate n '0') := by
  intro c hc
  rw [List.eq_of_mem_replicate hc]
  rfl

theorem AllDigits.append {cs ds : List Char} (hc : AllDigits cs) (hd : AllDigits ds) :
    AllDigits (cs ++ ds) :=
  fun c h => (List.mem_append.mp h).elim (hc c) (hd c)

theorem AllDigits.sublist {cs ds : List Char} (hd : AllDigits ds) (h : cs.Sublist ds) :
    AllDigits cs :=
  fun c hc => hd c (h.subset hc)

/-! ### Values -/

namespace Decimal

theorem natural_toDigits (n : Nat) : natural (Nat.toDigits 10 n) = n := by
  have h := Nat.ofDigitChars_ten_toDigits (n := n)
  unfold Nat.ofDigitChars at h
  unfold natural digit
  simp only [Nat.mul_comm _ 10]
  exact h

theorem natural_append (cs ds : List Char) :
    natural (cs ++ ds) = natural cs * 10 ^ ds.length + natural ds := by
  have hfrom (ds : List Char) : ∀ n : Nat,
      ds.foldl (fun n c => n * 10 + digit c) n = n * 10 ^ ds.length + natural ds := by
    induction ds with
    | nil => simp [natural]
    | cons c ds ih =>
      intro n
      have hzero := ih (0 * 10 + digit c)
      rw [natural, List.foldl_cons, List.foldl_cons, ih, hzero, List.length_cons, Nat.pow_succ]
      ring
  rw [natural, List.foldl_append]
  exact hfrom ds _

theorem natural_zeros (n : Nat) : natural (List.replicate n '0') = 0 := by
  induction n with
  | zero => rfl
  | succ n ih =>
    rw [List.replicate_succ, ← List.singleton_append, natural_append, ih, Nat.add_zero]
    exact Nat.zero_mul _

end Decimal

/-- The digits of a number are its significant ones with zeros behind. -/
theorem significant_zeros (n : Nat) :
    ∃ k, Nat.toDigits 10 n = FloatStyle.significant n ++ List.replicate k '0' := by
  have hsplit := List.takeWhile_append_dropWhile (p := (· == '0')) (l := (Nat.toDigits 10 n).reverse)
  have hzeros : ((Nat.toDigits 10 n).reverse.takeWhile (· == '0')) =
      List.replicate ((Nat.toDigits 10 n).reverse.takeWhile (· == '0')).length '0' :=
    List.eq_replicate_iff.mpr ⟨rfl, fun c hc => by simpa using List.mem_takeWhile_imp hc⟩
  have hdigits : Nat.toDigits 10 n = ((Nat.toDigits 10 n).reverse.dropWhile (· == '0')).reverse ++
      List.replicate ((Nat.toDigits 10 n).reverse.takeWhile (· == '0')).length '0' := by
    conv_lhs => rw [← List.reverse_reverse (Nat.toDigits 10 n), ← hsplit, List.reverse_append, hzeros]
    rw [List.reverse_replicate]
  unfold FloatStyle.significant
  split
  · next hnone =>
    rw [hnone, List.nil_append] at hdigits
    have hn : n = 0 := by rw [← Decimal.natural_toDigits n, hdigits, Decimal.natural_zeros]
    exact ⟨0, by rw [hn]; rfl⟩
  · exact ⟨_, hdigits⟩

theorem allDigits_significant (n : Nat) : AllDigits (FloatStyle.significant n) := by
  obtain ⟨k, hk⟩ := significant_zeros n
  exact (allDigits_toDigits n).sublist (hk ▸ List.sublist_append_left _ _)

theorem significant_ne_nil (n : Nat) : FloatStyle.significant n ≠ [] := by
  unfold FloatStyle.significant
  split
  · nofun
  · next h => exact h

/-! ### Literals -/

namespace NumberLiteral

/-- A literal as a text can hold it, with a digit in front of the point. -/
structure Proper (l : NumberLiteral) : Prop where
  whole : AllDigits l.whole
  begun : l.whole ≠ []
  fraction : AllDigits l.fraction
  exponent : ∀ e ∈ l.exponent,
    (e.1 = none ∨ e.1 = some '+' ∨ e.1 = some '-') ∧ AllDigits e.2 ∧ e.2 ≠ []

/-- The text of an exponent. -/
def exponentText (e : Option (Option Char × List Char)) : List Char :=
  match e with
  | none => []
  | some (sign, ds) => 'e' :: sign.toList ++ ds

/-- The text of a fraction. -/
def fractionText (ds : List Char) : List Char := if ds.isEmpty then [] else '.' :: ds

variable {l : NumberLiteral}

theorem toList_text (h : l.Proper) :
    l.text.toList = l.whole ++ (fractionText l.fraction ++ exponentText l.exponent) := by
  have hbegun : l.whole.isEmpty = false := List.isEmpty_eq_false_iff.mpr h.begun
  unfold text
  rw [String.toList_ofList, hbegun, ← List.append_assoc]
  rfl

theorem splitDigits_ends {ds rest : List Char} (hd : AllDigits ds)
    (hr : ∀ c ∈ rest.head?, c.isDigit = false) : splitDigits (ds ++ rest) = (ds, rest) :=
  Prod.ext (takeWhile_ends hd hr) (dropWhile_ends hd hr)

theorem splitFraction_ends {ds rest : List Char} (hd : AllDigits ds)
    (hr : ∀ c ∈ rest.head?, c.isDigit = false ∧ c ≠ '.') :
    splitFraction (fractionText ds ++ rest) = (ds, rest) := by
  cases ds with
  | nil =>
    change splitFraction rest = _
    unfold splitFraction
    split
    · exact absurd rfl (hr '.' rfl).2
    · rfl
  | cons d ds =>
    change (if (splitDigits (d :: ds ++ rest)).1.isEmpty = true then _
      else splitDigits (d :: ds ++ rest)) = _
    rw [splitDigits_ends hd fun c hc => (hr c hc).1]
    rfl

/-- The text of an exponent behind either of its letters. -/
def exponentWith (letter : Char) : Option (Option Char × List Char) → List Char
  | none => []
  | some (sign, ds) => letter :: sign.toList ++ ds

/-- **A literal as a text holds it**: digits, a point with digits behind it, or both, and possibly
an exponent behind a letter, with or without a sign. -/
structure WrittenAs (l : NumberLiteral) (cs : List Char) : Prop where
  whole : AllDigits l.whole
  fraction : AllDigits l.fraction
  begun : l.whole ≠ [] ∨ l.fraction ≠ []
  exponent : ∀ e ∈ l.exponent,
    (e.1 = none ∨ e.1 = some '+' ∨ e.1 = some '-') ∧ AllDigits e.2 ∧ e.2 ≠ []
  text : ∃ letter, (letter = 'e' ∨ letter = 'E') ∧
    cs = l.whole ++ (fractionText l.fraction ++ exponentWith letter l.exponent)

theorem Proper.writtenAs (h : l.Proper) : l.WrittenAs l.text.toList where
  whole := h.whole
  fraction := h.fraction
  begun := .inl h.begun
  exponent := h.exponent
  text := ⟨'e', .inl rfl, by rw [toList_text h]; cases l.exponent <;> rfl⟩

theorem splitExponent_with {letter : Char} (hletter : letter = 'e' ∨ letter = 'E')
    {exponent : Option (Option Char × List Char)} (h : ∀ e ∈ exponent,
      (e.1 = none ∨ e.1 = some '+' ∨ e.1 = some '-') ∧ AllDigits e.2 ∧ e.2 ≠ []) :
    splitExponent (exponentWith letter exponent) = (exponent, []) := by
  cases exponent with
  | none => rfl
  | some e =>
    obtain ⟨sign, ds⟩ := e
    obtain ⟨hsign, hdigits, hne⟩ := h _ rfl
    have hsplit : splitDigits ds = (ds, []) := by
      have hends := @splitDigits_ends ds [] hdigits nofun
      rwa [List.append_nil] at hends
    have hbegun : ds.isEmpty = false := List.isEmpty_eq_false_iff.mpr hne
    unfold exponentWith splitExponent
    obtain rfl | rfl | rfl := hsign
    · cases ds with
      | nil => exact absurd rfl hne
      | cons d ds =>
        have hd := hdigits d List.mem_cons_self
        dsimp only [Option.toList, List.cons_append, List.nil_append]
        rw [if_pos hletter]
        split
        · next hplus =>
          cases hplus
          cases hd
        · next hminus =>
          cases hminus
          cases hd
        · dsimp only
          rw [hsplit, hbegun]
          rfl
    · dsimp only [Option.toList, List.cons_append, List.nil_append]
      rw [if_pos hletter]
      change (if (splitDigits ds).1.isEmpty = true then _
        else (some (some '+', (splitDigits ds).1), (splitDigits ds).2)) = _
      rw [hsplit, hbegun]
      rfl
    · dsimp only [Option.toList, List.cons_append, List.nil_append]
      rw [if_pos hletter]
      change (if (splitDigits ds).1.isEmpty = true then _
        else (some (some '-', (splitDigits ds).1), (splitDigits ds).2)) = _
      rw [hsplit, hbegun]
      rfl

/-- **A literal is read back** from every text that holds it. -/
theorem splitNumber_written {cs : List Char} (h : l.WrittenAs cs) : splitNumber cs = (l, []) := by
  obtain ⟨letter, hletter, rfl⟩ := h.text
  have hexponent : ∀ c ∈ (exponentWith letter l.exponent).head?, c.isDigit = false ∧ c ≠ '.' := by
    intro c hc
    cases he : l.exponent with
    | none =>
      rw [he] at hc
      cases hc
    | some e =>
      rw [he] at hc
      cases hc
      obtain rfl | rfl := hletter <;> decide
  have hfraction : ∀ c ∈ (fractionText l.fraction ++ exponentWith letter l.exponent).head?,
      c.isDigit = false := by
    intro c hc
    cases hf : l.fraction with
    | nil =>
      rw [hf] at hc
      exact (hexponent c hc).1
    | cons d ds =>
      rw [hf] at hc
      cases hc
      rfl
  unfold splitNumber
  rw [splitDigits_ends h.whole hfraction]
  dsimp only
  rw [splitFraction_ends h.fraction hexponent]
  dsimp only
  rw [splitExponent_with hletter h.exponent]

/-- The text of a literal tells it from every other one. -/
theorem text_injective {l l' : NumberLiteral} (h : l.Proper) (h' : l'.Proper)
    (heq : l.text.toList = l'.text.toList) : l = l' := by
  have hsplit := splitNumber_written h.writtenAs
  rw [heq, splitNumber_written h'.writtenAs] at hsplit
  exact (congrArg Prod.fst hsplit).symm

end NumberLiteral

end RecordQuery
