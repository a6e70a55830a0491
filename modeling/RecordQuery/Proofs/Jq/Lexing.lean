import RecordQuery.Proofs.Filter.Quotation
import RecordQuery.Proofs.Jq.Syntax
import RecordQuery.Proofs.Number.Digits

/-! # The tokens of a rendered text

Where words, numbers and operators are followed by a blank, a bracket or a separator (`Mark.Loose`),
the text of a run of marks is split into the tokens that the marks are (`tokensWithin?_render`). -/

namespace RecordQuery

namespace Mark

/-- The token that a mark is; a space is none. -/
def token? : Mark → Option Jq.Token
  | .space => none
  | .sign p => some (.sign p)
  | .word w => some (.word w)
  | .variable v => some (.variable v.name)
  | .number (.integer n) => some (.number n.toInt.toNat)
  | .number _ => none
  | .quoted s => some (.string s)

/-- A text that is one word. -/
def IsName (w : String) : Prop :=
  ∃ c cs, w.toList = c :: cs ∧ Jq.isNameStart c = true ∧ ∀ d ∈ cs, Jq.isNameChar d = true

/-- A mark that is a token of its own or a space. -/
def Readable : Mark → Prop
  | .space | .sign _ | .quoted _ => True
  | .word w => IsName w
  | .variable v => IsName v.name
  | .number (.integer n) => 0 ≤ n.toInt
  | .number _ => False

/-- Whether a mark ends by itself. -/
def isClosed : Mark → Bool
  | .space | .quoted _ => true
  | .sign (.opening _) | .sign (.closing _) | .sign .comma | .sign .colon | .sign .semicolon => true
  | _ => false

/-- Whether a mark ends the one in front of it. -/
def separates : Mark → Bool
  | .quoted _ => false
  | m => m.isClosed

/-- Marks of which each ends by itself or by the one behind it. -/
def Loose : List Mark → Prop
  | [] => True
  | m :: ms => (m.isClosed = true ∨ ∀ n ∈ ms.head?, n.separates = true) ∧ Loose ms

theorem Loose.append {ms ns : List Mark} (h : Loose ms) (h' : Loose ns)
    (hn : ∀ n ∈ ns.head?, n.separates = true) : Loose (ms ++ ns) := by
  induction ms with
  | nil => exact h'
  | cons m ms ih =>
    refine ⟨?_, ih h.2⟩
    obtain hm | hm := h.1
    · exact .inl hm
    · refine .inr fun n hmem => ?_
      cases ms with
      | nil => exact hn n hmem
      | cons k ms => exact hm n hmem

/-- The characters that marks of that kind begin with. -/
def separators : List Char :=
  [' ', '(', ')', '[', ']', '\x7b', '\x7d', ',', ':', ';']

theorem head_separates {m : Mark} (h : m.separates = true) :
    ∃ c cs, m.text.toList = c :: cs ∧ c ∈ separators := by
  cases m with
  | sign p =>
    cases p with
    | opening b | closing b => cases b <;> exact ⟨_, _, rfl, by decide⟩
    | comma | colon | semicolon => exact ⟨_, _, rfl, by decide⟩
    | _ => cases h
  | space => exact ⟨_, _, rfl, by decide⟩
  | _ => cases h

end Mark

namespace Jq

open Mark

variable {c : Char} {cs rest : List Char}

/-! ### Characters -/

/-- The end of a text, or a character that is part of no word, number or operator. -/
def Ends (rest : List Char) : Prop := ∀ d ∈ rest.head?, d ∈ separators

theorem separators_spec : ∀ d ∈ separators, isNameChar d = false ∧ isNameStart d = false ∧
    d.isDigit = false ∧ d ≠ '.' ∧ d ≠ '=' ∧ d ≠ '/' := by
  have hall : separators.all (fun d => decide (isNameChar d = false ∧ isNameStart d = false ∧
      d.isDigit = false ∧ d ≠ '.' ∧ d ≠ '=' ∧ d ≠ '/')) = true := by decide
  exact fun d hd => of_decide_eq_true (List.all_eq_true.mp hall d hd)

theorem isNameStart_spec (h : isNameStart c = true) :
    c ≠ '"' ∧ c.isDigit = false ∧ c ≠ '$' ∧ c ≠ ' ' := by
  refine ⟨?_, ?_, ?_, ?_⟩
  · rintro rfl
    exact absurd h (by decide)
  · unfold isNameStart Char.isAlpha Char.isUpper Char.isLower at h
    unfold Char.isDigit
    simp only [Bool.or_eq_true, Bool.and_eq_true, decide_eq_true_eq, beq_iff_eq,
      Bool.and_eq_false_iff, decide_eq_false_iff_not] at h ⊢
    by_cases hc : c = '_'
    · subst hc
      exact .inr (by decide)
    · right
      intro hle
      have h9 : c.val.toNat ≤ 57 := hle
      obtain (⟨h, -⟩ | ⟨h, -⟩) | h := h
      · have hA : 65 ≤ c.val.toNat := h
        omega
      · have ha : 97 ≤ c.val.toNat := h
        omega
      · exact hc h
  · rintro rfl
    exact absurd h (by decide)
  · rintro rfl
    exact absurd h (by decide)

theorem Ends.not_name (h : Ends rest) : ∀ d ∈ rest.head?, isNameChar d = false :=
  fun d hd => (separators_spec d (h d hd)).1

theorem Ends.not_digit (h : Ends rest) : ∀ d ∈ rest.head?, d.isDigit = false :=
  fun d hd => (separators_spec d (h d hd)).2.2.1

/-! ### Tokens -/

theorem token?_word (hc : isNameStart c = true) (hcs : ∀ d ∈ cs, isNameChar d = true)
    (hr : Ends rest) : token? c (cs ++ rest) = some (.word (String.ofList (c :: cs)), rest) := by
  obtain ⟨hquote, hdigit, -, -⟩ := isNameStart_spec hc
  unfold token?
  rw [if_neg hquote, if_neg (by rw [hdigit]; nofun), if_pos hc, takeWhile_ends hcs hr.not_name,
    dropWhile_ends hcs hr.not_name]

theorem token?_variable (hc : isNameStart c = true) (hcs : ∀ d ∈ cs, isNameChar d = true)
    (hr : Ends rest) :
    token? '$' (c :: cs ++ rest) = some (.variable (String.ofList (c :: cs)), rest) := by
  have hname : isNameChar c = true := by
    unfold isNameStart at hc
    unfold isNameChar Char.isAlphanum
    revert hc
    cases c.isAlpha <;> cases c.isDigit <;> simp
  have hall : ∀ d ∈ c :: cs, isNameChar d = true := by
    intro d hd
    obtain rfl | hd := List.mem_cons.mp hd
    · exact hname
    · exact hcs d hd
  change (if isNameStart c = true then
    some (Token.variable (String.ofList ((c :: cs ++ rest).takeWhile isNameChar)),
      (c :: cs ++ rest).dropWhile isNameChar) else none) = _
  rw [if_pos hc, takeWhile_ends hall hr.not_name, dropWhile_ends hall hr.not_name]

theorem token?_number {n : Nat} (hd : Nat.toDigits 10 n = c :: cs) (hr : Ends rest) :
    token? c (cs ++ rest) = some (.number n, rest) := by
  have hdigits : ∀ d ∈ c :: cs, d.isDigit = true := by
    intro d hmem
    rw [← hd] at hmem
    exact Nat.isDigit_of_mem_toDigits (by decide) (by decide) hmem
  have hc := hdigits c List.mem_cons_self
  have hcs : ∀ d ∈ cs, d.isDigit = true := fun d hmem => hdigits d (List.mem_cons_of_mem _ hmem)
  have hquote : c ≠ '"' := by
    rintro rfl
    exact absurd hc (by decide)
  have hbehind : (rest.head?.any fun d => d == '.' || isNameChar d) = false := by
    cases rest with
    | nil => rfl
    | cons d ds =>
      obtain ⟨hname, -, -, hdot, -⟩ := separators_spec d (hr d rfl)
      simp [hname, hdot]
  unfold token?
  rw [if_neg hquote, if_pos hc, dropWhile_ends hcs hr.not_digit]
  dsimp only
  rw [hbehind, takeWhile_ends hcs hr.not_digit, ← hd, Decimal.natural_toDigits]
  rfl

theorem token?_string (s : String) : token? '"' (Json.Quoted.escape s.toList ++ '"' :: rest) =
    some (.string s, rest) := by
  unfold token?
  rw [if_pos rfl, Json.Quoted.readBody, Json.Quoted.readFrom_escape]
  simp

theorem token?_single {p : Punctuation}
    (hc : c ≠ '"' ∧ c.isDigit = false ∧ isNameStart c = false ∧ c ≠ '$')
    (h : sign? c rest.head? = some (p, false)) : token? c rest = some (.sign p, rest) := by
  obtain ⟨hquote, hdigit, hname, hdollar⟩ := hc
  unfold token?
  rw [if_neg hquote, if_neg (by rw [hdigit]; nofun), if_neg (by rw [hname]; nofun), if_neg hdollar,
    h]
  rfl

theorem token?_sign {p : Punctuation} (hp : (Mark.sign p).isClosed = true ∨ Ends rest) :
    ∃ c cs, p.text.toList = c :: cs ∧ c ≠ ' ' ∧ token? c (cs ++ rest) = some (.sign p, rest) := by
  by_cases hclosed : (Mark.sign p).isClosed = true
  · cases p with
    | opening b | closing b => cases b <;> exact ⟨_, _, rfl, by decide, rfl⟩
    | comma | colon | semicolon => exact ⟨_, _, rfl, by decide, rfl⟩
    | _ => cases hclosed
  · have hr : Ends rest := hp.resolve_left hclosed
    cases rest with
    | nil => cases p <;> first | exact absurd rfl hclosed | exact ⟨_, _, rfl, by decide, rfl⟩
    | cons d ds =>
      obtain ⟨hname, -, -, hdot, hequal, hslash⟩ := separators_spec d (hr d rfl)
      cases p with
      | opening b | closing b => exact absurd rfl hclosed
      | comma | colon | semicolon => exact absurd rfl hclosed
      | lessEqual | greaterEqual | equal | notEqual => exact ⟨_, _, rfl, by decide, rfl⟩
      | dot =>
        have hsign : sign? '.' (some d) = some (.dot, false) := by simp [sign?, hname, hdot]
        exact ⟨'.', [], rfl, by decide, token?_single (by decide) hsign⟩
      | bar => exact ⟨'|', [], rfl, by decide, token?_single (by decide) (by simp [sign?, hequal])⟩
      | star => exact ⟨'*', [], rfl, by decide, token?_single (by decide) (by simp [sign?, hequal])⟩
      | slash =>
        have hsign : sign? '/' (some d) = some (.slash, false) := by simp [sign?, hequal, hslash]
        exact ⟨'/', [], rfl, by decide, token?_single (by decide) hsign⟩
      | percent =>
        exact ⟨'%', [], rfl, by decide, token?_single (by decide) (by simp [sign?, hequal])⟩
      | plus => exact ⟨'+', [], rfl, by decide, token?_single (by decide) (by simp [sign?, hequal])⟩
      | minus => exact ⟨'-', [], rfl, by decide, token?_single (by decide) (by simp [sign?, hequal])⟩
      | less => exact ⟨'<', [], rfl, by decide, token?_single (by decide) (by simp [sign?, hequal])⟩
      | greater =>
        exact ⟨'>', [], rfl, by decide, token?_single (by decide) (by simp [sign?, hequal])⟩

theorem toList_ofNonneg {n : Int64} (hn : 0 ≤ n.toInt) :
    (Number.integer n).text.toList = Nat.toDigits 10 n.toInt.toNat := by
  obtain ⟨k, hk⟩ := Int.eq_ofNat_of_zero_le hn
  change (toString n.toInt).toList = _
  rw [hk]
  change (Nat.repr k).toList = _
  rw [Nat.toList_repr]
  rfl

/-- **A readable mark** is read as its token. -/
theorem token?_mark {m : Mark} (hm : m.Readable) (hspace : m ≠ .space)
    (hr : m.isClosed = true ∨ Ends rest) :
    ∃ c cs t, m.text.toList = c :: cs ∧ c ≠ ' ' ∧ m.token? = some t ∧
      token? c (cs ++ rest) = some (t, rest) := by
  cases m with
  | space => exact absurd rfl hspace
  | sign p =>
    obtain ⟨c, cs, htext, hc, ht⟩ := token?_sign hr
    exact ⟨c, cs, _, htext, hc, rfl, ht⟩
  | word w =>
    obtain ⟨c, cs, hw, hc, hcs⟩ := hm
    have hends : Ends rest := hr.resolve_left (by nofun)
    refine ⟨c, cs, _, hw, (isNameStart_spec hc).2.2.2, rfl, ?_⟩
    rw [token?_word hc hcs hends, ← hw, String.ofList_toList]
  | quoted s =>
    refine ⟨'"', Json.Quoted.escape s.toList ++ ['"'], _, ?_, by decide, rfl, ?_⟩
    · change (String.ofList _).toList = _
      rw [String.toList_ofList]
      rfl
    · rw [List.append_assoc]
      exact token?_string s
  | number n =>
    cases n with
    | integer n =>
      have hends : Ends rest := hr.resolve_left (by nofun)
      cases hd : Nat.toDigits 10 n.toInt.toNat with
      | nil => exact absurd hd Nat.toDigits_ne_nil
      | cons c cs =>
        have hc : c.isDigit = true :=
          Nat.isDigit_of_mem_toDigits (by decide) (by decide) (hd ▸ List.mem_cons_self)
        refine ⟨c, cs, _, (toList_ofNonneg hm).trans hd, ?_, rfl, token?_number hd hends⟩
        rintro rfl
        exact absurd hc (by decide)
    | real d => exact hm.elim
    | float x => exact hm.elim
  | _ =>
    rename_i v
    obtain ⟨c, cs, hv, hc, hcs⟩ := hm
    have hends : Ends rest := hr.resolve_left (by nofun)
    refine ⟨'$', c :: cs, _, ?_, by decide, rfl, ?_⟩
    · change ("$" ++ v.name).toList = _
      rw [String.toList_append, hv]
      rfl
    · rw [token?_variable hc hcs hends, ← hv, String.ofList_toList]

/-- **The tokens of a rendered run** of marks are those of the marks. -/
theorem tokensWithin?_render {ms : List Mark} (hm : ∀ m ∈ ms, m.Readable) (hl : Loose ms) {n : Nat}
    (hn : (render ms).length ≤ n) : tokensWithin? n (render ms) = some (ms.filterMap Mark.token?) := by
  induction ms generalizing n with
  | nil => cases n <;> rfl
  | cons m ms ih =>
    have hrest : ∀ {n}, (render ms).length ≤ n →
        tokensWithin? n (render ms) = some (ms.filterMap Mark.token?) :=
      ih (fun k hk => hm k (List.mem_cons_of_mem _ hk)) hl.2
    by_cases hspace : m = .space
    · subst hspace
      have hcons : render (.space :: ms) = ' ' :: render ms := rfl
      rw [hcons, List.length_cons] at hn
      obtain ⟨n, rfl⟩ : ∃ k, n = k + 1 := ⟨n - 1, by omega⟩
      rw [hcons, tokensWithin?, if_pos rfl, List.filterMap_cons_none rfl]
      exact hrest (by omega)
    · have hends : m.isClosed = true ∨ Ends (render ms) := by
        refine hl.1.imp_right fun hsep d hd => ?_
        cases ms with
        | nil => cases hd
        | cons k ms =>
          obtain ⟨c, cs, hc, hmem⟩ := head_separates (hsep k rfl)
          rw [render_cons, hc] at hd
          cases hd
          exact hmem
      obtain ⟨c, cs, t, htext, hc, ht, htoken⟩ := token?_mark (hm m List.mem_cons_self) hspace hends
      rw [render_cons, htext, List.cons_append] at hn ⊢
      rw [List.length_cons, List.length_append] at hn
      obtain ⟨n, rfl⟩ : ∃ k, n = k + 1 := ⟨n - 1, by omega⟩
      rw [tokensWithin?, if_neg hc, htoken, List.filterMap_cons_some ht]
      change (tokensWithin? n (render ms) >>= _) = _
      rw [hrest (by omega)]
      rfl

end Jq

end RecordQuery
