import RecordQuery.Proofs.Token.Alone

/-! # Tokens in front of blanks

What the scanner reads at the end of a text, it reads in front of a blank as well, or of a
parenthesis or a comma: none of its parts goes on with such a character (`Steady`), so a token keeps
its last character where more text is put behind it and starts with one (`scanToken_steady`). One
lemma for each part of a token, as in the other direction, in which text behind a token is cut off.
-/

namespace RecordQuery

/-- The end of a text, or a blank. -/
def Breaks (cs : List Char) : Prop := ∀ c ∈ cs.head?, isBlank c = true


variable {c : Char} {body mid rest more cs : List Char}

/-! ### Blanks -/

namespace CharSet

/-- The code points of a set are those between the ends of its ranges. -/
theorem exists_of_covers {n : Nat} {ranges : List (Nat × Nat)} (h : covers ranges n = true) :
    ∃ r ∈ ranges, n ∈ List.range' r.1 (r.2 + 1 - r.1) := by
  induction ranges with
  | nil => cases h
  | cons r ranges ih =>
    simp only [covers, Bool.and_eq_true, Bool.or_eq_true, decide_eq_true_eq] at h
    obtain ⟨hlow, hhigh | hrest⟩ := h
    · exact ⟨r, List.mem_cons_self, List.mem_range'_1.mpr ⟨hlow, by omega⟩⟩
    · obtain ⟨r', hr', hn⟩ := ih hrest
      exact ⟨r', List.mem_cons_of_mem _ hr', hn⟩

end CharSet

/-- The characters with a meaning of their own inside a token. -/
def inner : List Char :=
  ['\'', '"', '.', 'e', 'E', '+', '-', '/', '*', '|', '<', '=', '>']

/-- **A blank is part of no token** that is not quoted. -/
theorem isBlank_spec (h : isBlank c = true) :
    isWordChar c = false ∧ isWordStart c = false ∧ c.isDigit = false ∧ c ∉ inner := by
  have hall : blanks.ranges.all (fun r => (List.range' r.1 (r.2 + 1 - r.1)).all fun n =>
      decide (isWordChar (Char.ofNat n) = false ∧ isWordStart (Char.ofNat n) = false ∧
        (Char.ofNat n).isDigit = false ∧ Char.ofNat n ∉ inner)) = true := by
    decide +kernel
  obtain ⟨r, hr, hn⟩ := CharSet.exists_of_covers h
  have hchar := of_decide_eq_true (List.all_eq_true.mp (List.all_eq_true.mp hall r hr) _ hn)
  rwa [Char.ofNat_toNat] at hchar

/-- A character that is part of no token, unless it is quoted or a token by itself. -/
def Parting (c : Char) : Prop :=
  isWordChar c = false ∧ isWordStart c = false ∧ c.isDigit = false ∧ c ∉ inner

instance (c : Char) : Decidable (Parting c) := inferInstanceAs (Decidable (_ ∧ _ ∧ _ ∧ _))

/-- The end of a text, or a character that is part of no token in front of it. -/
def Cuts (cs : List Char) : Prop := ∀ c ∈ cs.head?, Parting c

theorem Breaks.cuts (h : Breaks rest) : Cuts rest := fun c hc => isBlank_spec (h c hc)

theorem cuts_cons (h : Parting c) : Cuts (c :: cs) := by
  rintro _ ⟨⟩
  exact h

theorem Cuts.head_ne (h : Cuts rest) {d : Char} (hd : d ∈ inner) : rest.head? ≠ some d :=
  fun hhead => (h d hhead).2.2.2 hd

/-- A splitter that goes the same way where a text that cuts it off is put behind. -/
def Steady {α : Type} (f : List Char → α × List Char) : Prop :=
  ∀ cs rest, Cuts rest → f (cs ++ rest) = ((f cs).1, (f cs).2 ++ rest)

/-! ### Quoted texts -/

theorem readEnclosed_steady {quote : Char} (hr : rest.head? ≠ some quote)
    (h : readEnclosed quote body = some (cs, mid)) :
    readEnclosed quote (body ++ rest) = some (cs, mid ++ rest) := by
  fun_induction readEnclosed quote body generalizing cs with
  | case1 => cases h
  | case2 =>
    cases h
    exact readEnclosed_close hr
  | case3 more ih =>
    obtain ⟨⟨content, left⟩, hread, heq⟩ := Option.map_eq_some_iff.mp h
    obtain ⟨rfl, rfl⟩ := Prod.mk.inj heq
    rw [List.cons_append, List.cons_append, readEnclosed_doubled, ih hread, Option.map_some]
  | case4 d more hd =>
    cases h
    exact readEnclosed_close fun hhead => hd (Option.some.inj hhead)
  | case5 d more hd ih =>
    obtain ⟨⟨content, left⟩, hread, heq⟩ := Option.map_eq_some_iff.mp h
    obtain ⟨rfl, rfl⟩ := Prod.mk.inj heq
    rw [List.cons_append, readEnclosed_other hd, ih hread, Option.map_some]

/-! ### Numbers -/

/-- A run of characters of a kind, in front of one of another kind. -/
theorem span_append {p : Char → Bool} (hr : ∀ c ∈ rest.head?, p c = false) (cs : List Char) :
    ((cs ++ rest).takeWhile p, (cs ++ rest).dropWhile p) =
      (cs.takeWhile p, cs.dropWhile p ++ rest) := by
  induction cs with
  | nil =>
    cases rest with
    | nil => rfl
    | cons c rest =>
      have hc : ¬ p c = true := by rw [hr c rfl]; exact Bool.false_ne_true
      simp only [List.nil_append, List.takeWhile_cons_of_neg hc, List.dropWhile_cons_of_neg hc,
        List.takeWhile_nil, List.dropWhile_nil]
  | cons c cs ih =>
    obtain ⟨htake, hdrop⟩ := Prod.mk.inj ih
    by_cases hc : p c = true
    · simp only [List.cons_append, List.takeWhile_cons_of_pos hc, List.dropWhile_cons_of_pos hc,
        htake, hdrop]
    · simp only [List.cons_append, List.takeWhile_cons_of_neg hc, List.dropWhile_cons_of_neg hc]

theorem splitDigits_steady : Steady splitDigits :=
  fun cs _ hr => span_append (fun c hc => (hr c hc).2.2.1) cs

theorem splitFraction_steady : Steady splitFraction := by
  intro cs rest hr
  cases cs with
  | nil =>
    cases rest with
    | nil => rfl
    | cons c rest =>
      exact splitFraction_other fun hc => hr.head_ne (d := '.') (by decide) (congrArg some hc)
  | cons c cs =>
    by_cases hc : c = '.'
    · subst hc
      rw [List.cons_append, splitFraction_point, splitFraction_point, splitDigits_steady cs rest hr]
      dsimp only
      split <;> rfl
    · rw [List.cons_append, splitFraction_other hc, splitFraction_other hc, List.cons_append]

theorem splitSign_steady : Steady splitSign := by
  intro cs rest hr
  cases cs with
  | nil =>
    rw [List.nil_append]
    unfold splitSign
    split
    · exact absurd rfl (hr.head_ne (d := '+') (by decide))
    · exact absurd rfl (hr.head_ne (d := '-') (by decide))
    · rfl
  | cons c cs => exact splitSign_append

theorem splitExponent_steady : Steady splitExponent := by
  intro cs rest hr
  cases cs with
  | nil =>
    cases rest with
    | nil => rfl
    | cons c rest =>
      refine splitExponent_other ?_
      rintro (rfl | rfl)
      · exact hr.head_ne (d := 'e') (by decide) rfl
      · exact hr.head_ne (d := 'E') (by decide) rfl
  | cons c cs =>
    by_cases hc : c = 'e' ∨ c = 'E'
    · rw [List.cons_append, splitExponent_letter hc, splitExponent_letter hc,
        splitSign_steady cs rest hr, splitDigits_steady _ rest hr]
      dsimp only
      split <;> rfl
    · rw [List.cons_append, splitExponent_other hc, splitExponent_other hc, List.cons_append]

theorem splitNumber_steady : Steady splitNumber := by
  intro cs rest hr
  rw [splitNumber_eq, splitNumber_eq, splitDigits_steady cs rest hr,
    splitFraction_steady _ rest hr, splitExponent_steady _ rest hr]

/-! ### Tokens -/

namespace Scan

variable {f : List Char → Scan} {t : Token}

/-- A scan that goes the same way where a text that cuts it off is put behind. -/
def Steady (f : List Char → Scan) : Prop :=
  ∀ body mid rest t, Cuts rest → f body = found t mid → f (body ++ rest) = found t (mid ++ rest)

theorem steady_ite {p : Prop} [Decidable p] {f g : List Char → Scan} (hf : p → Steady f)
    (hg : Steady g) : Steady fun cs => if p then f cs else g cs := by
  intro body mid rest t hr h
  dsimp only at h ⊢
  split at h
  · rw [if_pos ‹p›]
    exact hf ‹p› _ _ _ _ hr h
  · rw [if_neg ‹¬ p›]
    exact hg _ _ _ _ hr h

theorem Steady.cons {f : List Char → Scan} (hf : Steady f) : Steady fun cs => f (c :: cs) :=
  fun body mid rest t hr h => hf (c :: body) mid rest t hr h

theorem steady_fail (fault : LexFault) : Steady fun cs => fail fault (c :: cs) :=
  fun _ _ _ _ _ h => absurd h fail_ne_found

theorem steady_enclosed (what : Enclosed) {quote : Char} (hq : quote ∈ inner) (skipped : Nat)
    {use : String → List Char → Scan} (huse : Keeps use) :
    Steady fun cs => enclosed what quote skipped cs use := by
  intro body mid rest t hr h
  obtain ⟨content, hread, hmore⟩ := enclosed_found huse h
  simp only [enclosed, readEnclosed_steady (hr.head_ne hq) hread, hmore]

theorem steady_blob : Steady blob := steady_enclosed _ (by decide) _ keeps_blob

/-- A text behind an opening quote, which nothing that cuts a token off begins with. -/
theorem steady_quoted {p : Prop} [Decidable p] {g : List Char → Scan} (hg : Steady g) :
    Steady fun cs => if p ∧ cs.head? = some '\'' then blob (cs.drop 1) else g cs := by
  intro body mid rest t hr h
  dsimp only at h ⊢
  cases body with
  | nil =>
    rw [if_neg fun hc => nomatch hc.2] at h
    rw [List.nil_append, if_neg fun hc => hr.head_ne (by decide) hc.2]
    exact hg [] mid rest t hr h
  | cons d body =>
    change (if p ∧ some d = some '\'' then blob body else g (d :: body)) = _ at h
    change (if p ∧ some d = some '\'' then blob (body ++ rest) else g (d :: (body ++ rest))) = _
    exact steady_ite (fun _ => steady_blob) hg.cons body mid rest t hr h

theorem steady_number : Steady number := by
  intro body mid rest t hr h
  unfold number at h ⊢
  rw [splitNumber_steady body rest hr]
  generalize splitNumber body = split at h
  dsimp only at h ⊢
  split at h
  · next n hn =>
    obtain ⟨rfl, rfl⟩ := found_inj h
    rfl
  · exact absurd h fail_ne_found

/-- The letters of a word, in front of a character that is none. -/
theorem word_append (hr : ∀ c ∈ rest.head?, isWordChar c = false) (cs : List Char) :
    (cs ++ rest).takeWhile isWordChar = cs.takeWhile isWordChar ∧
      (cs ++ rest).dropWhile isWordChar = cs.dropWhile isWordChar ++ rest :=
  Prod.mk.inj (span_append hr cs)

theorem steady_word : Steady word := by
  intro body mid rest t hr h
  obtain ⟨htake, hdrop⟩ := word_append (fun c hc => (hr c hc).1) body
  obtain ⟨rfl, rfl⟩ := found_inj h
  simp only [word, htake, hdrop]

theorem steady_numberedParameter : Steady numberedParameter := by
  intro body mid rest t hr h
  unfold numberedParameter at h ⊢
  rw [splitDigits_steady body rest hr]
  dsimp only at h ⊢
  split at h
  · next hnone =>
    obtain ⟨rfl, rfl⟩ := found_inj h
    exact if_pos hnone
  · next hsome =>
    rw [if_neg hsome]
    split at h
    · next hn =>
      obtain ⟨rfl, rfl⟩ := found_inj h
      exact if_pos hn
    · exact absurd h fail_ne_found

theorem steady_namedParameter (sigil : Char) : Steady (namedParameter sigil) := by
  intro body mid rest t hr h
  cases body with
  | nil => exact absurd h fail_ne_found
  | cons c body =>
    rw [namedParameter_cons] at h
    rw [List.cons_append, namedParameter_cons]
    split at h
    · next hc =>
      rw [if_pos hc]
      exact steady_enclosed _ (by decide) _ (keeps_found _) _ _ _ _ hr h
    · next hc =>
      rw [if_neg hc]
      split at h
      · next hstart =>
        obtain ⟨htake, hdrop⟩ := word_append (fun c hc => (hr c hc).1) (c :: body)
        obtain ⟨rfl, rfl⟩ := found_inj h
        rw [if_pos hstart, ← List.cons_append, htake, hdrop]
      · exact absurd h fail_ne_found

theorem steady_plain (c : Char) : Steady (plain c) :=
  steady_ite (fun _ => steady_fail _) <|
    steady_ite (fun hc => steady_enclosed _ (hc ▸ by decide) _ (keeps_found _)) <|
    steady_ite (fun hc => steady_enclosed _ (hc ▸ by decide) _ (keeps_found _)) <|
    steady_quoted <| steady_ite (fun _ => steady_numberedParameter) <|
    steady_ite (fun _ => steady_namedParameter c) <| steady_ite (fun _ => steady_number.cons) <|
    steady_ite (fun _ => steady_word.cons) (steady_fail _)

end Scan

/-- What cuts a token off is as good as the end of the text. -/
theorem symbolAt?_cuts (hr : Cuts rest) : symbolAt? c rest.head? = symbolAt? c none := by
  cases rest with
  | nil => rfl
  | cons d rest =>
    obtain ⟨-, -, hdigit, hinner⟩ := hr d rfl
    simp only [inner, List.mem_cons, List.not_mem_nil, or_false, not_or] at hinner
    fun_cases symbolAt? c (some d) <;> simp_all [symbolAt?]

/-- **A token keeps its last character** where text that cuts it off is put behind it. -/
theorem scanToken_steady (hr : Cuts rest) (hc : cs ≠ []) {t : Token}
    (h : scanToken cs = .found t mid) : scanToken (cs ++ rest) = .found t (mid ++ rest) := by
  cases cs with
  | nil => exact absurd rfl hc
  | cons c body =>
    rw [Scan.scanToken_cons] at h
    rw [List.cons_append, Scan.scanToken_cons]
    have hhead : symbolAt? c (body ++ rest).head? = symbolAt? c body.head? := by
      cases body with
      | nil => exact symbolAt?_cuts hr
      | cons d body => rfl
    rw [hhead]
    split at h
    · next s both hs =>
      obtain ⟨rfl, rfl⟩ := Scan.found_inj h
      cases both with
      | false => rfl
      | true =>
        cases body with
        | nil => exact absurd (symbolAt?_double hs) (by simp)
        | cons d body => rfl
    · exact Scan.steady_plain c _ _ _ _ hr h

end RecordQuery
