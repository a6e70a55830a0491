import RecordQuery.Proofs.Token.Lexed

/-! # Tokens read alone

The scanner looks ahead: for a digit behind a point, for an exponent, for a second quote, for the
second character of a symbol. What it has read does not depend on what follows, though: where it
leaves a text unread, it reads the same without that text (`scanToken_alone`). One lemma for each
part of a token, in the order in which the scanner is built from them. -/

namespace RecordQuery

/-- A splitter that goes the same way without a text that it leaves unread. -/
def Alone {α : Type} (f : List Char → α × List Char) : Prop :=
  ∀ body mid rest x, f (body ++ rest) = (x, mid ++ rest) → f body = (x, mid)

variable {c : Char} {body mid rest more cs : List Char}

/-- A text that ends in what is left of it behind its first character starts in front of that. -/
theorem exists_cons (h : body ++ rest = c :: more) (hlength : rest.length ≤ more.length) :
    ∃ tail, body = c :: tail ∧ tail ++ rest = more := by
  cases body with
  | nil =>
    have := congrArg List.length h
    simp only [List.nil_append, List.length_cons] at this
    omega
  | cons d tail =>
    obtain ⟨rfl, rfl⟩ := List.cons.inj h
    exact ⟨tail, rfl, rfl⟩

theorem length_of_suffix (h : mid ++ rest <:+ more) : rest.length ≤ more.length := by
  have := h.length_le
  rw [List.length_append] at this
  omega

/-- Nothing stands in front of a text that is left of itself. -/
theorem eq_nil_of_suffix (h : mid ++ rest <:+ rest) : mid = [] := by
  have := h.length_le
  rw [List.length_append] at this
  exact List.length_eq_zero_iff.mp (by omega)

/-! ### Quoted texts -/

section Quoted
variable {quote : Char}

theorem readEnclosed_doubled : readEnclosed quote (quote :: quote :: more) =
    (readEnclosed quote more).map fun (cs, rest) => (quote :: cs, rest) := by
  rw [readEnclosed.eq_def]
  simp only [if_true]

theorem readEnclosed_close (h : more.head? ≠ some quote) :
    readEnclosed quote (quote :: more) = some ([], more) := by
  rw [readEnclosed.eq_def]
  cases more with
  | nil => simp only [if_true]
  | cons d more =>
    have hd : d ≠ quote := fun he => h (by rw [he]; rfl)
    simp only [if_true, if_neg hd]

theorem readEnclosed_other (h : c ≠ quote) : readEnclosed quote (c :: more) =
    (readEnclosed quote more).map fun (cs, rest) => (c :: cs, rest) := by
  rw [readEnclosed.eq_def]
  simp only [if_neg h]

theorem readEnclosed_alone (h : readEnclosed quote (body ++ rest) = some (cs, mid ++ rest)) :
    readEnclosed quote body = some (cs, mid) := by
  generalize hwhole : body ++ rest = whole at h
  fun_induction readEnclosed quote whole generalizing body cs with
  | case1 => cases h
  | case2 =>
    simp only [Option.some.injEq, Prod.mk.injEq, List.nil_eq, List.append_eq_nil_iff] at h
    obtain ⟨rfl, rfl, rfl⟩ := h
    rw [List.append_nil] at hwhole
    rw [hwhole, readEnclosed_close (by simp)]
  | case3 later ih =>
    obtain ⟨⟨content, left⟩, hread, heq⟩ := Option.map_eq_some_iff.mp h
    obtain ⟨rfl, rfl⟩ := Prod.mk.inj heq
    have hlength := length_of_suffix (readEnclosed_suffix hread)
    obtain ⟨second, rfl, hsecond⟩ := exists_cons hwhole (by rw [List.length_cons]; omega)
    obtain ⟨tail, rfl, htail⟩ := exists_cons hsecond hlength
    rw [readEnclosed_doubled, ih htail hread, Option.map_some]
  | case4 d later hd =>
    simp only [Option.some.injEq, Prod.mk.injEq] at h
    obtain ⟨rfl, h⟩ := h
    obtain ⟨tail, rfl, htail⟩ := exists_cons hwhole (by rw [h, List.length_append]; omega)
    rw [h, List.append_cancel_right_eq] at htail
    subst htail
    refine readEnclosed_close fun hhead => ?_
    obtain ⟨later, rfl⟩ := List.head?_eq_some_iff.mp hhead
    exact hd (List.cons.inj h).1
  | case5 d later hd ih =>
    obtain ⟨⟨content, left⟩, hread, heq⟩ := Option.map_eq_some_iff.mp h
    obtain ⟨rfl, rfl⟩ := Prod.mk.inj heq
    obtain ⟨tail, rfl, htail⟩ := exists_cons hwhole (length_of_suffix (readEnclosed_suffix hread))
    rw [readEnclosed_other hd, ih htail hread, Option.map_some]

end Quoted

/-! ### Numbers -/

/-- The run of characters of a kind at the start of a text, and what follows it. -/
theorem span_alone {p : Char → Bool} : Alone fun cs => (cs.takeWhile p, cs.dropWhile p) := by
  intro body mid rest x h
  induction body generalizing x with
  | nil =>
    obtain ⟨rfl, hrest⟩ := Prod.mk.inj h
    rw [List.nil_append] at hrest
    obtain rfl := eq_nil_of_suffix (hrest ▸ List.dropWhile_suffix p)
    have := List.takeWhile_append_dropWhile (p := p) (l := rest)
    rw [hrest, List.nil_append, List.append_left_eq_self] at this
    simp only [List.nil_append, this, List.takeWhile_nil, List.dropWhile_nil]
  | cons c body ih =>
    by_cases hc : p c = true
    · simp only [List.cons_append, List.takeWhile_cons_of_pos hc, List.dropWhile_cons_of_pos hc,
        Prod.mk.injEq] at h
      obtain ⟨rfl, hrest⟩ := h
      obtain ⟨htake, hdrop⟩ := Prod.mk.inj (ih _ (Prod.ext rfl hrest))
      simp only [List.takeWhile_cons_of_pos hc, List.dropWhile_cons_of_pos hc, htake, hdrop]
    · simp only [List.cons_append, List.takeWhile_cons_of_neg hc, List.dropWhile_cons_of_neg hc,
        Prod.mk.injEq] at h
      obtain ⟨rfl, hrest⟩ := h
      rw [← List.cons_append, List.append_cancel_right_eq] at hrest
      subst hrest
      simp only [List.takeWhile_cons_of_neg hc, List.dropWhile_cons_of_neg hc]

theorem splitDigits_alone : Alone splitDigits := span_alone

/-- Digits that are not there with a text behind are not there without it. -/
theorem splitDigits_isEmpty (h : (splitDigits (body ++ rest)).1.isEmpty = true) :
    (splitDigits body).1.isEmpty = true := by
  cases body with
  | nil => rfl
  | cons c body =>
    by_cases hc : c.isDigit = true
    · rw [splitDigits, List.cons_append, List.takeWhile_cons_of_pos hc] at h
      cases h
    · rw [splitDigits, List.takeWhile_cons_of_neg hc]
      rfl

theorem splitFraction_point : splitFraction ('.' :: more) =
    if (splitDigits more).1.isEmpty then ([], '.' :: more) else splitDigits more := rfl

theorem splitFraction_other (h : c ≠ '.') : splitFraction (c :: more) = ([], c :: more) := by
  unfold splitFraction
  split
  · next heq => exact absurd (List.cons.inj heq).1 h
  · rfl

theorem splitFraction_idle {x : List Char} (h : splitFraction cs = (x, cs)) : x = [] := by
  unfold splitFraction at h
  split at h
  · next more =>
    split at h
    · exact (Prod.mk.inj h).1.symm
    · have := (splitDigits_suffix more).length_le
      rw [h, List.length_cons] at this
      omega
  · exact (Prod.mk.inj h).1.symm

theorem splitFraction_alone : Alone splitFraction := by
  intro body mid rest x h
  cases body with
  | nil =>
    have hsuffix := splitFraction_suffix rest
    rw [List.nil_append] at h
    rw [h] at hsuffix
    obtain rfl := eq_nil_of_suffix hsuffix
    rw [splitFraction_idle h]
    rfl
  | cons c body =>
    by_cases hc : c = '.'
    · subst hc
      rw [List.cons_append, splitFraction_point] at h
      split at h
      · next hnone =>
        obtain ⟨rfl, hrest⟩ := Prod.mk.inj h
        rw [← List.cons_append, List.append_cancel_right_eq] at hrest
        rw [splitFraction_point, if_pos (splitDigits_isEmpty hnone), hrest]
      · next hsome =>
        have hdigits := splitDigits_alone _ _ _ _ h
        rw [splitFraction_point, hdigits, if_neg]
        rwa [h] at hsome
    · rw [List.cons_append, splitFraction_other hc] at h
      obtain ⟨rfl, hrest⟩ := Prod.mk.inj h
      rw [← List.cons_append, List.append_cancel_right_eq] at hrest
      rw [splitFraction_other hc, hrest]

/-- Splits off a sign, as an exponent has it. -/
def splitSign : List Char → Option Char × List Char
  | '+' :: more => (some '+', more)
  | '-' :: more => (some '-', more)
  | more => (none, more)

theorem splitSign_suffix (cs : List Char) : (splitSign cs).2 <:+ cs := by
  unfold splitSign
  split
  · exact List.suffix_cons _ _
  · exact List.suffix_cons _ _
  · exact List.suffix_rfl

theorem splitSign_other (hplus : c ≠ '+') (hminus : c ≠ '-') :
    splitSign (c :: more) = (none, c :: more) := by
  unfold splitSign
  split
  · next heq => exact absurd (List.cons.inj heq).1 hplus
  · next heq => exact absurd (List.cons.inj heq).1 hminus
  · rfl

/-- A sign is told by the first character. -/
theorem splitSign_append :
    splitSign (c :: body ++ rest) =
      ((splitSign (c :: body)).1, (splitSign (c :: body)).2 ++ rest) := by
  by_cases hplus : c = '+'
  · subst hplus
    rfl
  by_cases hminus : c = '-'
  · subst hminus
    rfl
  rw [List.cons_append, splitSign_other hplus hminus, splitSign_other hplus hminus,
    List.cons_append]

theorem splitExponent_letter (hc : c = 'e' ∨ c = 'E') : splitExponent (c :: more) =
    if (splitDigits (splitSign more).2).1.isEmpty then (none, c :: more)
    else (some ((splitSign more).1, (splitDigits (splitSign more).2).1),
      (splitDigits (splitSign more).2).2) := by
  unfold splitExponent
  simp only [if_pos hc]
  rfl

theorem splitExponent_other (hc : ¬ (c = 'e' ∨ c = 'E')) :
    splitExponent (c :: more) = (none, c :: more) := by
  unfold splitExponent
  simp only [if_neg hc]

theorem splitSign_isEmpty
    (h : (splitDigits (splitSign (body ++ rest)).2).1.isEmpty = true) :
    (splitDigits (splitSign body).2).1.isEmpty = true := by
  cases body with
  | nil => rfl
  | cons c body =>
    rw [splitSign_append] at h
    exact splitDigits_isEmpty h

/-- A sign with digits behind it, of which there are some. -/
theorem splitSign_digits_alone {ds : List Char}
    (h : splitDigits (splitSign (body ++ rest)).2 = (ds, mid ++ rest))
    (hds : ¬ ds.isEmpty = true) : (splitSign body).1 = (splitSign (body ++ rest)).1 ∧
      splitDigits (splitSign body).2 = (ds, mid) := by
  cases body with
  | nil =>
    have hlength := (splitSign_suffix rest).length_le
    have := List.takeWhile_append_dropWhile (p := Char.isDigit) (l := (splitSign rest).2)
    obtain ⟨htake, hdrop⟩ := Prod.mk.inj h
    rw [List.nil_append] at htake hdrop
    rw [htake, hdrop] at this
    rw [← this, List.length_append, List.length_append] at hlength
    exact absurd (List.isEmpty_iff_length_eq_zero.mpr (by omega)) hds
  | cons c body =>
    rw [splitSign_append] at h ⊢
    exact ⟨rfl, splitDigits_alone _ _ _ _ h⟩

theorem splitExponent_idle {x : Option (Option Char × List Char)}
    (h : splitExponent cs = (x, cs)) : x = none := by
  cases cs with
  | nil => exact (Prod.mk.inj h).1.symm
  | cons c more =>
    by_cases hc : c = 'e' ∨ c = 'E'
    · rw [splitExponent_letter hc] at h
      split at h
      · exact (Prod.mk.inj h).1.symm
      · have := ((splitDigits_suffix _).trans (splitSign_suffix more)).length_le
        rw [(Prod.mk.inj h).2, List.length_cons] at this
        omega
    · rw [splitExponent_other hc] at h
      exact (Prod.mk.inj h).1.symm

theorem splitExponent_alone : Alone splitExponent := by
  intro body mid rest x h
  cases body with
  | nil =>
    have hsuffix := splitExponent_suffix rest
    rw [List.nil_append] at h
    rw [h] at hsuffix
    obtain rfl := eq_nil_of_suffix hsuffix
    rw [splitExponent_idle h]
    rfl
  | cons c body =>
    by_cases hc : c = 'e' ∨ c = 'E'
    · rw [List.cons_append, splitExponent_letter hc] at h
      rw [splitExponent_letter hc]
      split at h
      · next hnone =>
        obtain ⟨rfl, hrest⟩ := Prod.mk.inj h
        rw [← List.cons_append, List.append_cancel_right_eq] at hrest
        rw [if_pos (splitSign_isEmpty hnone), hrest]
      · next hsome =>
        obtain ⟨rfl, hrest⟩ := Prod.mk.inj h
        obtain ⟨hsign, hdigits⟩ := splitSign_digits_alone (Prod.ext rfl hrest) hsome
        rw [hdigits, hsign, if_neg hsome]
    · rw [List.cons_append, splitExponent_other hc] at h
      obtain ⟨rfl, hrest⟩ := Prod.mk.inj h
      rw [← List.cons_append, List.append_cancel_right_eq] at hrest
      rw [splitExponent_other hc, hrest]

/-- What is left of a text, with more of it in front. -/
theorem exists_front (h : mid ++ rest <:+ cs) : ∃ front, cs = front ++ mid ++ rest := by
  obtain ⟨front, rfl⟩ := h
  exact ⟨front, (List.append_assoc _ _ _).symm⟩

theorem splitNumber_eq : splitNumber cs =
    (⟨(splitDigits cs).1, (splitFraction (splitDigits cs).2).1,
      (splitExponent (splitFraction (splitDigits cs).2).2).1⟩,
      (splitExponent (splitFraction (splitDigits cs).2).2).2) := rfl

theorem splitNumber_alone : Alone splitNumber := by
  intro body mid rest x h
  rw [splitNumber_eq] at h ⊢
  obtain ⟨rfl, hrest⟩ := Prod.mk.inj h
  -- The parts are read one after another, and each of them leaves at least `mid ++ rest`.
  obtain ⟨third, hthird⟩ := exists_front (hrest ▸ splitExponent_suffix _)
  obtain ⟨second, hsecond⟩ := exists_front (hthird ▸ splitFraction_suffix _)
  have hdigits := splitDigits_alone _ _ _ _ (Prod.ext rfl hsecond)
  rw [hsecond] at hthird
  have hfraction := splitFraction_alone _ _ _ _ (Prod.ext rfl hthird)
  rw [hsecond, hthird] at hrest
  have hexponent := splitExponent_alone _ _ _ _ (Prod.ext rfl hrest)
  simp only [hdigits, hfraction, hexponent, hsecond, hthird]

/-! ### Tokens -/

namespace Scan

variable {f : List Char → Scan} {s : Scan} {t u : Token} {c : Char}

theorem found_inj (h : found t body = found u rest) : t = u ∧ body = rest := by
  simp only [found, Scan.mk.injEq, Except.ok.injEq] at h
  exact h

theorem fail_ne_found {fault : LexFault} (h : fail fault body = found t rest) : False := by
  simp only [fail, found, Scan.mk.injEq, reduceCtorEq, false_and] at h

/-- A scan that goes the same way without a text that it leaves unread. -/
def Alone (f : List Char → Scan) : Prop :=
  ∀ body mid rest t, f (body ++ rest) = found t (mid ++ rest) → f body = found t mid

theorem alone_ite {p : Prop} [Decidable p] {f g : List Char → Scan} (hf : Alone f)
    (hg : Alone g) : Alone fun cs => if p then f cs else g cs := by
  intro body mid rest t h
  dsimp only at h ⊢
  split at h
  · rw [if_pos ‹p›]
    exact hf _ _ _ _ h
  · rw [if_neg ‹¬ p›]
    exact hg _ _ _ _ h

theorem Alone.cons {f : List Char → Scan} (hf : Alone f) : Alone fun cs => f (c :: cs) :=
  fun body mid rest t h => hf (c :: body) mid rest t h

theorem alone_fail (fault : LexFault) : Alone fun cs => fail fault (c :: cs) :=
  fun _ _ _ _ h => absurd h fail_ne_found

/-- A use of a quoted text that keeps what follows it. -/
def Keeps (use : String → List Char → Scan) : Prop :=
  ∀ content rest left t, use content rest = found t left →
    left = rest ∧ ∀ more, use content more = found t more

theorem enclosed_found {what : Enclosed} {quote : Char} {skipped : Nat}
    {use : String → List Char → Scan} (huse : Keeps use)
    (h : enclosed what quote skipped cs use = found t rest) :
    ∃ content, readEnclosed quote cs = some (content, rest) ∧
      ∀ more, use (String.ofList content) more = found t more := by
  unfold enclosed at h
  split at h
  · next content left hread =>
    obtain ⟨rfl, hmore⟩ := huse _ _ _ _ h
    exact ⟨content, hread, hmore⟩
  · simp only [found, Scan.mk.injEq, reduceCtorEq, false_and] at h

theorem alone_enclosed (what : Enclosed) (quote : Char) (skipped : Nat)
    {use : String → List Char → Scan} (huse : Keeps use) :
    Alone fun cs => enclosed what quote skipped cs use := by
  intro body mid rest t h
  obtain ⟨content, hread, hmore⟩ := enclosed_found huse h
  simp only [enclosed, readEnclosed_alone hread, hmore]

theorem keeps_found (make : String → Token) : Keeps fun content rest => found (make content) rest := by
  intro content rest left t h
  obtain ⟨rfl, rfl⟩ := found_inj h
  exact ⟨rfl, fun _ => rfl⟩

theorem keeps_blob : Keeps fun content rest =>
    if content.isEmpty || !content.toList.all (fun c => (hexValue? c).isSome) then
      fail (.invalidBlob content) rest
    else found (.blob content) rest := by
  intro content rest left t h
  dsimp only at h ⊢
  split at h
  · exact absurd h fail_ne_found
  · obtain ⟨rfl, rfl⟩ := found_inj h
    exact ⟨rfl, fun _ => if_neg ‹_›⟩

theorem alone_blob : Alone blob := alone_enclosed _ _ _ keeps_blob

/-- A text behind an opening quote, which is there or not with what follows as without. -/
theorem alone_quoted {p : Prop} [Decidable p] {g : List Char → Scan}
    (hg : Alone g) :
    Alone fun cs => if p ∧ cs.head? = some '\'' then blob (cs.drop 1) else g cs := by
  intro body mid rest t h
  dsimp only at h ⊢
  split at h
  · next hc =>
    obtain ⟨hp, hquote⟩ := hc
    cases body with
    | nil =>
      obtain ⟨more, rfl⟩ := List.head?_eq_some_iff.mp hquote
      obtain ⟨content, hread, -⟩ := enclosed_found keeps_blob h
      have := length_of_suffix (readEnclosed_suffix hread)
      simp only [List.nil_append, List.drop_one, List.tail_cons, List.length_cons] at this
      omega
    | cons d body =>
      rw [if_pos ⟨hp, hquote⟩]
      exact alone_blob body mid rest t h
  · next hc =>
    rw [if_neg]
    · exact hg _ _ _ _ h
    · rintro ⟨hp, hquote⟩
      exact hc ⟨hp, by rw [List.head?_append, hquote, Option.some_or]⟩

theorem number_found (h : number cs = found t rest) : (splitNumber cs).2 = rest := by
  unfold number at h
  dsimp only at h
  split at h
  · exact (found_inj h).2
  · exact absurd h fail_ne_found

theorem alone_number : Alone number := by
  intro body mid rest t h
  have hsplit := splitNumber_alone _ _ _ _ (Prod.ext rfl (number_found h))
  unfold number at h ⊢
  simp only [hsplit]
  dsimp only at h
  split at h
  · next n hn =>
    simp only [hn, (found_inj h).1]
  · exact absurd h fail_ne_found

theorem alone_word : Alone word := by
  intro body mid rest t h
  obtain ⟨rfl, hrest⟩ := found_inj h
  obtain ⟨htake, hdrop⟩ := Prod.mk.inj (span_alone _ _ _ _ (Prod.ext rfl hrest))
  simp only [word, htake, hdrop]

theorem alone_numberedParameter : Alone numberedParameter := by
  intro body mid rest t h
  unfold numberedParameter at h ⊢
  dsimp only at h ⊢
  have hread : ∀ {u : Token}, found u (splitDigits (body ++ rest)).2 = found t (mid ++ rest) →
      u = t ∧ splitDigits body = ((splitDigits (body ++ rest)).1, mid) := by
    intro u hu
    obtain ⟨rfl, hrest⟩ := found_inj hu
    exact ⟨rfl, splitDigits_alone _ _ _ _ (Prod.ext rfl hrest)⟩
  split at h
  · next hnone =>
    obtain ⟨rfl, hdigits⟩ := hread h
    rw [hdigits, if_pos hnone]
  · next hsome =>
    split at h
    · next hn =>
      obtain ⟨rfl, hdigits⟩ := hread h
      rw [hdigits, if_neg hsome, if_pos hn]
    · exact absurd h fail_ne_found

theorem namedParameter_cons {sigil : Char} : namedParameter sigil (c :: cs) =
    if c = '"' then enclosed .quotedIdentifier '"' 1 cs fun name rest =>
      found (.parameter (.named sigil name)) rest
    else if isWordStart c then
      found (.parameter (.named sigil (lowerCase (String.ofList ((c :: cs).takeWhile isWordChar)))))
        ((c :: cs).dropWhile isWordChar)
    else fail (.missingParameterName sigil) (c :: cs) := rfl

/-- A name takes its first character. -/
theorem length_namedParameter {sigil : Char} (h : namedParameter sigil cs = found t rest) :
    rest.length < cs.length := by
  cases cs with
  | nil => exact absurd h fail_ne_found
  | cons c cs =>
    rw [namedParameter_cons] at h
    split at h
    · obtain ⟨content, hread, -⟩ := enclosed_found (keeps_found _) h
      exact Nat.lt_succ_of_le (readEnclosed_suffix hread).length_le
    · split at h
      · next hstart =>
        obtain ⟨-, rfl⟩ := found_inj h
        rw [List.dropWhile_cons_of_pos (isWordChar_of_start hstart)]
        exact Nat.lt_succ_of_le (List.dropWhile_suffix _).length_le
      · exact absurd h fail_ne_found

theorem alone_namedParameter (sigil : Char) : Alone (namedParameter sigil) := by
  intro body mid rest t h
  have hlength := length_namedParameter h
  cases body with
  | nil =>
    rw [List.nil_append, List.length_append] at hlength
    omega
  | cons c body =>
    rw [List.cons_append, namedParameter_cons] at h
    rw [namedParameter_cons]
    split at h
    · next hc =>
      rw [if_pos hc]
      exact alone_enclosed _ _ _ (keeps_found _) _ _ _ _ h
    · next hc =>
      rw [if_neg hc]
      split at h
      · next hstart =>
        obtain ⟨rfl, hrest⟩ := found_inj h
        rw [← List.cons_append] at hrest ⊢
        obtain ⟨htake, hdrop⟩ := Prod.mk.inj (span_alone (c :: body) _ _ _ (Prod.ext rfl hrest))
        rw [if_pos hstart, htake, hdrop]
      · exact absurd h fail_ne_found

/-- A token that is no symbol, by its first character and the characters behind it. -/
def plain (c : Char) (rest : List Char) : Scan :=
  if c = '!' then fail .loneExclamation (c :: rest)
  else if c = '\'' then enclosed .stringLiteral c 0 rest fun s rest => found (.string s) rest
  else if c = '"' then
    enclosed .quotedIdentifier c 0 rest fun s rest => found (.quotedIdentifier s) rest
  else if (c = 'x' ∨ c = 'X') ∧ rest.head? = some '\'' then blob (rest.drop 1)
  else if c = '?' then numberedParameter rest
  else if c = ':' ∨ c = '@' ∨ c = '$' then namedParameter c rest
  else if c.isDigit ∨ c = '.' then number (c :: rest)
  else if isWordStart c then word (c :: rest)
  else fail (.unexpectedCharacter c) (c :: rest)

theorem scanToken_cons : scanToken (c :: cs) =
    match symbolAt? c cs.head? with
    | some (s, both) => found (.symbol s) (if both then cs.drop 1 else cs)
    | none => plain c cs := rfl

theorem alone_plain (c : Char) : Alone (plain c) :=
  alone_ite (alone_fail _) <| alone_ite (alone_enclosed _ _ _ (keeps_found _)) <|
    alone_ite (alone_enclosed _ _ _ (keeps_found _)) <| alone_quoted <|
    alone_ite alone_numberedParameter <| alone_ite (alone_namedParameter c) <|
    alone_ite alone_number.cons <| alone_ite alone_word.cons (alone_fail _)

end Scan

/-! ### Symbols and all other tokens -/

/-- A symbol of one character is one at the end of a text, too. -/
theorem symbolAt?_single {next : Option Char} {s : Symbol} (h : symbolAt? c next = some (s, false)) :
    symbolAt? c none = some (s, false) := by
  fun_cases symbolAt? c next <;> simp_all [symbolAt?]

/-- A symbol of two characters has a second one. -/
theorem symbolAt?_double {next : Option Char} {s : Symbol} (h : symbolAt? c next = some (s, true)) :
    next.isSome = true := by
  fun_cases symbolAt? c next <;> simp_all [symbolAt?]

/-- A character that is no symbol is none at the end of a text, but for a point. -/
theorem symbolAt?_none {next : Option Char} (h : symbolAt? c next = none) (hc : c ≠ '.') :
    symbolAt? c none = none := by
  fun_cases symbolAt? c next <;> simp_all [symbolAt?]

/-- A point alone is no number that is read in front of a digit. -/
theorem not_plain_point {t : Token} (hdigit : rest.head?.any Char.isDigit = true) :
    Scan.plain '.' rest ≠ .found t (mid ++ rest) := by
  intro h
  have hleft : (splitNumber ('.' :: rest)).2 = mid ++ rest := Scan.number_found h
  have hpoint := splitNumber_alone ['.'] mid rest _ (Prod.ext rfl hleft)
  obtain rfl : ['.'] = mid := (Prod.mk.inj hpoint).2
  have := (splitNumber_suffix (.inr ⟨rfl, hdigit⟩)).length_le
  rw [hleft, List.length_append, List.length_singleton] at this
  omega

/-- Only the end of the input takes no character. -/
theorem scanToken_takes {t : Token} (h : scanToken (c :: cs) = .found t rest) : rest <:+ cs := by
  have hlexed : Lexed (c :: cs) t (scanToken (c :: cs)).rest :=
    Scan.lexes_scanToken _ t (by rw [h]; rfl)
  rw [h] at hlexed
  obtain ⟨d, body, heq, hsuffix⟩ := hlexed.suffix fun hend => by subst hend; cases hlexed
  obtain ⟨rfl, rfl⟩ := List.cons.inj heq
  exact hsuffix

theorem symbol_alone {s : Symbol} {both : Bool}
    (h : symbolAt? c (body ++ rest).head? = some (s, both))
    (hrest : (if both then (body ++ rest).drop 1 else body ++ rest) = mid ++ rest) :
    symbolAt? c body.head? = some (s, both) ∧ (if both then body.drop 1 else body) = mid := by
  cases body with
  | nil =>
    cases both with
    | false => exact ⟨symbolAt?_single h, List.append_cancel_right hrest⟩
    | true =>
      obtain ⟨d, hd⟩ := Option.isSome_iff_exists.mp (symbolAt?_double h)
      obtain ⟨more, rfl⟩ := List.head?_eq_some_iff.mp hd
      have := congrArg List.length hrest
      simp only [if_true, List.nil_append, List.drop_one, List.tail_cons, List.length_append,
        List.length_cons] at this
      omega
  | cons d body =>
    refine ⟨h, ?_⟩
    cases both with
    | false => exact List.append_cancel_right hrest
    | true =>
      rw [if_pos rfl, List.cons_append, List.drop_one, List.tail_cons] at hrest
      exact List.append_cancel_right hrest

/-- **A token is read alone** as it is read in front of a text that it leaves unread. -/
theorem scanToken_alone : Scan.Alone scanToken := by
  intro body mid rest t h
  cases body with
  | nil =>
    cases rest with
    | nil =>
      obtain ⟨rfl, hmid⟩ := Scan.found_inj h
      rw [List.append_nil] at hmid
      rw [← hmid]
      rfl
    | cons c rest =>
      have := length_of_suffix (scanToken_takes h)
      rw [List.length_cons] at this
      omega
  | cons c body =>
    rw [List.cons_append, Scan.scanToken_cons] at h
    rw [Scan.scanToken_cons]
    split at h
    · next s both hs =>
      obtain ⟨rfl, hrest⟩ := Scan.found_inj h
      obtain ⟨hsymbol, hmid⟩ := symbol_alone hs hrest
      simp only [hsymbol, hmid]
    · next hs =>
      have hnone : symbolAt? c body.head? = none := by
        cases body with
        | cons d body => exact hs
        | nil =>
          refine symbolAt?_none hs ?_
          rintro rfl
          exact not_plain_point (Scan.digit_of_symbolAt? hs) h
      simp only [hnone]
      exact Scan.alone_plain c _ _ _ _ h

end RecordQuery
