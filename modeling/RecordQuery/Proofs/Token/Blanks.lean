import RecordQuery.Proofs.Token.Lexed

/-! # Blanks and comments

What `skipTrivia` passes, as a relation: `Blanks gap rest` says that `gap` consists of blank
characters and of comments, in front of `rest`. A comment of a line ends with the line, and without
one only where the text ends; a comment in marks ends with the first closing mark behind the opening
one.

* `blanks_of_skipTrivia`: what is passed in front of a token is such a gap.
* `skipTrivia_blanks`: conversely, such a gap is passed, up to a text that starts with neither a
  blank nor a comment (`Solid`). -/

namespace RecordQuery

/-- **Blanks and comments** in front of a text. -/
inductive Blanks : List Char → List Char → Prop
  | nil {rest : List Char} : Blanks [] rest
  | blank {c : Char} {gap rest : List Char} (hc : isBlank c = true) (h : Blanks gap rest) :
      Blanks (c :: gap) rest
  | line {body gap rest : List Char} (hbody : '\n' ∉ body) (h : Blanks gap rest) :
      Blanks ('-' :: '-' :: body ++ '\n' :: gap) rest
  | lastLine {body : List Char} (hbody : '\n' ∉ body) : Blanks ('-' :: '-' :: body) []
  | block {body gap rest : List Char} (hbody : ¬ ['*', '/'] <:+: body) (h : Blanks gap rest) :
      Blanks ('/' :: '*' :: body ++ '*' :: '/' :: gap) rest

/-- A text that starts with neither a blank nor a comment. -/
def Solid (cs : List Char) : Prop := skipTrivia .outside cs = .ok cs

/-! ### Passing them -/

/-- What stands between a place in blanks or comments and the text behind them. -/
def Trivia.Passes : Trivia → List Char → List Char → Prop
  | .outside, gap, rest => Blanks gap rest
  | .line, gap, rest => ('\n' ∉ gap ∧ rest = []) ∨
      ∃ body tail, gap = body ++ '\n' :: tail ∧ '\n' ∉ body ∧ Blanks tail rest
  | .block _, gap, rest =>
      ∃ body tail, gap = body ++ '*' :: '/' :: tail ∧ ¬ ['*', '/'] <:+: body ∧ Blanks tail rest

variable {c : Char} {cs gap body more rest : List Char} {opening : List Char}

/-- No closing mark stands in a longer body, if none starts with its first character. -/
theorem not_closes_cons (more : List Char) (hbody : ¬ ['*', '/'] <:+: body)
    (hc : c = '*' → (body ++ '*' :: more).head? ≠ some '/') : ¬ ['*', '/'] <:+: c :: body := by
  intro h
  rcases List.infix_cons_iff.mp h with hp | hi
  · obtain ⟨tail, htail⟩ := hp
    simp only [List.cons_append, List.nil_append, List.cons.injEq] at htail
    obtain ⟨rfl, rfl⟩ := htail
    exact hc rfl rfl
  · exact hbody hi

theorem passes_of_skipTrivia {mode : Trivia} (h : skipTrivia mode cs = .ok rest) :
    ∃ gap, cs = gap ++ rest ∧ mode.Passes gap rest := by
  fun_induction skipTrivia mode cs with
  | case1 => cases h
  | case2 mode hmode =>
    cases h
    refine ⟨[], rfl, ?_⟩
    cases mode with
    | outside => exact .nil
    | line => exact .inl ⟨List.not_mem_nil, rfl⟩
    | block opening => exact absurd rfl (hmode opening)
  | case3 c tail hc ih =>
    obtain ⟨gap, rfl, hgap⟩ := ih h
    exact ⟨c :: gap, rfl, .blank hc hgap⟩
  | case4 more _ ih =>
    obtain ⟨gap, rfl, hgap⟩ := ih h
    refine ⟨'-' :: '-' :: gap, rfl, ?_⟩
    rcases hgap with ⟨hnone, rfl⟩ | ⟨body, tail, rfl, hbody, htail⟩
    · exact .lastLine hnone
    · exact .line hbody htail
  | case5 more _ ih =>
    obtain ⟨gap, rfl, body, tail, rfl, hbody, htail⟩ := ih h
    exact ⟨'/' :: '*' :: body ++ '*' :: '/' :: tail, rfl, .block hbody htail⟩
  | case6 =>
    cases h
    exact ⟨[], rfl, .nil⟩
  | case7 tail ih =>
    obtain ⟨gap, rfl, hgap⟩ := ih h
    exact ⟨'\n' :: gap, rfl, .inr ⟨[], gap, rfl, List.not_mem_nil, hgap⟩⟩
  | case8 c tail hc ih =>
    have hne : '\n' ≠ c := fun he => hc he.symm
    obtain ⟨gap, rfl, hgap⟩ := ih h
    refine ⟨c :: gap, rfl, ?_⟩
    rcases hgap with ⟨hnone, rfl⟩ | ⟨body, tail, rfl, hbody, htail⟩
    · exact .inl ⟨List.not_mem_cons_of_ne_of_not_mem hne hnone, rfl⟩
    · exact .inr ⟨c :: body, tail, rfl, List.not_mem_cons_of_ne_of_not_mem hne hbody, htail⟩
  | case9 opening more ih =>
    obtain ⟨gap, rfl, hgap⟩ := ih h
    exact ⟨'*' :: '/' :: gap, rfl, [], gap, rfl, by simp, hgap⟩
  | case10 opening c tail hclose ih =>
    obtain ⟨gap, rfl, body, tail, rfl, hbody, htail⟩ := ih h
    refine ⟨c :: (body ++ '*' :: '/' :: tail), rfl, c :: body, tail, rfl, ?_, htail⟩
    refine not_closes_cons ('/' :: tail) hbody fun hstar hslash => ?_
    obtain ⟨later, hlater⟩ := List.head?_eq_some_iff.mp hslash
    exact hclose (later ++ rest) hstar (by rw [hlater]; rfl)

/-- **What is passed** in front of a text are blanks and comments. -/
theorem blanks_of_skipTrivia (h : skipTrivia .outside cs = .ok rest) :
    ∃ gap, cs = gap ++ rest ∧ Blanks gap rest := passes_of_skipTrivia h

/-! ### Blanks and comments are passed -/

theorem skipTrivia_blank (hc : isBlank c = true) :
    skipTrivia .outside (c :: rest) = skipTrivia .outside rest := by
  rw [skipTrivia.eq_def]
  exact if_pos hc

theorem skipTrivia_minuses : skipTrivia .outside ('-' :: '-' :: rest) = skipTrivia .line rest :=
  rfl

theorem skipTrivia_opening : skipTrivia .outside ('/' :: '*' :: rest) =
    skipTrivia (.block ('/' :: '*' :: rest)) rest := rfl

theorem skipTrivia_line_cons (hc : c ≠ '\n') :
    skipTrivia .line (c :: rest) = skipTrivia .line rest := if_neg hc

theorem skipTrivia_block_cons (hclose : c = '*' → rest.head? ≠ some '/') :
    skipTrivia (.block opening) (c :: rest) = skipTrivia (.block opening) rest := by
  rw [skipTrivia]
  intro more hc hrest
  exact hclose hc (congrArg List.head? hrest)

theorem skipTrivia_line (hbody : '\n' ∉ body) :
    skipTrivia .line (body ++ '\n' :: rest) = skipTrivia .outside rest := by
  induction body with
  | nil => rfl
  | cons c body ih =>
    rw [List.mem_cons, not_or] at hbody
    rw [List.cons_append, skipTrivia_line_cons (Ne.symm hbody.1), ih hbody.2]

theorem skipTrivia_lastLine (hbody : '\n' ∉ body) : skipTrivia .line body = .ok [] := by
  induction body with
  | nil => rfl
  | cons c body ih =>
    rw [List.mem_cons, not_or] at hbody
    rw [skipTrivia_line_cons (Ne.symm hbody.1), ih hbody.2]

theorem skipTrivia_block (hbody : ¬ ['*', '/'] <:+: body) :
    skipTrivia (.block opening) (body ++ '*' :: '/' :: rest) = skipTrivia .outside rest := by
  induction body with
  | nil => rfl
  | cons c body ih =>
    have hnone : ¬ ['*', '/'] <:+: body := fun h => hbody (h.trans (List.infix_cons List.infix_rfl))
    have hclose : c = '*' → (body ++ '*' :: '/' :: rest).head? ≠ some '/' := by
      rintro rfl hhead
      cases body with
      | nil => exact absurd (Option.some.inj hhead) (by decide)
      | cons d body =>
        obtain rfl := Option.some.inj hhead
        exact hbody ⟨[], body, rfl⟩
    rw [List.cons_append, skipTrivia_block_cons hclose, ih hnone]

/-- **Blanks and comments are passed**, up to a text that starts with neither. -/
theorem skipTrivia_blanks (h : Blanks gap rest) (hs : Solid rest) :
    skipTrivia .outside (gap ++ rest) = .ok rest := by
  induction h with
  | nil => exact hs
  | blank hc _ ih => rw [List.cons_append, skipTrivia_blank hc, ih hs]
  | @line body gap rest hbody _ ih =>
    have happend : '-' :: '-' :: body ++ '\n' :: gap ++ rest =
        '-' :: '-' :: (body ++ '\n' :: (gap ++ rest)) := by simp
    rw [happend, skipTrivia_minuses, skipTrivia_line hbody, ih hs]
  | @lastLine body hbody =>
    rw [List.append_nil, skipTrivia_minuses, skipTrivia_lastLine hbody]
  | @block body gap rest hbody _ ih =>
    have happend : '/' :: '*' :: body ++ '*' :: '/' :: gap ++ rest =
        '/' :: '*' :: (body ++ '*' :: '/' :: (gap ++ rest)) := by simp
    rw [happend, skipTrivia_opening, skipTrivia_block hbody, ih hs]

/-- Blanks and comments in front of a token do not depend on it. -/
theorem Blanks.before (h : Blanks gap rest) (hrest : rest ≠ []) : Blanks gap more := by
  induction h with
  | nil => exact .nil
  | blank hc _ ih => exact .blank hc (ih hrest)
  | line hbody _ ih => exact .line hbody (ih hrest)
  | lastLine => exact absurd rfl hrest
  | block hbody _ ih => exact .block hbody (ih hrest)

/-! ### Texts that start with a token -/

theorem Solid.nil : Solid [] := rfl

theorem solid_of_not_starts (hc : isBlank c = false) (hline : c = '-' → cs.head? ≠ some '-')
    (hblock : c = '/' → cs.head? ≠ some '*') : Solid (c :: cs) := by
  rw [Solid, skipTrivia, if_neg (Bool.eq_false_iff.mp hc)]
  · intro more hd hcs
    exact hline hd (congrArg List.head? hcs)
  · intro more hd hcs
    exact hblock hd (congrArg List.head? hcs)

/-- What is left behind blanks and comments starts with neither. -/
theorem solid_of_skipTrivia {mode : Trivia} (h : skipTrivia mode cs = .ok rest) : Solid rest := by
  fun_induction skipTrivia mode cs with
  | case1 => cases h
  | case2 =>
    cases h
    exact .nil
  | case6 c tail hc hline hblock =>
    cases h
    refine solid_of_not_starts (Bool.eq_false_iff.mpr hc) (fun hd hhead => ?_) fun hd hhead => ?_
    · obtain ⟨more, rfl⟩ := List.head?_eq_some_iff.mp hhead
      exact hline more hd rfl
    · obtain ⟨more, rfl⟩ := List.head?_eq_some_iff.mp hhead
      exact hblock more hd rfl
  | case3 _ _ _ ih | case4 _ _ ih | case5 _ _ ih | case7 _ ih | case8 _ _ _ ih | case9 _ _ ih
  | case10 _ _ _ _ ih => exact ih h

theorem solid_cons : Solid (c :: cs) ↔ isBlank c = false ∧ (c = '-' → cs.head? ≠ some '-') ∧
    (c = '/' → cs.head? ≠ some '*') := by
  -- What is passed is not left, so that none of the three starts is there.
  have hshort : ∀ {mode : Trivia} {more : List Char}, skipTrivia mode more = .ok (c :: cs) →
      cs.length < more.length := fun h => (skipTrivia_suffix h).length_le
  constructor
  · intro h
    refine ⟨?_, ?_, ?_⟩
    · by_contra hc
      rw [Solid, skipTrivia_blank (Bool.of_not_eq_false hc)] at h
      exact absurd (hshort h) (Nat.lt_irrefl _)
    · rintro rfl hhead
      obtain ⟨more, rfl⟩ := List.head?_eq_some_iff.mp hhead
      rw [Solid, skipTrivia_minuses] at h
      have := hshort h
      simp only [List.length_cons] at this
      omega
    · rintro rfl hhead
      obtain ⟨more, rfl⟩ := List.head?_eq_some_iff.mp hhead
      rw [Solid, skipTrivia_opening] at h
      have := hshort h
      simp only [List.length_cons] at this
      omega
  · rintro ⟨hc, hline, hblock⟩
    exact solid_of_not_starts hc hline hblock

/-- A character that begins neither a comment nor a space is not passed. -/
theorem solid_of_ne (hc : isBlank c = false) (hminus : c ≠ '-') (hslash : c ≠ '/') :
    Solid (c :: cs) :=
  solid_cons.mpr ⟨hc, fun h => absurd h hminus, fun h => absurd h hslash⟩

/-- A text stays solid when its end is cut off. -/
theorem Solid.of_append (more : List Char) (h : Solid (cs ++ more)) : Solid cs := by
  cases cs with
  | nil => exact .nil
  | cons c cs =>
    rw [List.cons_append] at h
    obtain ⟨hc, hline, hblock⟩ := solid_cons.mp h
    refine solid_cons.mpr ⟨hc, fun hd hhead => hline hd ?_, fun hd hhead => hblock hd ?_⟩
    · rw [List.head?_append, hhead, Option.some_or]
    · rw [List.head?_append, hhead, Option.some_or]

end RecordQuery
