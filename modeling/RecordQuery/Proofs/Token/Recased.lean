import RecordQuery.Proofs.Text.LetterCase
import RecordQuery.Proofs.Token.Apart
import RecordQuery.Proofs.Token.Blanks
import RecordQuery.Proofs.Token.Tiles

/-! # Tokens do not depend on the case of letters

A place in a query lies inside of quotes, inside of a comment, or outside of both (`Region`), which
a reader of single characters can tell (`Region.step`). If ASCII letters outside of quotes and
comments change their case (`Recased`), the tokens stay the same. Blanks, comments and every part of
a token are read from both texts alike, and what they leave is recased again.

* `Recased.skipTrivia`: blanks and comments are passed alike.
* `Recased.scanToken`: tokens are read alike (`Scan.Alike`).
* `tokensOf_recased`: so both texts have the same tokens. -/

namespace RecordQuery

/-! ### Regions of a text -/

/-- What a place in a query lies in: nothing, a text in quotes, a comment up to the end of its line,
a comment in marks, or one of the marks. -/
inductive Region where
  | plain
  | quoted (quote : Char)
  | line
  | opener
  | block
  | closer
  deriving DecidableEq

/-- What lies behind a character, given the one that comes next. -/
def Region.step (next : Option Char) (c : Char) : Region → Region
  | plain =>
    if c = '\'' ∨ c = '"' then quoted c
    else if c = '-' ∧ next = some '-' then line
    else if c = '/' ∧ next = some '*' then opener
    else plain
  | quoted quote => if c = quote then plain else quoted quote
  | line => if c = '\n' then plain else line
  | opener => block
  | block => if c = '*' ∧ next = some '/' then closer else block
  | closer => plain

/-- A character may stand for another one: for one that differs in case at most, outside of quotes
and comments, and for no other one inside of them. -/
def Region.Allows (r : Region) (c d : Char) : Prop :=
  c = d ∨ r = .plain ∧ c.toLower = d.toLower

instance (r : Region) (c d : Char) : Decidable (r.Allows c d) := by
  unfold Region.Allows
  infer_instance

/-- **A text with other letter case** outside of quotes and comments. -/
def Recased : Region → List Char → List Char → Prop
  | _, [], [] => True
  | r, c :: cs, d :: ds => r.Allows c d ∧ Recased (r.step cs.head? c) cs ds
  | _, _, _ => False

instance Recased.decidable : ∀ r cs ds, Decidable (Recased r cs ds)
  | _, [], [] => isTrue trivial
  | r, c :: cs, d :: ds =>
    have := Recased.decidable (r.step cs.head? c) cs ds
    inferInstanceAs (Decidable (r.Allows c d ∧ _))
  | _, [], _ :: _ | _, _ :: _, [] => isFalse id

variable {r : Region} {c d x : Char} {cs ds rest : List Char}

theorem Region.Allows.toLower (h : r.Allows c d) : c.toLower = d.toLower := by
  obtain rfl | ⟨-, h⟩ := h
  · rfl
  · exact h

theorem Region.Allows.eq (h : r.Allows c d) (hr : r ≠ .plain) : c = d := by
  obtain h | ⟨hplain, -⟩ := h
  · exact h
  · exact absurd hplain hr

namespace Recased

theorem nil_left (h : Recased r [] ds) : ds = [] := by
  cases ds with
  | nil => rfl
  | cons d ds => exact h.elim

theorem cons_left (h : Recased r (c :: cs) ds) :
    ∃ d ds', ds = d :: ds' ∧ r.Allows c d ∧ Recased (r.step cs.head? c) cs ds' := by
  cases ds with
  | nil => exact h.elim
  | cons d ds => exact ⟨d, ds, rfl, h⟩

/-- A character that is no letter stays. -/
theorem same_left (h : Recased r (c :: cs) ds) (hc : c.isAlpha = false) :
    ∃ ds', ds = c :: ds' ∧ Recased (r.step cs.head? c) cs ds' := by
  obtain ⟨d, ds', rfl, hallows, hrest⟩ := h.cons_left
  obtain rfl := eq_of_toLower hallows.toLower hc
  exact ⟨ds', rfl, hrest⟩

/-- Both texts start with a character that is no letter, or neither does. -/
theorem head?_eq (h : Recased r cs ds) (hx : x.isAlpha = false) :
    cs.head? = some x ↔ ds.head? = some x := by
  cases cs with
  | nil => rw [h.nil_left]
  | cons c cs =>
    obtain ⟨d, ds', rfl, hallows, -⟩ := h.cons_left
    simp only [List.head?_cons, Option.some.injEq]
    exact eq_iff_of_toLower hallows.toLower hx

end Recased

/-! ### Characters that leave no region -/

/-- The characters that begin a text in quotes or a comment. -/
def openers : List Char := ['\'', '"', '-', '/']

theorem Region.step_plain {next : Option Char} (hc : c ∉ openers) :
    Region.plain.step next c = .plain := by
  simp only [openers, List.mem_cons, List.not_mem_nil, or_false, not_or] at hc
  obtain ⟨hsingle, hdouble, hdash, hslash⟩ := hc
  simp only [Region.step, hsingle, hdouble, hdash, hslash, false_and, or_self, if_false]

/-- No comment begins where a text starts that is solid. -/
theorem Region.step_solid (hs : Solid (c :: cs)) (hsingle : c ≠ '\'') (hdouble : c ≠ '"') :
    Region.plain.step cs.head? c = .plain := by
  obtain ⟨-, hline, hblock⟩ := solid_cons.mp hs
  rw [Region.step, if_neg (not_or.mpr ⟨hsingle, hdouble⟩), if_neg fun h => hline h.1 h.2,
    if_neg fun h => hblock h.1 h.2]

theorem Region.step_dash {next : Option Char} (h : next ≠ some '-') :
    Region.plain.step next '-' = .plain := by
  rw [Region.step, if_neg (by decide), if_neg fun hc => h hc.2, if_neg fun hc => nomatch hc.1]

theorem Region.step_line {next : Option Char} (hc : c ≠ '\n') : Region.line.step next c = .line :=
  if_neg hc

theorem Region.step_block {next : Option Char} (h : ¬ (c = '*' ∧ next = some '/')) :
    Region.block.step next c = .block := if_neg h

theorem not_opener_of_blank (h : isBlank c = true) : c ∉ openers := fun hc =>
  (isBlank_spec h).2.2.2 ((by decide : openers ⊆ inner) hc)

theorem not_opener {p : Char → Bool} (hp : openers.any p = false) (h : p c = true) :
    c ∉ openers := fun hc => List.any_eq_false.mp hp c hc h

theorem not_opener_of_word (h : isWordChar c = true) : c ∉ openers := not_opener (by decide) h

theorem not_opener_of_digit (h : c.isDigit = true) : c ∉ openers := not_opener (by decide) h

/-! ### Blanks and comments -/

theorem Recased.solid (h : Recased .plain cs ds) (hs : Solid cs) : Solid ds := by
  cases cs with
  | nil => rwa [h.nil_left]
  | cons c cs =>
    obtain ⟨hblank, hline, hblock⟩ := solid_cons.mp hs
    obtain ⟨d, ds', rfl, hallows, hrest⟩ := h.cons_left
    have hcd := hallows.toLower
    refine solid_cons.mpr ⟨isBlank_congr hcd ▸ hblank, fun hd hhead => ?_, fun hd hhead => ?_⟩
    · exact hline ((eq_iff_of_toLower hcd (by decide)).mpr hd)
        ((hrest.head?_eq (by decide)).mpr hhead)
    · exact hblock ((eq_iff_of_toLower hcd (by decide)).mpr hd)
        ((hrest.head?_eq (by decide)).mpr hhead)

/-- The region that a reader of blanks and comments is in. -/
def Trivia.region : Trivia → Region
  | outside => .plain
  | line => .line
  | block _ => .block

/-- **Blanks and comments are passed alike.** -/
theorem Recased.skipTrivia {mode : Trivia} (mode' : Trivia) (h : Recased mode.region cs ds)
    (hmode : mode'.region = mode.region) (hskip : skipTrivia mode cs = .ok rest) :
    ∃ rest', RecordQuery.skipTrivia mode' ds = .ok rest' ∧ Recased .plain rest rest' := by
  have hsolid : Solid rest := solid_of_skipTrivia hskip
  fun_induction RecordQuery.skipTrivia mode cs generalizing ds mode' with
  | case1 => cases hskip
  | case2 mode hblock =>
    cases hskip
    obtain rfl := h.nil_left
    refine ⟨[], ?_, trivial⟩
    cases mode' with
    | outside => rfl
    | line => rfl
    | block opening =>
      cases mode with
      | outside => cases hmode
      | line => cases hmode
      | block opening => exact absurd rfl (hblock opening)
  | case3 c tail hc ih =>
    obtain ⟨d, ds', rfl, hallows, hrest⟩ := h.cons_left
    cases mode' <;> cases hmode
    rw [Trivia.region, Region.step_plain (not_opener_of_blank hc)] at hrest
    obtain ⟨rest', hrest', hrecased⟩ := ih .outside hrest rfl hskip
    have hd : isBlank d = true := isBlank_congr hallows.toLower ▸ hc
    exact ⟨rest', (skipTrivia_blank hd).trans hrest', hrecased⟩
  | case4 more _ ih =>
    obtain ⟨ds, rfl, hmore⟩ := h.same_left (by decide)
    obtain ⟨ds, rfl, hrest⟩ := hmore.same_left (by decide)
    cases mode' <;> cases hmode
    exact ih .line hrest rfl hskip
  | case5 more _ ih =>
    obtain ⟨ds, rfl, hmore⟩ := h.same_left (by decide)
    obtain ⟨ds, rfl, hrest⟩ := hmore.same_left (by decide)
    cases mode' <;> cases hmode
    exact ih (.block ('/' :: '*' :: ds)) hrest rfl hskip
  | case6 =>
    cases hskip
    cases mode' <;> cases hmode
    exact ⟨ds, h.solid hsolid, h⟩
  | case7 tail ih =>
    obtain ⟨ds, rfl, hrest⟩ := h.same_left (by decide)
    cases mode' <;> cases hmode
    exact ih .outside hrest rfl hskip
  | case8 c tail hc ih =>
    obtain ⟨d, ds, rfl, hallows, hrest⟩ := h.cons_left
    obtain rfl := hallows.eq (by rintro ⟨⟩)
    cases mode' <;> cases hmode
    rw [Trivia.region, Region.step_line hc] at hrest
    obtain ⟨rest', hrest', hrecased⟩ := ih .line hrest rfl hskip
    exact ⟨rest', (skipTrivia_line_cons hc).trans hrest', hrecased⟩
  | case9 opening more ih =>
    obtain ⟨ds, rfl, hmore⟩ := h.same_left (by decide)
    obtain ⟨ds, rfl, hrest⟩ := hmore.same_left (by decide)
    cases mode' <;> cases hmode
    exact ih .outside hrest rfl hskip
  | case10 opening c tail hclose ih =>
    obtain ⟨d, ds, rfl, hallows, hrest⟩ := h.cons_left
    obtain rfl := hallows.eq (by rintro ⟨⟩)
    have hopen : ¬ (c = '*' ∧ tail.head? = some '/') := by
      rintro ⟨hc, hhead⟩
      obtain ⟨more, rfl⟩ := List.head?_eq_some_iff.mp hhead
      exact hclose more hc rfl
    cases mode' with
    | outside => cases hmode
    | line => cases hmode
    | block opening' =>
      rw [Trivia.region, Region.step_block hopen] at hrest
      have hclose' : c = '*' → ds.head? ≠ some '/' := fun hc hhead =>
        hopen ⟨hc, (hrest.head?_eq (by decide)).mpr hhead⟩
      obtain ⟨rest', hrest', hrecased⟩ := ih (.block opening') hrest rfl hskip
      exact ⟨rest', (skipTrivia_block_cons hclose').trans hrest', hrecased⟩

/-! ### Parts of tokens -/

namespace Recased

/-- **A text in quotes** is read alike. -/
theorem readEnclosed {quote : Char} {content : List Char} (hquote : quote = '\'' ∨ quote = '"')
    (h : Recased (.quoted quote) cs ds) (hread : readEnclosed quote cs = some (content, rest)) :
    ∃ rest', RecordQuery.readEnclosed quote ds = some (content, rest') ∧
      Recased .plain rest rest' := by
  have halpha : quote.isAlpha = false := by
    obtain rfl | rfl := hquote <;> decide
  have hopen : ∀ next, Region.plain.step next quote = .quoted quote := fun _ => if_pos hquote
  have hclose : ∀ next, (Region.quoted quote).step next quote = .plain := fun _ => if_pos rfl
  fun_induction RecordQuery.readEnclosed quote cs generalizing ds content with
  | case1 => cases hread
  | case2 =>
    obtain ⟨rfl, rfl⟩ := Prod.mk.inj (Option.some.inj hread)
    obtain ⟨ds, rfl, hrest⟩ := h.same_left halpha
    rw [hrest.nil_left]
    exact ⟨[], readEnclosed_close (by simp), trivial⟩
  | case3 more ih =>
    obtain ⟨⟨inside, left⟩, hinside, heq⟩ := Option.map_eq_some_iff.mp hread
    obtain ⟨rfl, rfl⟩ := Prod.mk.inj heq
    obtain ⟨ds, rfl, hmore⟩ := h.same_left halpha
    rw [hclose] at hmore
    obtain ⟨ds, rfl, hrest⟩ := hmore.same_left halpha
    rw [hopen] at hrest
    obtain ⟨rest', hrest', hrecased⟩ := ih hrest hinside
    exact ⟨rest', by rw [readEnclosed_doubled, hrest', Option.map_some], hrecased⟩
  | case4 e more hd =>
    obtain ⟨rfl, rfl⟩ := Prod.mk.inj (Option.some.inj hread)
    obtain ⟨ds, rfl, hrest⟩ := h.same_left halpha
    rw [hclose] at hrest
    refine ⟨ds, readEnclosed_close fun hhead => hd ?_, hrest⟩
    exact Option.some.inj ((hrest.head?_eq halpha).mpr hhead)
  | case5 e more hd ih =>
    obtain ⟨⟨inside, left⟩, hinside, heq⟩ := Option.map_eq_some_iff.mp hread
    obtain ⟨rfl, rfl⟩ := Prod.mk.inj heq
    obtain ⟨d, ds, rfl, hallows, hrest⟩ := h.cons_left
    obtain rfl := hallows.eq (by rintro ⟨⟩)
    rw [show (Region.quoted quote).step more.head? e = .quoted quote from if_neg hd] at hrest
    obtain ⟨rest', hrest', hrecased⟩ := ih hrest hinside
    exact ⟨rest', by rw [readEnclosed_other hd, hrest', Option.map_some], hrecased⟩

/-- A run of characters of a kind that does not depend on case and opens no region. -/
theorem span {p : Char → Bool} (hp : ∀ c d, c.toLower = d.toLower → p c = p d)
    (hopen : ∀ c, p c = true → c ∉ openers) (h : Recased .plain cs ds) :
    (cs.takeWhile p).map Char.toLower = (ds.takeWhile p).map Char.toLower ∧
      Recased .plain (cs.dropWhile p) (ds.dropWhile p) := by
  induction cs generalizing ds with
  | nil =>
    rw [h.nil_left]
    exact ⟨rfl, trivial⟩
  | cons c cs ih =>
    obtain ⟨d, ds, rfl, hallows, hrest⟩ := h.cons_left
    have hcd := hp c d hallows.toLower
    by_cases hc : p c = true
    · have hd : p d = true := hcd ▸ hc
      rw [Region.step_plain (hopen c hc)] at hrest
      obtain ⟨htake, hdrop⟩ := ih hrest
      simp only [List.takeWhile_cons_of_pos hc, List.takeWhile_cons_of_pos hd,
        List.dropWhile_cons_of_pos hc, List.dropWhile_cons_of_pos hd, List.map_cons, htake,
        hallows.toLower, true_and]
      exact hdrop
    · have hd : ¬ p d = true := hcd ▸ hc
      simp only [List.takeWhile_cons_of_neg hc, List.takeWhile_cons_of_neg hd,
        List.dropWhile_cons_of_neg hc, List.dropWhile_cons_of_neg hd]
      exact ⟨trivial, h⟩

theorem splitDigits (h : Recased .plain cs ds) :
    (splitDigits cs).1 = (splitDigits ds).1 ∧
      Recased .plain (splitDigits cs).2 (splitDigits ds).2 := by
  obtain ⟨htake, hdrop⟩ := h.span (p := Char.isDigit) (fun _ _ => isDigit_congr)
    fun _ => not_opener_of_digit
  refine ⟨?_, hdrop⟩
  have hsmall : ∀ cs : List Char, (cs.takeWhile Char.isDigit).map Char.toLower =
      cs.takeWhile Char.isDigit := fun cs => by
    rw [List.map_congr_left (f := Char.toLower) (g := id) fun c hc =>
      toLower_of_not_alpha (not_alpha_of_digit (List.all_eq_true.mp List.all_takeWhile c hc)), List.map_id]
  rwa [hsmall, hsmall] at htake

theorem splitFraction (h : Recased .plain cs ds) :
    (splitFraction cs).1 = (splitFraction ds).1 ∧
      Recased .plain (splitFraction cs).2 (splitFraction ds).2 := by
  cases cs with
  | nil =>
    rw [h.nil_left]
    exact ⟨rfl, trivial⟩
  | cons c cs =>
    obtain ⟨d, ds, rfl, hallows, hrest⟩ := h.cons_left
    have hpoint := eq_iff_of_toLower hallows.toLower (x := '.') (by decide)
    by_cases hc : c = '.'
    · obtain rfl := hpoint.mp hc
      subst hc
      rw [Region.step_plain (by decide)] at hrest
      obtain ⟨hdigits, hleft⟩ := hrest.splitDigits
      rw [splitFraction_point, splitFraction_point, ← hdigits]
      split
      · exact ⟨rfl, h⟩
      · exact ⟨hdigits, hleft⟩
    · rw [splitFraction_other hc, splitFraction_other (mt hpoint.mpr hc)]
      exact ⟨rfl, h⟩

/-- A sign and the digits behind it are read alike; a sign without digits may begin a comment. -/
theorem splitSign (h : Recased .plain cs ds) : (splitSign cs).1 = (splitSign ds).1 ∧
    (RecordQuery.splitDigits (splitSign cs).2).1 = (RecordQuery.splitDigits (splitSign ds).2).1 ∧
      ((RecordQuery.splitDigits (splitSign cs).2).1.isEmpty = false →
        Recased .plain (RecordQuery.splitDigits (splitSign cs).2).2
          (RecordQuery.splitDigits (splitSign ds).2).2) := by
  cases cs with
  | nil =>
    rw [h.nil_left]
    exact ⟨rfl, rfl, fun _ => trivial⟩
  | cons c cs =>
    obtain ⟨d, ds, rfl, hallows, hrest⟩ := h.cons_left
    have hplus := eq_iff_of_toLower hallows.toLower (x := '+') (by decide)
    have hminus := eq_iff_of_toLower hallows.toLower (x := '-') (by decide)
    by_cases hc : c = '+'
    · obtain rfl := hplus.mp hc
      subst hc
      rw [Region.step_plain (by decide)] at hrest
      obtain ⟨hdigits, hleft⟩ := hrest.splitDigits
      exact ⟨rfl, hdigits, fun _ => hleft⟩
    by_cases hc' : c = '-'
    · obtain rfl := hminus.mp hc'
      subst hc'
      by_cases hhead : cs.head? = some '-'
      · obtain ⟨cs, rfl⟩ := List.head?_eq_some_iff.mp hhead
        obtain ⟨ds, rfl, -⟩ := hrest.same_left (by decide)
        exact ⟨rfl, rfl, nofun⟩
      · rw [Region.step_dash hhead] at hrest
        obtain ⟨hdigits, hleft⟩ := hrest.splitDigits
        exact ⟨rfl, hdigits, fun _ => hleft⟩
    · rw [splitSign_other hc hc', splitSign_other (mt hplus.mpr hc) (mt hminus.mpr hc')]
      obtain ⟨hdigits, hleft⟩ := h.splitDigits
      exact ⟨rfl, hdigits, fun _ => hleft⟩

theorem splitExponent (h : Recased .plain cs ds) :
    (splitExponent cs).1 = (splitExponent ds).1 ∧
      Recased .plain (splitExponent cs).2 (splitExponent ds).2 := by
  cases cs with
  | nil =>
    rw [h.nil_left]
    exact ⟨rfl, trivial⟩
  | cons c cs =>
    obtain ⟨d, ds, rfl, hallows, hrest⟩ := h.cons_left
    have hletter : (c = 'e' ∨ c = 'E') = (d = 'e' ∨ d = 'E') :=
      congr_toLower (p := fun c => c = 'e' ∨ c = 'E') (by decide) hallows.toLower
    by_cases hc : c = 'e' ∨ c = 'E'
    · have hopen : c ∉ openers := by obtain rfl | rfl := hc <;> decide
      rw [Region.step_plain hopen] at hrest
      obtain ⟨hsign, hdigits, hleft⟩ := hrest.splitSign
      rw [splitExponent_letter hc, splitExponent_letter (hletter ▸ hc), ← hdigits, ← hsign]
      split
      · exact ⟨rfl, h⟩
      · next hsome => exact ⟨rfl, hleft (Bool.eq_false_iff.mpr hsome)⟩
    · rw [splitExponent_other hc, splitExponent_other (hletter ▸ hc)]
      exact ⟨rfl, h⟩

/-- **A number** is read alike. -/
theorem splitNumber (h : Recased .plain cs ds) :
    (splitNumber cs).1 = (splitNumber ds).1 ∧
      Recased .plain (splitNumber cs).2 (splitNumber ds).2 := by
  obtain ⟨hdigits, hwhole⟩ := h.splitDigits
  obtain ⟨hfraction, hpart⟩ := hwhole.splitFraction
  obtain ⟨hexponent, hleft⟩ := hpart.splitExponent
  simp only [splitNumber_eq, hdigits, hfraction, hexponent]
  exact ⟨trivial, hleft⟩

end Recased

/-! ### Tokens -/

namespace Scan

/-- **Two scans are alike**: where the first one finds a token, the second one finds the same, and
what they leave is recased. -/
def Alike (a b : Scan) : Prop :=
  ∀ t rest, a = found t rest → ∃ rest', b = found t rest' ∧ Recased .plain rest rest'

variable {a b a' b' : Scan} {t : Token}

theorem alike_found (h : Recased .plain cs ds) : Alike (found t cs) (found t ds) := by
  intro u rest hfound
  obtain ⟨rfl, rfl⟩ := found_inj hfound
  exact ⟨ds, rfl, h⟩

theorem alike_fail {fault : LexFault} : Alike (fail fault cs) b :=
  fun _ _ h => absurd h fail_ne_found

theorem alike_ite {p q : Prop} [Decidable p] [Decidable q] (hpq : p ↔ q) (ha : p → Alike a a')
    (hb : ¬ p → Alike b b') : Alike (if p then a else b) (if q then a' else b') := by
  by_cases hp : p
  · rw [if_pos hp, if_pos (hpq.mp hp)]
    exact ha hp
  · rw [if_neg hp, if_neg (mt hpq.mpr hp)]
    exact hb hp

theorem alike_enclosed {what : Enclosed} {quote : Char} {skipped : Nat}
    {use : String → List Char → Scan} (huse : Keeps use) (hquote : quote = '\'' ∨ quote = '"')
    (h : Recased (.quoted quote) cs ds) :
    Alike (enclosed what quote skipped cs use) (enclosed what quote skipped ds use) := by
  intro t rest hfound
  obtain ⟨content, hread, hmore⟩ := enclosed_found huse hfound
  obtain ⟨rest', hread', hrest'⟩ := h.readEnclosed hquote hread
  refine ⟨rest', ?_, hrest'⟩
  simp only [enclosed, hread', hmore]

theorem alike_numberedParameter (h : Recased .plain cs ds) :
    Alike (numberedParameter cs) (numberedParameter ds) := by
  obtain ⟨hdigits, hrest⟩ := h.splitDigits
  unfold numberedParameter
  dsimp only
  rw [← hdigits]
  exact alike_ite Iff.rfl (fun _ => alike_found hrest) fun _ =>
    alike_ite Iff.rfl (fun _ => alike_found hrest) fun _ => alike_fail

/-- The characters of a word are read alike, but for their case. -/
theorem word_recased (h : Recased .plain cs ds) :
    (cs.takeWhile isWordChar).map Char.toLower = (ds.takeWhile isWordChar).map Char.toLower ∧
      Recased .plain (cs.dropWhile isWordChar) (ds.dropWhile isWordChar) :=
  h.span (fun _ _ => isWordChar_congr) fun _ => not_opener_of_word

theorem alike_word (h : Recased .plain cs ds) : Alike (word cs) (word ds) := by
  obtain ⟨hletters, hrest⟩ := word_recased h
  unfold word
  dsimp only
  rw [Keyword.ofWord?_congr hletters, lowerCase_congr hletters]
  exact alike_found hrest

theorem alike_namedParameter {sigil : Char} (h : Recased .plain cs ds) :
    Alike (namedParameter sigil cs) (namedParameter sigil ds) := by
  cases cs with
  | nil => exact alike_fail
  | cons c cs =>
    obtain ⟨d, ds, rfl, hallows, hrest⟩ := h.cons_left
    rw [namedParameter_cons, namedParameter_cons]
    refine alike_ite (eq_iff_of_toLower hallows.toLower (by decide)) (fun hc => ?_) fun _ =>
      alike_ite (by rw [isWordStart_congr hallows.toLower]) (fun _ => ?_) fun _ => alike_fail
    · subst hc
      exact alike_enclosed (keeps_found _) (.inr rfl) hrest
    · obtain ⟨hletters, hleft⟩ := word_recased h
      rw [lowerCase_congr hletters]
      exact alike_found hleft

theorem alike_number (h : Recased .plain cs ds) : Alike (number cs) (number ds) := by
  obtain ⟨hliteral, hrest⟩ := h.splitNumber
  unfold number
  dsimp only
  rw [← hliteral]
  split
  · exact alike_found hrest
  · exact alike_fail

/-- A blob is read alike behind its letter. -/
theorem alike_blob (h : Recased .plain cs ds) (hquote : cs.head? = some '\'') :
    Alike (blob (cs.drop 1)) (blob (ds.drop 1)) := by
  obtain ⟨cs, rfl⟩ := List.head?_eq_some_iff.mp hquote
  obtain ⟨ds, rfl, hrest⟩ := h.same_left (by decide)
  exact alike_enclosed keeps_blob (.inl rfl) hrest

/-- A token that is no symbol is read alike. -/
theorem alike_plain (h : Recased .plain (c :: cs) (d :: ds)) (hs : Solid (c :: cs)) :
    Alike (plain c cs) (plain d ds) := by
  obtain ⟨hallows, hrest⟩ := h
  have hcd := hallows.toLower
  have hsame {x : Char} (hx : x.isAlpha = false) : c = x ↔ d = x := eq_iff_of_toLower hcd hx
  have hblob : (c = 'x' ∨ c = 'X') = (d = 'x' ∨ d = 'X') :=
    congr_toLower (p := fun c => c = 'x' ∨ c = 'X') (by decide) hcd
  refine alike_ite (hsame (by decide)) (fun _ => alike_fail) fun _ =>
    alike_ite (hsame (by decide)) (fun hc => ?_) fun hsingle =>
    alike_ite (hsame (by decide)) (fun hc => ?_) fun hdouble => ?_
  · obtain rfl := (hsame (by decide)).mp hc
    subst hc
    exact alike_enclosed (keeps_found _) (.inl rfl) hrest
  · obtain rfl := (hsame (by decide)).mp hc
    subst hc
    exact alike_enclosed (keeps_found _) (.inr rfl) hrest
  rw [Region.step_solid hs hsingle hdouble] at hrest
  refine alike_ite (by rw [hblob, hrest.head?_eq (by decide)]) (fun hc => alike_blob hrest hc.2)
    fun _ => alike_ite (hsame (by decide)) (fun _ => alike_numberedParameter hrest) fun _ =>
    alike_ite ?_ (fun hc => ?_) fun _ =>
    alike_ite ?_ (fun _ => alike_number ⟨hallows, ?_⟩) fun _ =>
    alike_ite (by rw [isWordStart_congr hcd]) (fun _ => alike_word ⟨hallows, ?_⟩) fun _ => alike_fail
  · rw [hsame (by decide), hsame (by decide), hsame (by decide)]
  · obtain rfl : c = d := eq_of_toLower hcd (by obtain rfl | rfl | rfl := hc <;> decide)
    exact alike_namedParameter hrest
  · rw [isDigit_congr hcd, hsame (by decide)]
  · rwa [Region.step_solid hs hsingle hdouble]
  · rwa [Region.step_solid hs hsingle hdouble]

end Scan

/-- What a symbol is does not depend on a letter behind it. -/
theorem symbolAt?_letter (hd : d.isAlpha = true) : symbolAt? c (some d) = symbolAt? c none := by
  have hdigit : d.isDigit = false := by
    by_contra h
    rw [not_alpha_of_digit (Bool.of_not_eq_false h)] at hd
    cases hd
  have hne : ∀ x : Char, x.isAlpha = false → d ≠ x := by
    rintro x hx rfl
    rw [hx] at hd
    cases hd
  have := hne '|' (by decide)
  have := hne '<' (by decide)
  have := hne '=' (by decide)
  have := hne '>' (by decide)
  fun_cases symbolAt? c (some d) <;> simp_all [symbolAt?]

/-- A letter is no symbol. -/
theorem symbolAt?_of_letter {next : Option Char} (hc : c.isAlpha = true) :
    symbolAt? c next = none := by
  fun_cases symbolAt? c next <;> first | rfl | exact absurd hc (by decide)

theorem symbolAt?_recased (h : Recased .plain (c :: cs) (d :: ds)) :
    symbolAt? d ds.head? = symbolAt? c cs.head? := by
  obtain ⟨hallows, hrest⟩ := h
  cases hc : c.isAlpha with
  | true =>
    rw [symbolAt?_of_letter hc, symbolAt?_of_letter (isAlpha_congr hallows.toLower ▸ hc)]
  | false =>
    obtain rfl := eq_of_toLower hallows.toLower hc
    cases cs with
    | nil => rw [hrest.nil_left]
    | cons e cs =>
      obtain ⟨f, ds, rfl, hnext, -⟩ := hrest.cons_left
      cases he : e.isAlpha with
      | true =>
        have hf : f.isAlpha = true := isAlpha_congr hnext.toLower ▸ he
        exact (symbolAt?_letter hf).trans (symbolAt?_letter he).symm
      | false => rw [eq_of_toLower hnext.toLower he]; rfl

/-- The second character of a symbol is none that opens a region. -/
theorem symbolAt?_second {next : Option Char} {s : Symbol} (h : symbolAt? c next = some (s, true)) :
    ∃ x ∈ ['|', '<', '=', '>'], next = some x := by
  fun_cases symbolAt? c next <;> simp_all [symbolAt?]

/-- **Tokens are read alike.** -/
theorem Recased.scanToken (h : Recased .plain cs ds) (hs : Solid cs) :
    (scanToken cs).Alike (scanToken ds) := by
  cases cs with
  | nil =>
    rw [h.nil_left]
    have hempty : Recased .plain [] [] := trivial
    exact Scan.alike_found hempty
  | cons c cs =>
    obtain ⟨d, ds, rfl, hallows, hrest⟩ := h.cons_left
    rw [Scan.scanToken_cons, Scan.scanToken_cons, symbolAt?_recased h]
    split
    · next s both hsymbol =>
      have hplain : Region.plain.step cs.head? c = .plain := by
        refine Region.step_solid hs ?_ ?_ <;> rintro rfl <;> cases hsymbol
      rw [hplain] at hrest
      cases both with
      | false => exact Scan.alike_found hrest
      | true =>
        obtain ⟨x, hx, hhead⟩ := symbolAt?_second hsymbol
        obtain ⟨cs, rfl⟩ := List.head?_eq_some_iff.mp hhead
        have hseconds : ['|', '<', '=', '>'].all (fun x =>
            decide (x.isAlpha = false ∧ x ∉ openers)) = true := by decide
        obtain ⟨halpha, hopen⟩ := of_decide_eq_true (List.all_eq_true.mp hseconds x hx)
        obtain ⟨ds, rfl, hmore⟩ := hrest.same_left halpha
        rw [Region.step_plain hopen] at hmore
        exact Scan.alike_found hmore
    · exact Scan.alike_plain h hs

/-! ### The tokens of a text -/

namespace Source

variable {s s' u : Source} {l l' : Lexeme} {ts ts' done done' : List Lexeme}

theorem next_recased (h : s.next = (.ok l, s')) (hs : Recased .plain s.rest u.rest) :
    ∃ m u', u.next = (.ok m, u') ∧ m.token = l.token ∧ Recased .plain s'.rest u'.rest := by
  obtain ⟨cs, hparts⟩ := parts_of_next h
  have houtside : Recased Trivia.outside.region s.rest u.rest := hs
  obtain ⟨ds, hskip', hcs⟩ := houtside.skipTrivia .outside rfl hparts.skip
  obtain ⟨rest, hscan', hrest⟩ :=
    hcs.scanToken (solid_of_skipTrivia hparts.skip) _ _ hparts.scan
  obtain ⟨m, u', hm, htoken, hleft⟩ := next_of_scan u ds hskip' hscan'
  exact ⟨m, u', hm, htoken, hleft ▸ hrest⟩

theorem Scans.recased (h : Scans s ts) (hs : Recased .plain s.rest u.rest) :
    ∃ ts', Scans u ts' ∧ ts'.map Lexeme.token = ts.map Lexeme.token := by
  induction h generalizing u with
  | last h hl =>
    obtain ⟨m, u', hm, htoken, -⟩ := next_recased h hs
    exact ⟨[m], .last hm (htoken.trans hl), congrArg (fun t => [t]) htoken⟩
  | more h hl _ ih =>
    obtain ⟨m, u', hm, htoken, hrest⟩ := next_recased h hs
    obtain ⟨ts', hscans, htokens⟩ := ih hrest
    exact ⟨m :: ts', .more hm (htoken ▸ hl) hscans, by rw [List.map_cons, htoken, htokens]; rfl⟩

/-- Whether tokens become one depends on the tokens only. -/
theorem token_fuse? {a b a' b' : Lexeme} (ha : a.token = a'.token) (hb : b.token = b'.token) :
    (fuse? a b).map Lexeme.token = (fuse? a' b').map Lexeme.token := by
  unfold fuse?
  rw [ha, hb]
  split
  · simp only [Option.map_map, Function.comp_def]
  · rfl

theorem tokens_push (hdone : done.map Lexeme.token = done'.map Lexeme.token)
    (hl : l.token = l'.token) :
    (push done l).map Lexeme.token = (push done' l').map Lexeme.token := by
  cases done with
  | nil =>
    obtain rfl := List.map_eq_nil_iff.mp hdone.symm
    exact congrArg (fun t => [t]) hl
  | cons last before =>
    obtain ⟨last', before', rfl, hlast, hbefore⟩ := List.map_eq_cons_iff.mp hdone.symm
    have hfuse := token_fuse? hlast.symm hl
    cases hf : fuse? last l with
    | none =>
      rw [hf] at hfuse
      have hnone := Option.map_eq_none_iff.mp hfuse.symm
      simp only [push, hf, hnone, List.map_cons, hl, hlast, hbefore]
    | some both =>
      rw [hf] at hfuse
      obtain ⟨both', hboth, htoken⟩ := Option.map_eq_some_iff.mp hfuse.symm
      simp only [push, hf, hboth, List.map_cons, htoken, hbefore]

theorem tokens_foldl_push (hts : ts.map Lexeme.token = ts'.map Lexeme.token)
    (hdone : done.map Lexeme.token = done'.map Lexeme.token) :
    (ts.foldl push done).map Lexeme.token = (ts'.foldl push done').map Lexeme.token := by
  induction ts generalizing ts' done done' with
  | nil =>
    obtain rfl := List.map_eq_nil_iff.mp hts.symm
    exact hdone
  | cons t ts ih =>
    obtain ⟨t', ts', rfl, ht, hrest⟩ := List.map_eq_cons_iff.mp hts.symm
    rw [List.foldl_cons, List.foldl_cons]
    exact ih hrest.symm (tokens_push hdone ht.symm)

end Source

theorem tokensOf_ok {ts : List Token} (h : tokensOf cs = .ok ts) :
    ∃ ls, tokenize (String.ofList cs) = .ok ls ∧ ls.map Lexeme.token = ts := by
  unfold tokensOf at h
  cases htokens : tokenize (String.ofList cs) with
  | error e =>
    rw [htokens] at h
    cases h
  | ok ls =>
    rw [htokens] at h
    exact ⟨ls, rfl, Except.ok.inj h⟩

/-- **The tokens of a text** do not depend on the case of ASCII letters outside of quotes and
comments. -/
theorem tokensOf_recased {ts : List Token} (h : Recased .plain cs ds) (hts : tokensOf cs = .ok ts) :
    tokensOf ds = .ok ts := by
  obtain ⟨ls, hls, rfl⟩ := tokensOf_ok hts
  obtain ⟨ts, hscans, rfl⟩ := Source.scans_of_tokenize hls
  have hrest : Recased .plain (Source.ofString (String.ofList cs)).rest ds := by
    rwa [Source.ofString, String.toList_ofList]
  obtain ⟨ts', hscans', htokens⟩ := hscans.recased (u := ⟨.start, ds⟩) hrest
  rw [Source.tokensOf_of_scans hscans', List.map_reverse, List.map_reverse,
    Source.tokens_foldl_push htokens rfl]

end RecordQuery
