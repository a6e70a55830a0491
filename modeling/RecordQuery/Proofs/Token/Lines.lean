import RecordQuery.Proofs.Token.Faithful

/-! # Lines and tokens

The text of a token has no more newlines than the characters that the token is read from
(`Lexed.newlines`), so all tokens of a text together have no more newlines than the text
(`Scans.newlines`), and fewer if a newline ends a comment in it. What is counted of tokens is not
changed by fusing them, if it agrees with the words of a fused token (`sum_fuse`). -/

namespace RecordQuery

variable {cs body mid rest : List Char} {t : Token}

/-- How many newlines the text of a token has. -/
def Token.newlines (t : Token) : Nat := t.text.toList.count '\n'

/-! ### One token -/

theorem count_flatMap {quote : Char} (hquote : quote ≠ '\n') (cs : List Char) :
    (cs.flatMap fun c => if c = quote then [c, c] else [c]).count '\n' = cs.count '\n' := by
  induction cs with
  | nil => rfl
  | cons c cs ih =>
    rw [List.flatMap_cons, List.count_append, ih, List.count_cons]
    split_ifs with hc hn hn
    · rw [eq_of_beq hn] at hc
      exact absurd hc.symm hquote
    · simp [List.count_cons, hn]
    · simp [List.count_cons, hn]
      omega
    · simp [List.count_cons, hn]

/-- A text between quotes has the newlines of its content. -/
theorem count_readEnclosed {quote : Char} (hquote : quote ≠ '\n')
    (h : readEnclosed quote body = some (cs, rest)) :
    body.count '\n' = cs.count '\n' + rest.count '\n' := by
  rw [eq_of_readEnclosed h, List.count_append, count_flatMap hquote, List.count_cons]
  simp [hquote]

theorem newlines_symbol (s : Symbol) : (Token.symbol s).newlines = 0 := by
  cases s <;> decide

theorem newlines_keyword (k : Keyword) : (Token.keyword k).newlines = 0 := by
  cases k <;> decide

theorem newlines_negated (n : Negatable) : (Token.negated n).newlines = 0 := by
  cases n <;> decide

theorem newlines_number (n : Number) : (Token.number n).newlines = 0 :=
  List.count_eq_zero.mpr fun hmem => absurd (n.text_numeral _ hmem) (by decide)

theorem newlines_numbered (n : UInt32) : (Token.parameter (.numbered n)).newlines = 0 := by
  rw [Token.newlines, Token.text, Parameter.toList_text]
  refine List.count_eq_zero.mpr fun hmem => ?_
  rcases List.mem_cons.mp hmem with h | h
  · exact absurd h (show '\n' ≠ '?' by decide)
  · exact absurd (allDigits_toDigits _ _ h) (by decide)

theorem not_newline_of_isPlainName {name : String} (h : IsPlainName name) :
    '\n' ∉ name.toList :=
  fun hmem => absurd (h.chars _ hmem) (by decide)

/-- The mark of a parameter is no newline. -/
theorem newlines_named {sigil : Char} {name : String}
    (h : (Token.parameter (.named sigil name)).Written) :
    (Token.parameter (.named sigil name)).newlines = name.toList.count '\n' := by
  have hsigil : sigil ≠ '\n' := by rcases h with rfl | rfl | rfl <;> decide
  rw [Token.newlines, Token.text, Parameter.toList_text]
  exact List.count_cons_of_ne hsigil

/-- **The text of a token** has no more newlines than the characters that the token is read from. -/
theorem Lexed.newlines (h : Lexed body t mid) (hwritten : t.Written) :
    t.newlines + mid.count '\n' ≤ body.count '\n' := by
  have hmid := h.rest_suffix.sublist.count_le '\n'
  cases h with
  | endOfInput => decide
  | symbol h =>
    rw [newlines_symbol, Nat.zero_add]
    exact hmid
  | string h | quotedIdentifier h =>
    rw [List.count_cons, count_readEnclosed (by decide) h, Token.newlines, Token.text,
      toList_enclose, List.count_cons, List.count_append, count_flatMap (by decide)]
    simp
  | blob hx h =>
    rw [List.count_cons, List.count_cons, count_readEnclosed (by decide) h, Token.newlines,
      toList_blob]
    simp
  | next =>
    rw [show (Token.parameter .next).newlines = 0 from rfl, Nat.zero_add]
    exact hmid
  | numbered =>
    rw [newlines_numbered, Nat.zero_add]
    exact hmid
  | quotedName h =>
    rw [newlines_named hwritten, String.toList_ofList, List.count_cons, List.count_cons,
      count_readEnclosed (by decide) h]
    omega
  | @name _ c body hc =>
    have hletters : ∀ d ∈ (c :: body).takeWhile isWordChar, isWordChar d = true :=
      List.all_eq_true.mp List.all_takeWhile
    rw [List.takeWhile_cons_of_pos (isWordChar_of_start hc)] at hletters hwritten ⊢
    rw [newlines_named hwritten, List.count_eq_zero.mpr
      (not_newline_of_isPlainName (isPlainName_lowerCase hc hletters)), Nat.zero_add]
    exact hmid
  | number =>
    rw [newlines_number, Nat.zero_add]
    exact hmid
  | keyword hc h =>
    rw [newlines_keyword, Nat.zero_add]
    exact hmid
  | identifier hc h =>
    rw [Token.newlines, Token.text,
      List.count_eq_zero.mpr (not_newline_of_isPlainName hwritten), Nat.zero_add]
    exact hmid

/-! ### All tokens of a text -/

namespace Source

variable {s s' : Source} {l : Lexeme} {ts us ws : List Lexeme}

/-- Newlines that a token and the blanks in front of it take. -/
theorem newlines_of_next (h : s.next = (.ok l, s')) :
    ∃ cs, skipTrivia .outside s.rest = .ok cs ∧
      l.token.newlines + s'.rest.count '\n' ≤ cs.count '\n' := by
  obtain ⟨cs, hparts⟩ := parts_of_next h
  exact ⟨cs, hparts.skip, (lexed_of_found hparts.scan).newlines (written_of_next h)⟩

theorem Scans.newlines (h : Scans s ts) :
    (ts.map fun l => l.token.newlines).sum ≤ s.rest.count '\n' := by
  induction h with
  | last h hl =>
    rw [List.map_singleton, hl]
    exact Nat.zero_le _
  | more h _ _ ih =>
    obtain ⟨cs, hskip, hle⟩ := newlines_of_next h
    have := (skipTrivia_suffix hskip).sublist.count_le '\n'
    rw [List.map_cons, List.sum_cons]
    omega

/-- **What is counted of tokens** is not changed by fusing them, if each fused token counts as much
as its two words. -/
theorem sum_push {g : Token → Nat}
    (hg : ∀ n : Negatable, g (.keyword .NOT) + g (.keyword n.keyword) = g (.negated n))
    (done : List Lexeme) (l : Lexeme) :
    ((push done l).map fun l => g l.token).sum = g l.token + (done.map fun l => g l.token).sum := by
  cases done with
  | nil => rfl
  | cons last before =>
    cases hfuse : fuse? last l with
    | none => simp only [push, hfuse, List.map_cons, List.sum_cons]
    | some both =>
      obtain ⟨n, k, hlast, hl, hn, rfl⟩ := fuse?_words hfuse
      have := hg n
      rw [← Negatable.eq_keyword hn] at this
      simp only [push, hfuse, List.map_cons, List.sum_cons, hlast, hl]
      omega

theorem sum_fuse {g : Token → Nat}
    (hg : ∀ n : Negatable, g (.keyword .NOT) + g (.keyword n.keyword) = g (.negated n))
    (ts : List Lexeme) :
    ((fuse ts).map fun l => g l.token).sum = (ts.map fun l => g l.token).sum := by
  suffices h : ∀ done, ((ts.foldl push done).map fun l => g l.token).sum =
      (ts.map fun l => g l.token).sum + (done.map fun l => g l.token).sum by
    rw [fuse, List.map_reverse, List.sum_reverse, h]
    rfl
  induction ts with
  | nil => exact fun done => (Nat.zero_add _).symm
  | cons t ts ih =>
    intro done
    rw [List.foldl_cons, ih, sum_push hg, List.map_cons, List.sum_cons]
    omega

end Source

end RecordQuery
