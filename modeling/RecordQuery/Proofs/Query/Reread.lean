import RecordQuery.Proofs.Grammar.Moved
import RecordQuery.Proofs.Grammar.RoundTrip
import RecordQuery.Proofs.Grammar.Signs
import RecordQuery.Proofs.Query.Captions
import RecordQuery.Proofs.Token.Lines

/-! # Captions read back

The caption of an expression is a text, and is read as the tokens that it is made of, if these read
back one by one (`Token.Faithful`) and no minus stands right in front of a second one
(`DoubleMinus`), since that begins a comment.

* `fronts_behind`: what stands behind a token in a caption does not go on the token, so each token
  is read from its own text (`yields_text`), and a run of them by induction (`scans_behind`).
* `lost_behind`: behind a double minus the rest of the line is passed over, so that a newline or a
  word of the tokens is missing from what is read. Counting them shows that something else is read.
* `Parse.caption_rereads`: so a caption has just the tokens of its expression if and only if there
  is no double minus among them, and then it is a result column with the same caption again. -/

namespace RecordQuery

open Source Grammar

/-! ### The text of one token -/

/-- A token that captions can be read back with. -/
structure Token.Readable (t : Token) : Prop where
  written : t.Written
  inside : t ≠ .endOfInput
  faithful : t.Faithful

variable {t u : Token} {ts us : List Token} {s s' : Source} {ws : List Lexeme}
  {gap rest : List Char} {b : Bool}

theorem fronts_negated {n : Negatable} (h : (Token.negated n).Fronts rest) : Cuts rest := by
  cases h with
  | cut h => exact h
  | name h => cases h
  | dot h => cases h
  | tight h => rcases h with h | h | h <;> cases h
  | minus h => cases h

theorem toList_negated (n : Negatable) : (Token.negated n).text.toList =
    Keyword.NOT.text.toList ++ ' ' :: n.keyword.text.toList := by
  have hnot : Keyword.NOT.text.toList = ['N', 'O', 'T'] := by decide
  rw [Token.toList_negated, hnot]
  rfl

/-- A space, or none. -/
theorem closed_gap (b : Bool) : Closed (if b = true then [' '] else []) := by
  split_ifs
  · exact closed_space
  · exact .nil

/-- **The text of a token** is read as its words, in front of what does not go on it. -/
theorem yields_text (ht : t.Readable) (hr : t.Fronts rest) (hgap : Closed gap)
    (hrest : s.rest = gap ++ (t.text.toList ++ rest)) :
    ∃ ws s' l, Yields s ws s' ∧ Words ws [l] ∧ l.token = t ∧ s'.rest = rest := by
  by_cases hn : ∃ n, t = .negated n
  · obtain ⟨n, rfl⟩ := hn
    rw [toList_negated, List.append_assoc, List.cons_append] at hrest
    obtain ⟨hsolid, hscan⟩ := scan_keyword .NOT (cuts_cons parting_space)
    obtain ⟨x, s₁, hx, hxt, hleft⟩ := yields_one hgap hsolid hscan nofun hrest
    obtain ⟨hsolid', hscan'⟩ := scan_keyword n.keyword (fronts_negated hr)
    obtain ⟨y, s₂, hy, hyt, hleft'⟩ := yields_one closed_space hsolid' hscan' nofun hleft
    exact ⟨[x] ++ [y], s₂, _, hx.append hy, .pair hxt hyt .nil, rfl, hleft'⟩
  · obtain ⟨hsolid, hscan⟩ := ht.faithful.scan ht.written ht.inside (not_exists.mp hn)
    obtain ⟨hsolid', hscan'⟩ := Token.scan_append ht.inside hsolid hscan hr
    obtain ⟨x, s₁, hx, rfl, hleft⟩ := yields_one hgap hsolid' hscan' ht.inside hrest
    exact ⟨[x], s₁, x, hx, .single (not_exists.mp hn) .nil, rfl, hleft⟩

/-! ### What stands behind a token in a caption -/

/-- A minus in front of an operand stands right in front of another minus; the flag says whether
the token in front of the run ends an operand. -/
def DoubleMinus : Bool → List Token → Prop
  | ends, t :: u :: ts =>
    (ends = false ∧ t = .symbol .minus ∧ u = .symbol .minus) ∨ DoubleMinus t.endsOperand (u :: ts)
  | _, _ => False

/-- Only a minus begins with one. -/
theorem head_ne_minus (hu : u.Readable) (hne : u ≠ .symbol .minus) :
    (u.text.toList ++ rest).head? ≠ some '-' := by
  intro hhead
  by_cases hn : ∃ n, u = .negated n
  · obtain ⟨n, rfl⟩ := hn
    rw [Token.toList_negated] at hhead
    cases hhead
  · obtain ⟨-, hscan⟩ := hu.faithful.scan hu.written hu.inside (not_exists.mp hn)
    cases hlist : u.text.toList with
    | nil =>
      rw [hlist] at hscan
      exact hu.inside (Scan.found_inj hscan).1.symm
    | cons c cs =>
      rw [hlist] at hhead hscan
      obtain rfl : c = '-' := Option.some.inj hhead
      have hminus : scanToken ('-' :: cs) = .found (.symbol .minus) cs := rfl
      exact hne (Scan.found_inj (hscan.symm.trans hminus)).1

/-- Neither a name nor a star begins with a digit. -/
theorem head_not_digit (hu : u.Readable) (h : u.name?.isSome = true ∨ u = .symbol .star) :
    ∀ c ∈ (u.text.toList ++ rest).head?, c.isDigit = false := by
  rcases h with hname | rfl
  · cases u with
    | identifier name =>
      have hplain : IsPlainName name := hu.written
      rw [Token.text, List.head?_append_of_ne_nil _ hplain.nonempty]
      exact hplain.start
    | quotedIdentifier name =>
      rw [Token.text, toList_enclose]
      rintro _ ⟨⟩
      rfl
    | _ => cases hname
  · rintro _ ⟨⟩
    rfl

/-- **What stands behind a token** in a caption does not go on it, unless that is a second minus. -/
theorem fronts_behind {ends : Bool} (hm : (t :: ts).IsChain Token.Meets)
    (hts : ∀ u ∈ ts, u.Readable)
    (hd : ends = false → t = .symbol .minus → ts.head? ≠ some (.symbol .minus)) :
    t.Fronts (Caption.behind t (t.canSign && !ends) ts).toList := by
  cases ts with
  | nil => exact .cut nofun
  | cons u us =>
    have hu := hts u List.mem_cons_self
    have hmeets := (List.isChain_cons_cons.mp hm).1
    rw [Caption.toList_behind]
    cases hsign : t.canSign && !ends with
    | true =>
      obtain ⟨ht, hends⟩ := Bool.and_eq_true_iff.mp hsign
      by_cases hminus : t = .symbol .minus
      · refine .minus hminus (head_ne_minus hu fun hu => ?_)
        rw [hu] at hd
        exact hd (by simpa using hends) hminus rfl
      · refine .tight ?_
        unfold Token.canSign at ht
        split at ht
        · exact absurd rfl hminus
        · exact .inr (.inl rfl)
        · exact .inr (.inr rfl)
        · cases ht
    | false =>
      cases hspaced : Caption.spaced t u with
      | true => exact .cut (cuts_cons parting_space)
      | false =>
        rcases Caption.not_spaced hspaced with (rfl | rfl | rfl | rfl) | rfl | rfl
        · exact .cut (cuts_cons (by decide))
        · exact .cut (cuts_cons (by decide))
        · exact .name (hmeets.dotted rfl) rfl
        · exact .cut (cuts_cons (by decide))
        · exact .tight (.inl rfl)
        · exact .dot rfl (head_not_digit hu (hmeets.qualified rfl))

/-- The text behind a token has the newlines of its tokens, since only spaces stand between them. -/
theorem count_behind (t : Token) (b : Bool) (ts : List Token) :
    (Caption.behind t b ts).toList.count '\n' = (ts.map Token.newlines).sum := by
  induction ts generalizing t b with
  | nil => rfl
  | cons u us ih =>
    rw [Caption.toList_behind, List.count_append, List.count_append, ih, List.map_cons,
      List.sum_cons, ← Token.newlines, ← Nat.add_assoc]
    split_ifs <;> simp

/-! ### Captions without a double minus -/

/-- A minus is no second one, unless a run has a double minus. -/
theorem not_second {ends : Bool} (hd : ¬ DoubleMinus ends (t :: ts)) (hends : ends = false)
    (ht : t = .symbol .minus) : ts.head? ≠ some (.symbol .minus) := by
  cases ts with
  | nil => nofun
  | cons u us => exact fun hu => hd (.inl ⟨hends, ht, Option.some.inj hu⟩)

/-- **The text of a run** is read as the words of its tokens. -/
theorem scans_behind {ends : Bool} (hm : (t :: ts).IsChain Token.Meets)
    (hts : ∀ u ∈ t :: ts, u.Readable) (hd : ¬ DoubleMinus ends (t :: ts)) (hgap : Closed gap)
    (hrest : s.rest = gap ++ (t.text.toList ++
      (Caption.behind t (t.canSign && !ends) ts).toList)) :
    ∃ ws ls last, Scans s (ws ++ [last]) ∧ Words ws ls ∧ ls.map Lexeme.token = t :: ts ∧
      last.token = .endOfInput := by
  induction ts generalizing t ends s gap with
  | nil =>
    obtain ⟨ht, hus⟩ := List.forall_mem_cons.mp hts
    obtain ⟨ws, s', l, hyields, hwords, rfl, hleft⟩ :=
      yields_text ht (fronts_behind hm hus (not_second hd)) hgap hrest
    obtain ⟨last, hlast, hend⟩ := scans_nil hleft
    exact ⟨ws, [l], last, hyields.scans hlast, hwords, rfl, hend⟩
  | cons u us ih =>
    obtain ⟨ht, hus⟩ := List.forall_mem_cons.mp hts
    obtain ⟨ws, s', l, hyields, hwords, rfl, hleft⟩ :=
      yields_text ht (fronts_behind hm hus (not_second hd)) hgap hrest
    rw [Caption.toList_behind] at hleft
    obtain ⟨ws', ls, last, hscans, hwords', htokens, hlast⟩ :=
      ih hm.tail hus (fun h => hd (.inr h)) (closed_gap _) hleft
    refine ⟨ws ++ ws', l :: ls, last, ?_, hwords.append hwords', ?_, hlast⟩
    · rw [List.append_assoc]
      exact hyields.scans hscans
    · rw [List.map_cons, htokens]

/-- A caption begins as if nothing that ends an operand stood in front of it. -/
theorem toList_ofTokens (t : Token) (ts : List Token) : (Caption.ofTokens (t :: ts)).toList =
    [] ++ (t.text.toList ++ (Caption.behind t (t.canSign && !false) ts).toList) := by
  rw [Caption.ofTokens, String.toList_append, Bool.not_false, Bool.and_true]
  rfl

/-- **A caption without a double minus** has the tokens that it is made of. -/
theorem tokensOf_ofTokens {ls : List Lexeme} (hm : (ls.map Lexeme.token).IsChain Token.Meets)
    (hs : Settled false ls) (hread : ∀ t ∈ ls.map Lexeme.token, t.Readable)
    (hd : ¬ DoubleMinus false (ls.map Lexeme.token)) :
    tokensOf (Caption.ofTokens (ls.map Lexeme.token)).toList =
      .ok (ls.map Lexeme.token ++ [.endOfInput]) := by
  cases ls with
  | nil => decide
  | cons l ls =>
    rw [List.map_cons] at hm hread hd ⊢
    obtain ⟨ws, ls', last, hscans, hwords, htokens, hlast⟩ :=
      scans_behind (s := ⟨.start, (Caption.ofTokens _).toList⟩) hm hread hd .nil
        (toList_ofTokens _ _)
    rw [tokensOf_of_scans hscans, List.foldl_append, List.foldl_cons, List.foldl_nil,
      push_endOfInput hlast, List.reverse_cons, ← Source.fuse,
      fuse_words (hs.of_tokens htokens) hwords, List.map_append, htokens, List.map_singleton, hlast]

/-! ### Captions with a double minus -/

/-- How many words a token is read from. -/
def Token.wordCount : Token → Nat
  | .negated _ => 2
  | _ => 1

theorem Grammar.Words.sum {g : Token → Nat} {ws ls : List Lexeme} (h : Words ws ls)
    (hg : ∀ n : Negatable, g (.keyword .NOT) + g (.keyword n.keyword) = g (.negated n)) :
    (ws.map fun l => g l.token).sum = (ls.map fun l => g l.token).sum := by
  induction h with
  | nil => rfl
  | single _ _ ih => rw [List.map_cons, List.map_cons, List.sum_cons, List.sum_cons, ih]
  | pair ha hb _ ih =>
    simp only [List.map_cons, List.sum_cons, ha, hb, ih, ← hg]
    omega

theorem newlines_split (n : Negatable) : (Token.keyword .NOT).newlines +
    (Token.keyword n.keyword).newlines = (Token.negated n).newlines := by
  rw [newlines_keyword, newlines_keyword, newlines_negated]

theorem words_split (n : Negatable) :
    (Token.keyword .NOT).wordCount + (Token.keyword n.keyword).wordCount = (Token.negated n).wordCount := rfl

/-- A space, or none, is passed. -/
theorem skipTrivia_gap (cs : List Char) :
    skipTrivia .outside ((if b = true then [' '] else []) ++ cs) = skipTrivia .outside cs := by
  split_ifs
  · exact skipTrivia_blank (by decide)
  · rfl

/-- **Behind two minuses** nothing is read up to the end of the line: a newline is missing from what
is read, or there is none and nothing is read at all. -/
theorem scans_comment (hskip : skipTrivia .outside s.rest = skipTrivia .line rest)
    (h : Scans s ws) : (ws.map fun l => l.token.newlines).sum < rest.count '\n' ∨
      (ws.map fun l => l.token.wordCount).sum = 1 := by
  by_cases hline : '\n' ∈ rest
  · -- What is left of the text behind the line has fewer newlines.
    obtain ⟨body, tail, rfl, hbody⟩ := List.eq_append_cons_of_mem hline
    rw [skipTrivia_line hbody] at hskip
    have hcount : tail.count '\n' < (body ++ '\n' :: tail).count '\n' := by
      rw [List.count_append, List.count_cons_self]
      omega
    left
    cases h with
    | last h hl =>
      rw [List.map_singleton, hl]
      exact Nat.zero_lt_of_lt hcount
    | more h _ hs =>
      obtain ⟨cs, hcs, hle⟩ := newlines_of_next h
      rw [hskip] at hcs
      have htail := (skipTrivia_suffix hcs).sublist.count_le '\n'
      have := hs.newlines
      rw [List.map_cons, List.sum_cons]
      omega
  · rw [skipTrivia_lastLine hline] at hskip
    right
    obtain ⟨l, s', hnext, hl, -⟩ :=
      next_of_scan s [] hskip (show scanToken [] = .found .endOfInput [] from rfl)
    cases h with
    | last h =>
      cases hnext.symm.trans h
      rw [List.map_singleton, hl]
      rfl
    | more h hne =>
      cases hnext.symm.trans h
      exact absurd hl hne

/-- **A double minus** keeps a newline or a word of the run from being read. -/
theorem lost_behind {ends : Bool} (hm : (t :: ts).IsChain Token.Meets)
    (hts : ∀ u ∈ t :: ts, u.Readable) (hd : DoubleMinus ends (t :: ts))
    (hrest : s.rest = (if b = true then [' '] else []) ++ (t.text.toList ++
      (Caption.behind t (t.canSign && !ends) ts).toList)) (h : Scans s ws) :
    (ws.map fun l => l.token.newlines).sum < ((t :: ts).map Token.newlines).sum ∨
      (ws.map fun l => l.token.wordCount).sum ≤ ((t :: ts).map Token.wordCount).sum := by
  induction ts generalizing t ends s b ws with
  | nil => exact hd.elim
  | cons u us ih =>
    obtain ⟨ht, hus⟩ := List.forall_mem_cons.mp hts
    by_cases hsecond : ends = false ∧ t = .symbol .minus ∧ u = .symbol .minus
    · obtain ⟨rfl, rfl, rfl⟩ := hsecond
      rw [Caption.toList_behind] at hrest
      have hskip : skipTrivia .outside s.rest =
          skipTrivia .line (Caption.behind (.symbol .minus) true us).toList := by
        rw [hrest, skipTrivia_gap]
        exact skipTrivia_minuses
      refine (scans_comment hskip h).imp (fun hlt => ?_) (fun heq => ?_)
      · rw [count_behind] at hlt
        rw [List.map_cons, List.map_cons, List.sum_cons, List.sum_cons, newlines_symbol]
        omega
      · rw [heq, List.map_cons, List.sum_cons]
        exact Nat.le_add_right 1 _
    · have hlater : DoubleMinus t.endsOperand (u :: us) := hd.resolve_left hsecond
      have hfronts : ends = false → t = .symbol .minus →
          (u :: us).head? ≠ some (.symbol .minus) :=
        fun hends ht hu => hsecond ⟨hends, ht, Option.some.inj hu⟩
      obtain ⟨ws₁, s', l, hyields, hwords, rfl, hleft⟩ :=
        yields_text ht (fronts_behind hm hus hfronts) (closed_gap b) hrest
      obtain ⟨ws₂, rfl, hscans⟩ := hyields.left h
      rw [Caption.toList_behind] at hleft
      have hlines := hwords.sum newlines_split
      have hcount := hwords.sum words_split
      rw [List.map_singleton, List.sum_singleton] at hlines hcount
      rw [List.map_append, List.map_append, List.sum_append, List.sum_append, hlines, hcount]
      refine (ih hm.tail hus hlater hleft hscans).imp (fun hlt => ?_) (fun hle => ?_)
      · rw [List.map_cons, List.sum_cons]
        omega
      · rw [List.map_cons, List.sum_cons]
        omega

/-- **A caption with a double minus** does not have the tokens that it is made of. -/
theorem tokensOf_doubleMinus (hm : ts.IsChain Token.Meets) (hread : ∀ t ∈ ts, t.Readable)
    (hd : DoubleMinus false ts) :
    tokensOf (Caption.ofTokens ts).toList ≠ .ok (ts ++ [.endOfInput]) := by
  intro h
  cases ts with
  | nil => exact hd
  | cons t ts =>
    obtain ⟨ls, hls, htokens⟩ := tokensOf_ok h
    obtain ⟨ws, hscans, rfl⟩ := Source.scans_of_tokenize hls
    rw [Source.ofString, String.toList_ofList] at hscans
    have hlost := @lost_behind _ _ _ _ false _ hm hread hd (toList_ofTokens t ts) hscans
    have hsum {g : Token → Nat}
        (hg : ∀ n : Negatable, g (.keyword .NOT) + g (.keyword n.keyword) = g (.negated n)) :
        (ws.map fun l => g l.token).sum = ((t :: ts).map g).sum + g .endOfInput := by
      rw [← List.sum_singleton (x := g .endOfInput), ← List.sum_append, ← List.map_singleton,
        ← List.map_append, ← htokens, List.map_map, ← sum_fuse hg]
      rfl
    rw [hsum newlines_split, hsum words_split] at hlost
    rcases hlost with hlt | hle
    · omega
    · exact absurd hle (Nat.not_le.mpr (Nat.lt_succ_self _))

/-! ### Result columns -/

/-- The tokens of an expression in a text are none of them the end of the input. -/
theorem readable_of_tokenize {text : String} {before ls : List Lexeme} {c : Cursor}
    (h : tokenize text = .ok (before ++ (ls ++ c.current :: c.later)))
    (hfaithful : ∀ l ∈ ls, l.token.Faithful) : ∀ t ∈ ls.map Lexeme.token, t.Readable := by
  rintro _ ht
  obtain ⟨l, hl, rfl⟩ := List.mem_map.mp ht
  have hwritten := written_of_tokenize h l
    (List.mem_append_right before (List.mem_append_left _ hl))
  refine ⟨hwritten, ?_, hfaithful l hl⟩
  obtain ⟨init, last, heq, -, hinit⟩ := ends_of_tokenize h
  have hdrop := congrArg List.dropLast heq
  rw [List.dropLast_concat, ← List.append_assoc,
    List.dropLast_append_of_ne_nil (List.cons_ne_nil _ _)] at hdrop
  exact hinit l (hdrop ▸ List.mem_append_left _ (List.mem_append_right _ hl))

namespace Parse

variable {text caption : String} {before ls : List Lexeme} {c c' : Cursor} {e : Expr}
  {label : Option String} {place : Position}

/-- **A caption with the tokens of its expression** is read as a column with the same expression, at
other places, and the same caption. -/
theorem reread_of_tokensOf (hs : Spells (.expr .or) e ls) (hnodup : (ls.map Lexeme.start).Nodup)
    (h : tokensOf (Caption.ofTokens (ls.map Lexeme.token)).toList =
      .ok (ls.map Lexeme.token ++ [.endOfInput])) :
    ∃ f place' d d', tokenize (Caption.ofTokens (ls.map Lexeme.token)) =
        .ok (d.current :: d.later) ∧ d'.token = .endOfInput ∧
      (resultColumn expression).run d =
        .ok (.expr (e.moved f) none (Caption.ofTokens (ls.map Lexeme.token)) place') d' := by
  obtain ⟨all, hall, htokens⟩ := tokensOf_ok h
  rw [String.ofList_toList] at hall
  obtain ⟨ms, rest, rfl, hms, hrest⟩ := List.map_eq_append_iff.mp htokens
  obtain ⟨stop, rfl, hstop⟩ := List.map_eq_singleton_iff.mp hrest
  obtain ⟨f, g, hg, rfl⟩ := exists_moves hnodup hms
  have hmoved := hs.moved hg
  obtain ⟨l, ls', rfl, -⟩ := hs.head_expr
  have hread := reads_computed hmoved hmoved.reads SpellsLabel.absent expression ⟨stop, []⟩
    (suffices_expression _) (by rw [Cursor.token, hstop]; rfl)
  rw [← List.map_cons, List.append_nil, hms] at hread
  refine ⟨f, _, _, ⟨stop, []⟩, ?_, hstop, hread⟩
  rw [Cursor.lexemes_prepend]
  exact hall

/-- **A caption reads back unless a minus stands in front of a second one that it signs.** If the
tokens of an expression that was read as a result column read back one by one, its caption has
just them, unless there is a minus in front of an operand that begins with a minus; there the two
begin a comment. Where it reads back, it is a result column again, with the same caption. -/
theorem caption_rereads (htext : tokenize text = .ok (before ++ c.current :: c.later))
    (h : (resultColumn expression).run c = .ok (.expr e label caption place) c') :
    ∃ ls as, c = c'.prepend (ls ++ as) ∧ SpellsLabel label as ∧ Spells (.expr .or) e ls ∧
      ((∀ l ∈ ls, l.token.Faithful) →
        (tokensOf caption.toList = .ok (ls.map Lexeme.token ++ [.endOfInput]) ↔
          ¬ DoubleMinus false (ls.map Lexeme.token)) ∧
        (¬ DoubleMinus false (ls.map Lexeme.token) → ∃ f place' d d',
          tokenize caption = .ok (d.current :: d.later) ∧ d'.token = .endOfInput ∧
            (resultColumn expression).run d = .ok (.expr (e.moved f) none caption place') d')) := by
  rw [← Cursor.lexemes_prepend] at htext
  have hready := (ready_of_tokenize htext).behind
  rw [Cursor.lexemes_prepend] at htext
  obtain ⟨ls, rfl, hspells⟩ := passes_resultColumn passes_expression hready h
  cases hspells with
  | @computed _ l ls as _ hls has =>
    refine ⟨l :: ls, as, rfl, has, hls, fun hfaithful => ?_⟩
    rw [Cursor.lexemes_prepend, List.append_assoc] at htext
    have hread := @readable_of_tokenize _ before (l :: ls) (c'.prepend as)
      (by rw [Cursor.lexemes_prepend]; exact htext) hfaithful
    have hmeets : ((l :: ls).map Lexeme.token).IsChain Token.Meets :=
      (List.isChain_map Lexeme.token).mpr hls.linked.chain
    have hnodup : ((l :: ls).map Lexeme.start).Nodup := by
      have hordered := (List.pairwise_append.mp
        (List.pairwise_append.mp (starts_of_tokenize htext)).2.1).1
      refine List.pairwise_map.mpr (hordered.imp fun hlt heq => ?_)
      rw [heq] at hlt
      exact absurd hlt (Nat.lt_irrefl _)
    have hiff : tokensOf (Caption.ofTokens ((l :: ls).map Lexeme.token)).toList =
        .ok ((l :: ls).map Lexeme.token ++ [.endOfInput]) ↔
          ¬ DoubleMinus false ((l :: ls).map Lexeme.token) :=
      ⟨fun heq hd => tokensOf_doubleMinus hmeets hread hd heq,
        tokensOf_ofTokens hmeets hls.settled hread⟩
    exact ⟨hiff, fun hd => reread_of_tokensOf hls hnodup (hiff.mpr hd)⟩

/-- In `a - -b` the first minus is no sign, and the space behind it is kept. -/
theorem caption_rereads_minus : ∃ c c' e place,
    tokenize "a- -b" = .ok ([] ++ c.current :: c.later) ∧
      (resultColumn expression).run c = .ok (.expr e none "a - -b" place) c' ∧
      tokensOf "a - -b".toList = .ok [.identifier "a", .symbol .minus, .symbol .minus,
        .identifier "b", .endOfInput] := by
  obtain ⟨c, column, c', htext, hrun, h⟩ := @run_of_any "a- -b" _ (resultColumn expression)
    (fun c column c' => column.captioned? = some (none, "a - -b") ∧
      c.upTo c' = [.identifier "a", .symbol .minus, .symbol .minus, .identifier "b"])
    (by decide +kernel)
  obtain ⟨hcaptioned, hupTo⟩ := of_decide_eq_true h
  obtain ⟨e, place, rfl⟩ := ResultColumn.eq_of_captioned? hcaptioned
  refine ⟨c, c', e, place, htext, hrun, ?_⟩
  obtain ⟨ls, as, hc, has, -, hreads⟩ := @caption_rereads _ _ [] _ _ _ _ _ htext hrun
  cases has
  rw [hc, Cursor.upTo_prepend, List.append_nil] at hupTo
  rw [hupTo] at hreads
  refine (hreads fun k hk => ?_).1.mpr ?_
  · have hk : k.token ∈ ls.map Lexeme.token := List.mem_map_of_mem hk
    rw [hupTo] at hk
    have hfaithful : ∀ t ∈ [Token.identifier "a", .symbol .minus, .symbol .minus,
        .identifier "b"], tokensOf t.text.toList = .ok [t, .endOfInput] := by decide +kernel
    exact hfaithful _ hk
  · rintro (⟨-, h, -⟩ | ⟨h, -⟩ | ⟨-, -, h⟩ | h) <;> cases h

/-- In `- -1` the first minus signs the second one, and the caption is a comment. -/
theorem caption_not_reread : ∃ c c' e caption place,
    tokenize "- -1" = .ok (c.current :: c.later) ∧
      (resultColumn expression).run c = .ok (.expr e none caption place) c' ∧
      (∀ t ∈ c.upTo c', t.Faithful) ∧
      tokensOf caption.toList ≠ .ok (c.upTo c' ++ [.endOfInput]) := by
  obtain ⟨c, column, c', htext, hrun, h⟩ := @run_of_any "- -1" _ (resultColumn expression)
    (fun c column c' => column.captioned? = some (none, "--1") ∧
      (∀ t ∈ c.upTo c', tokensOf t.text.toList = .ok [t, .endOfInput]) ∧
      tokensOf "--1".toList ≠ .ok (c.upTo c' ++ [.endOfInput]))
    (by decide +kernel)
  obtain ⟨hcaptioned, hfaithful, hne⟩ := of_decide_eq_true h
  obtain ⟨e, place, rfl⟩ := ResultColumn.eq_of_captioned? hcaptioned
  exact ⟨c, c', e, _, place, htext, hrun, hfaithful, hne⟩

end Parse

end RecordQuery
