import RecordQuery.Proofs.Grammar.Moved
import RecordQuery.Proofs.Grammar.RoundTrip
import RecordQuery.Proofs.Token.Behind

/-! # The operand of `IS NOT`

`IS NOT` takes an operand of the tier of `<` on its right, except where the operand begins with
`NULL`: the `NOT` fuses with that, and `IS` with the one token `NOT NULL` behind it is complete. So
an operand that is more than `NULL` is cut short, and what is left of it cannot go on the expression
(`run_isNotNull`). `Expr.ofText_isNot` says what is read for every operand. -/

namespace RecordQuery

open Grammar Cursor

/-- Reads an expression of a tier from the tokens left. -/
def Parse.ofTier (t : Tier) : Parse Expr := do
  tierWithin select (depth (← get)) t

namespace Grammar

variable {t u : Tier} {e : Expr} {l m a i n stop : Lexeme} {ls rest : List Lexeme} {c c' : Cursor}
  {name : String}

/-! ### Operands that begin with `NULL` -/

/-- The tokens of an operand that begins with `NULL`: nothing stands behind that, or an operator of
the tier of `<` or a tighter one. -/
def NullFirst (ls : List Lexeme) : Prop :=
  ∃ f rest, ls = f :: rest ∧ ∀ m ∈ rest.head?, ∃ u : Tier,
    (∀ b, m.token.tier? b = some u) ∧ Tier.relational.rank ≤ u.rank

theorem nullFirst_single (f : Lexeme) : NullFirst [f] := ⟨f, [], rfl, nofun⟩

/-- An operator behind an operand that begins with `NULL`. -/
theorem NullFirst.append (h : NullFirst ls) (hu : ∀ b, m.token.tier? b = some u)
    (hrank : Tier.relational.rank ≤ u.rank) : NullFirst (ls ++ m :: rest) := by
  obtain ⟨f, mid, rfl, hmid⟩ := h
  refine ⟨f, mid ++ m :: rest, rfl, ?_⟩
  cases mid with
  | nil =>
    rintro _ ⟨⟩
    exact ⟨u, hu, hrank⟩
  | cons k mid => exact hmid

theorem ne_endOfInput_of_tier? {k : Token} {b : Bool} (h : k.tier? b = some u) :
    k ≠ .endOfInput := by
  rintro rfl
  cases h

theorem tier?_trailing {op : UnaryOp} (h : UnaryOp.trailing? m.token = some op) (b : Bool) :
    m.token.tier? b = some .nullTest := by
  unfold UnaryOp.trailing? at h
  split at h
  case h_4 => cases h
  all_goals
    next hk =>
    rw [hk]
    rfl

theorem tier?_operator {op : BinaryOp} (h : op.token? = some m.token)
    (hop : Tier.relational.rank ≤ op.tier.rank) (b : Bool) : m.token.tier? b = some op.tier := by
  cases op <;> first
    | exact absurd hop (by decide)
    | (rw [← Option.some.inj h]; rfl)

theorem Begins.of_append {k : Token} (h : Begins k (ls ++ rest)) (hls : ls ≠ []) :
    Begins k ls := by
  obtain ⟨f, more, rfl⟩ := List.exists_cons_of_ne_nil hls
  exact h

/-- **An operand that begins with `NULL`** goes on, if it does, with an operator of its own tier or
a tighter one. -/
theorem Spells.nullFirst {k : Kind} {v : k.Value} (h : Spells k v ls)
    (hk : ∃ t : Tier, k = .expr t ∧ Tier.relational.rank ≤ t.rank)
    (hb : Begins (.keyword .NULL) ls) : NullFirst ls := by
  induction h with
  | literal => exact nullFirst_single _
  | parameter => exact nullFirst_single _
  | column h =>
    obtain ⟨f, rfl⟩ := (Spells.column h).eq_null (.inr rfl) hb
    exact nullFirst_single f
  | group ho => rw [begins_cons, ho] at hb; cases hb
  | callStar hf | callNone hf | call hf => rw [begins_cons] at hb; rw [hb] at hf; cases hf
  | existsRow hx => rw [begins_cons, hx] at hb; cases hb
  | notNull => exact nullFirst_single _
  | leading ho => rw [begins_cons] at hb; rw [hb] at ho; cases ho
  | trailing h ho ih =>
    exact (ih ⟨_, rfl, by decide⟩ (hb.of_append (h.ne_nil rfl))).append (tier?_trailing ho)
      (by decide)
  | @operator op _ _ _ _ _ h ho _ _ ih _ =>
    obtain ⟨t, ht, hrank⟩ := hk
    cases ht
    exact (ih ⟨_, rfl, hrank⟩ (hb.of_append (h.ne_nil rfl))).append (tier?_operator ho hrank) hrank
  | @loosen t _ _ _ ih =>
    obtain ⟨_, ht, hrank⟩ := hk
    cases ht
    exact ih ⟨_, rfl, hrank.trans t.rank_le_tighter⟩ hb
  | is | isNot | isNotNull | between | listed =>
    obtain ⟨t, ht, hrank⟩ := hk
    cases ht
    exact absurd hrank (by decide)
  | _ =>
    obtain ⟨t, ht, -⟩ := hk
    cases ht

/-! ### `IS NOT NULL` and what is left -/

open Parse

/-- A tier that has no step to take reads what the tighter one does. -/
theorem run_loosen {k : Nat} (h1 : t ≠ .sign) (h2 : t ≠ .primary)
    (h : (tierWithin select k t.tighter).run c = .ok e c') (hs : step? t c' = none) :
    (tierWithin select (k + 1) t).run c = .ok e c' := by
  rw [tierWithin, tierBody_loop _ h1 h2, run_bind h, run_get_bind]
  exact run_extend_none _ _ hs

/-- **`IS NOT NULL`** is read whole in front of an operator of a tighter tier. -/
theorem run_isNotNull (ha : a.token.name? = some name) (hi : i.token = .keyword .IS)
    (hn : n.token = .negated .null)
    (hc : c.token.tier? (c.peek = .symbol .leftParen) = some u) (hu : Tier.relational.rank ≤ u.rank) :
    expression.run (c.prepend [a, i, n]) =
      .ok (.binary .isNot (.column (.bare name)) (.literal .null)) c := by
  have hstep {t : Tier} (ht : t.rank < Tier.relational.rank) : step? t c = none := by
    refine step?_eq_none fun h => ?_
    obtain rfl := Option.some.inj (hc.symm.trans h)
    omega
  have hcolumn : ReadsExpr .comparison (.column (.bare name)) [a] :=
    Spells.reads (Spells.looser (u := .primary) (.column (.bare ha)) (by decide))
  have htake (sub : Tier → Parse Expr) :
      (takeStep sub .comparison (.column (.bare name)) .is).run (c.prepend [i, n]) =
        .ok (.binary .isNot (.column (.bare name)) (.literal .null)) c := by
    unfold takeStep
    rw [run_advance_bind, prepend_cons, advance_push, prepend_cons, run_bind_true (run_eat hn)]
    rfl
  have hcomparison {k : Nat} (hk : 13 * (3 + c.size) + 8 ≤ k) :
      (tierWithin select (k + 1) .comparison).run (c.prepend [a, i, n]) =
        .ok (.binary .isNot (.column (.bare name)) (.literal .null)) c := by
    obtain ⟨m, hm, hrun⟩ := hcolumn k (c.prepend [i, n])
      (by rw [size_prepend]; change 13 * (1 + (2 + c.size)) + 12 ≤ k + 4; omega) (follows_is hi)
    rw [size_prepend] at hm
    obtain ⟨m, rfl⟩ : ∃ j, m = j + 1 := ⟨m - 1, by change 2 + _ ≤ m at hm; omega⟩
    change (tierWithin select (k + 1) .comparison).run ((c.prepend [i, n]).prepend [a]) = _
    rw [hrun, run_extend_some (@step?_is (c.prepend [i, n]) hi) (htake _)]
    exact run_extend_none _ _ (hstep (by decide))
  have hdepth : depth (c.prepend [a, i, n]) = 13 * (3 + c.size) + 8 + 5 := by
    have hsize : (c.prepend [a, i, n]).later.length = 3 + c.size := size_prepend _ c
    unfold depth
    rw [hsize]
    omega
  unfold expression
  rw [run_get_bind, hdepth]
  exact run_loosen nofun nofun (run_loosen nofun nofun (run_loosen nofun nofun
    (run_loosen nofun nofun (hcomparison (Nat.le_refl _)) (hstep (by decide)))
    (hstep (by decide))) (hstep (by decide))) (hstep (by decide))

/-- What is left behind `IS NOT NULL` cannot go on the expression. -/
theorem onTokens_isNotNull (ha : a.token.name? = some name) (hi : i.token = .keyword .IS)
    (hn : n.token = .negated .null) (hu : ∀ b, m.token.tier? b = some u)
    (hrank : Tier.relational.rank ≤ u.rank) :
    wholeExpression.onTokens (a :: i :: n :: m :: rest) =
      .error ⟨.unexpected .endOfExpression m.token, m.start⟩ := by
  have hend : m.token ≠ .endOfInput := ne_endOfInput_of_tier? (hu true)
  have hrun := @run_isNotNull u a i n ⟨m, rest⟩ name ha hi hn (hu _) hrank
  have hwhole : wholeExpression.run (prepend [a, i, n] ⟨m, rest⟩) =
      .error ⟨.unexpected .endOfExpression m.token, m.start⟩ ⟨m, rest⟩ := by
    unfold wholeExpression
    rw [run_bind hrun, run_get_bind, if_neg (by exact hend)]
    rfl
  unfold onTokens
  rw [show ofTokens? (a :: i :: n :: m :: rest) = some (prepend [a, i, n] ⟨m, rest⟩) from rfl]
  dsimp only
  rw [hwhole]

/-- **`IS NOT`** in front of an operand that does not begin with `NULL`. -/
theorem onTokens_isNot (ha : a.token.name? = some name) (hi : i.token = .keyword .IS)
    (hn : n.token = .keyword .NOT) (h : Spells (.expr .relational) e ls)
    (hb : ¬ Begins (.keyword .NULL) ls) (hstop : stop.token = .endOfInput) :
    wholeExpression.onTokens (a :: i :: n :: (ls ++ [stop])) =
      .ok (.binary .isNot (.column (.bare name)) e) := by
  have hcolumn : Spells (.expr .comparison) (.column (.bare name)) [a] :=
    Spells.looser (u := .primary) (.column (.bare ha)) (by decide)
  exact onTokens_expression ((hcolumn.isNot hi hn h hb).looser (by decide)) hstop

/-- `IS NOT NULL` and nothing else. -/
theorem onTokens_isNotNull_end (ha : a.token.name? = some name) (hi : i.token = .keyword .IS)
    (hn : n.token = .negated .null) (hstop : stop.token = .endOfInput) :
    wholeExpression.onTokens [a, i, n, stop] =
      .ok (.binary .isNot (.column (.bare name)) (.literal .null)) := by
  have hcolumn : Spells (.expr .comparison) (.column (.bare name)) [a] :=
    Spells.looser (u := .primary) (.column (.bare ha)) (by decide)
  exact onTokens_expression ((hcolumn.isNotNull hi hn).looser (by decide)) hstop

end Grammar

/-! ### Texts -/

section Texts

open Source Parse

variable {x r : String} {t : Token} {name : String} {ts : List Lexeme}

/-- The words of a name, `IS NOT`, and a text behind them. -/
theorem scans_isNot (hx : scanToken x.toList = .found t []) (ht : t.name? = some name)
    (h : Scans (ofString r) ts) : ∃ a i n : Lexeme, a.token = t ∧ i.token = .keyword .IS ∧
      n.token = .keyword .NOT ∧ Scans (ofString (x ++ " IS NOT " ++ r))
        (a :: i :: n :: ts.map (Lexeme.behind (x ++ " IS NOT ").toList r.toList)) := by
  have hend : t ≠ .endOfInput := by
    rintro rfl
    cases ht
  have hspace (cs : List Char) : Cuts (' ' :: cs) := cuts_cons parting_space
  have hrest : (ofString (x ++ " IS NOT " ++ r)).rest = [] ++ (x.toList ++ ' ' ::
      (Keyword.IS.text.toList ++ ' ' :: (Keyword.NOT.text.toList ++ ' ' :: r.toList))) := by
    rw [ofString, String.toList_append, String.toList_append, List.append_assoc]
    rfl
  obtain ⟨hsolid, hscan⟩ := scan_name hx ht (hspace _)
  obtain ⟨a, s₁, ha, hat, hleft⟩ := yields_one .nil hsolid hscan hend hrest
  obtain ⟨hsolid, hscan⟩ := scan_keyword .IS (hspace _)
  obtain ⟨i, s₂, hi, hit, hleft⟩ := yields_one closed_space hsolid hscan (by decide) hleft
  obtain ⟨hsolid, hscan⟩ := scan_keyword .NOT (hspace _)
  obtain ⟨n, s₃, hn, hnt, hleft⟩ := yields_one closed_space hsolid hscan (by decide) hleft
  have hyields := ha.append (hi.append hn)
  have hstands := hyields.stands (behind_ofString _)
  rw [String.toList_append] at hstands
  have hskip : skipTrivia .outside s₃.rest = skipTrivia .outside (ofString r).rest := by
    rw [hleft]
    exact skipTrivia_blank (by decide)
  exact ⟨a, i, n, hat, hit, hnt, hyields.scans (h.behind (behind_ofString r) hstands hskip)⟩

/-- A `NULL` at the head of tokens is not fused from two words. -/
theorem ne_null_of_fuse {w f : Lexeme} {ls : List Lexeme} (h : fuse (w :: ts) = f :: ls)
    (hw : w.token ≠ .keyword .NULL) : f.token ≠ .keyword .NULL := by
  by_cases hpair : w.token = .keyword .NOT ∧ ∃ b ∈ ts.head?, b.token.fuses = true
  · obtain ⟨hnot, b, hb, hfuses⟩ := hpair
    obtain ⟨more, rfl⟩ := List.head?_eq_some_iff.mp hb
    obtain ⟨n, hn⟩ := exists_negatable hfuses
    rw [fuse_pair hnot hn] at h
    rw [← (List.cons.inj h).1]
    nofun
  · rw [fuse_cons fun hnot b hb => Bool.eq_false_iff.mpr fun hf => hpair ⟨hnot, b, hb, hf⟩] at h
    rwa [← (List.cons.inj h).1]

/-- The first word of an operand fuses with a `NOT` in front only if it is `NULL`. -/
theorem not_fuses_of_fuse {w f : Lexeme} {ls : List Lexeme} (h : fuse (w :: ts) = f :: ls)
    (hw : w.token ≠ .keyword .NULL) (hf : f.token.opens = true) : w.token.fuses = false := by
  by_cases hnot : w.token = .keyword .NOT
  · rw [hnot]
    rfl
  · rw [fuse_cons fun hk => absurd hk hnot] at h
    obtain ⟨rfl, -⟩ := List.cons.inj h
    exact not_fuses_of_opens hf hw

variable {c c' : Cursor} {e : Expr} {a i n stop : Lexeme} {ls : List Lexeme}

/-- **The tokens of an operand behind `IS NOT`.** The operand is read, at the places where it then
stands, unless it begins with `NULL` and goes on. -/
theorem onTokens_operand (front text : List Char) (ha : a.token.name? = some name)
    (hi : i.token = .keyword .IS) (hn : n.token = .keyword .NOT)
    (h : Spells (.expr .relational) e ls) (hfuse : fuse ts = ls ++ [stop])
    (hstop : stop.token = .endOfInput) (hc : c = prepend ls ⟨stop, []⟩) :
    wholeExpression.onTokens (a :: i :: fuse (n :: ts.map (Lexeme.behind front text))) =
      if c.token = .keyword .NULL ∧ c.peek ≠ .endOfInput then
        .error ⟨.unexpected .endOfExpression c.peek, c.advance.current.start.behind front text⟩
      else
        .ok (.binary .isNot (.column (.bare name)) (e.moved (Position.behind front text))) := by
  subst hc
  obtain ⟨f, rest, rfl, hopens⟩ := h.head_expr
  obtain ⟨w, ts, rfl⟩ : ∃ w us, ts = w :: us := by
    cases ts with
    | nil => cases hfuse
    | cons w us => exact ⟨w, us, rfl⟩
  by_cases hw : w.token = .keyword .NULL
  · -- The `NOT` fuses with the first word of the operand.
    have hw' : (w.behind front text).token = .keyword Negatable.null.keyword := hw
    rw [fuse_cons fun hk => absurd (hw.symm.trans hk) nofun] at hfuse
    obtain ⟨rfl, hrest⟩ := List.cons.inj hfuse
    rw [List.map_cons, fuse_pair hn hw', fuse_behind, hrest]
    obtain ⟨_, _, heq, hnext⟩ := h.nullFirst ⟨_, rfl, Nat.le_refl _⟩ (begins_cons.mpr hw)
    obtain ⟨rfl, rfl⟩ := List.cons.inj heq
    cases rest with
    | nil =>
      rw [if_neg fun hpeek => hpeek.2 hstop]
      obtain rfl := h.unique (spells_null hw)
      exact onTokens_isNotNull_end ha hi rfl hstop
    | cons m rest =>
      obtain ⟨u, hu, hrank⟩ := hnext m rfl
      have hm : m.token ≠ .endOfInput := ne_endOfInput_of_tier? (hu true)
      rw [if_pos ⟨hw, hm⟩]
      exact @onTokens_isNotNull u (m.behind front text) _ _ _ _ _ ha hi rfl hu hrank
  · have hnull := ne_null_of_fuse hfuse hw
    have hfuses := not_fuses_of_fuse hfuse hw hopens
    have hmoves : Moves (Position.behind front text) (Lexeme.behind front text) :=
      ⟨fun _ => rfl, fun _ => rfl⟩
    rw [fuse_cons fun _ b hb => by rw [← Option.some.inj hb]; exact hfuses, fuse_behind, hfuse,
      if_neg fun hpeek => hnull hpeek.1, List.map_append]
    exact onTokens_isNot ha hi hn (h.moved hmoves)
      (mt hmoves.begins.mp fun hb => hnull (begins_cons.mp hb)) hstop

/-- The tokens of an expression of a tier that was read. -/
theorem spells_of_ofTier {u : Tier} (hr : tokenize r = .ok (c.current :: c.later))
    (h : (ofTier u).run c = .ok e c') : ∃ ls, c = c'.prepend ls ∧ Spells (.expr u) e ls := by
  unfold ofTier at h
  rw [run_get_bind] at h
  exact passes_tierWithin (fun _ => passes_select) _ _ (ready_of_tokenize hr) h

/-- **The operand of `IS NOT`.** A text that the tier of `<` reads to its end is read behind a name
and `IS NOT` as the operand of that, at the places where it then stands, unless it begins with
`NULL` and goes on: then `IS NOT NULL` is read, and what stands behind the `NULL` is not expected
there. -/
theorem Expr.ofText_isNot (hx : scanToken x.toList = .found t []) (ht : t.name? = some name)
    (hr : tokenize r = .ok (c.current :: c.later)) (h : (ofTier .relational).run c = .ok e c')
    (hend : c'.token = .endOfInput) :
    Expr.ofText (x ++ " IS NOT " ++ r) =
      if c.token = .keyword .NULL ∧ c.peek ≠ .endOfInput then
        .error ⟨.unexpected .endOfExpression c.peek,
          c.advance.current.start.behind (x ++ " IS NOT ").toList r.toList⟩
      else
        .ok (.binary .isNot (.column (.bare name))
          (e.moved (Position.behind (x ++ " IS NOT ").toList r.toList))) := by
  obtain ⟨ls, rfl, hspells⟩ := spells_of_ofTier hr h
  rw [lexemes_prepend] at hr
  obtain ⟨stop, later⟩ := c'
  obtain rfl : later = [] := later_of_endOfInput hr hend
  obtain ⟨ts, hts, hfuse⟩ := scans_of_tokenize hr
  obtain ⟨a, i, n, hat, hi, hn, hscans⟩ := scans_isNot hx ht hts
  have ha : a.token.name? = some name := by rw [hat, ht]
  have hfuseText : fuse (a :: i :: n :: ts.map (Lexeme.behind (x ++ " IS NOT ").toList r.toList)) =
      a :: i :: fuse (n :: ts.map (Lexeme.behind (x ++ " IS NOT ").toList r.toList)) := by
    rw [fuse_cons fun hk => absurd hk (ne_not_of_name ha),
      fuse_cons fun hk => absurd hk (ne_not_of_eq hi nofun)]
  rw [Expr.ofText, onText, tokenize_of_scans hscans, hfuseText]
  exact onTokens_operand _ _ ha hi hn hspells hfuse.symm hend rfl

/-- The parameter of the operand moves with the text. -/
theorem Expr.ofText_isNot_parameter : Expr.ofText "x IS NOT -:p" =
    .ok (.binary .isNot (.column (.bare "x"))
      (.unary .negate (.parameter (.named ':' "p") ⟨10, 1, 11⟩))) := by
  obtain ⟨c, e, c', hr, hrun, h⟩ := @run_of_any "-:p" _ (ofTier .relational)
    (fun c _ c' => c'.token = .endOfInput ∧ c'.later = [] ∧ c.current :: c.later =
      [⟨.symbol .minus, ⟨0, 1, 1⟩, 1⟩, ⟨.parameter (.named ':' "p"), ⟨1, 1, 2⟩, 3⟩, c'.current])
    (by decide +kernel)
  obtain ⟨hend, hlater, htokens⟩ := of_decide_eq_true h
  obtain ⟨ls, hc, hspells⟩ := spells_of_ofTier hr hrun
  have hls : ls = [⟨.symbol .minus, ⟨0, 1, 1⟩, 1⟩,
      ⟨.parameter (.named ':' "p"), ⟨1, 1, 2⟩, 3⟩] := by
    rw [hc, lexemes_prepend, hlater] at htokens
    exact List.append_cancel_right htokens
  subst hls
  have hparameter : Spells (.expr .sign) (.parameter (.named ':' "p") ⟨1, 1, 2⟩)
      [⟨.parameter (.named ':' "p"), ⟨1, 1, 2⟩, 3⟩] :=
    Spells.looser (@Spells.parameter (.named ':' "p") ⟨_, ⟨1, 1, 2⟩, 3⟩ rfl) (by decide)
  have hnegated : Spells (.expr .sign)
      (.unary .negate (.parameter (.named ':' "p") ⟨1, 1, 2⟩))
      [⟨.symbol .minus, ⟨0, 1, 1⟩, 1⟩, ⟨.parameter (.named ':' "p"), ⟨1, 1, 2⟩, 3⟩] :=
    .leading rfl hparameter fun hop => by cases hop
  obtain rfl := hspells.unique (hnegated.looser (by decide))
  have hread := @Expr.ofText_isNot "x" "-:p" (.identifier "x") "x" c c' _ rfl rfl hr hrun hend
  rw [if_neg fun hnull => by rw [hc] at hnull; cases hnull.1] at hread
  exact hread

/-- The tier of `<` reads `NULL < 5`, but behind `IS NOT` only the `NULL` of it is read. -/
theorem Expr.ofText_isNot_null_less : ∃ c c' e,
    tokenize "NULL < 5" = .ok (c.current :: c.later) ∧
      (ofTier .relational).run c = .ok e c' ∧ c'.token = .endOfInput ∧
      Expr.ofText "x IS NOT NULL < 5" =
        .error ⟨.unexpected .endOfExpression (.symbol .less), ⟨14, 1, 15⟩⟩ := by
  obtain ⟨c, e, c', hr, hrun, h⟩ := @run_of_any "NULL < 5" _ (ofTier .relational)
    (fun _ _ c' => c'.token = .endOfInput) (by decide +kernel)
  obtain ⟨error, herror, hfault⟩ := error_of_any (r := Expr.ofText "x IS NOT NULL < 5")
    (p := fun error => error = ⟨.unexpected .endOfExpression (.symbol .less), ⟨14, 1, 15⟩⟩)
    (by decide +kernel)
  exact ⟨c, c', e, hr, hrun, of_decide_eq_true h,
    herror.trans (congrArg Except.error (of_decide_eq_true hfault))⟩

end Texts

end RecordQuery
