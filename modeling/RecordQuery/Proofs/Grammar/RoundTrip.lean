import RecordQuery.Proofs.Grammar.Fusion
import RecordQuery.Proofs.Grammar.Print
import RecordQuery.Proofs.Grammar.Statement

/-! # Printing and reading back

A run of tokens writes out one expression at most (`Spells.unique`). What is printed is a spelling
(`spells_tokens`), so it is read back; so is every other spelling of the same tree, with as many
parentheses as one likes. -/

namespace RecordQuery.Grammar

open Parse Cursor Print

variable {t : Tier} {e e' l r : Expr} {ls : List Lexeme} {ts us : List Token}

/-- A token that stands at the start. -/
def bare (k : Token) : Lexeme := ⟨k, .start, 0⟩

/-- **A run of tokens writes out one expression at most.** -/
theorem Spells.unique (h : Spells (.expr t) e ls) (h' : Spells (.expr t) e' ls) : e = e' := by
  have hc : Closes t ⟨bare .endOfInput, []⟩ := closes_of_stops rfl
  have hread := ReadsExpr.closed h.reads (n := 13 * ls.length + 13)
    (by change 13 * (ls.length + 0) + 13 ≤ _; omega) hc
  have hread' := ReadsExpr.closed h'.reads (n := 13 * ls.length + 13)
    (by change 13 * (ls.length + 0) + 13 ≤ _; omega) hc
  rw [hread] at hread'
  cases hread'
  rfl

/-! ### Tokens without places -/

/-- A run of tokens that all stand at the start. -/
def place (ts : List Token) : List Lexeme := ts.map bare

@[simp] theorem place_nil : place [] = [] := rfl

@[simp] theorem place_cons (k : Token) : place (k :: ts) = bare k :: place ts := rfl

@[simp] theorem place_append : place (ts ++ us) = place ts ++ place us := List.map_append

theorem token_place (ts : List Token) : (place ts).map Lexeme.token = ts := by
  unfold place
  rw [List.map_map]
  exact List.map_id ts

theorem place_eq_cons {f : Lexeme} {rest : List Lexeme} (h : place ts = f :: rest) :
    f.start = .start := by
  cases ts with
  | nil => cases h
  | cons k ts => cases h; rfl

theorem begins_place {k : Token} : Begins k (place ts) ↔ ts.head? = some k := by
  cases ts with
  | nil => exact Iff.rfl
  | cons f ts => rw [place_cons, begins_cons, List.head?_cons, Option.some.injEq]; rfl

/-! ### Operands -/

/-- What is spelled at a tier may stand at every looser one. -/
theorem Spells.looser {t u : Tier} (h : Spells (.expr u) e ls) (ht : t.rank ≤ u.rank) :
    Spells (.expr t) e ls := by
  by_cases hp : t = .primary
  · have hu : u = t := by
      rw [hp] at ht ⊢
      cases u <;> first | rfl | exact absurd ht (by decide)
    rw [← hu]
    exact h
  · by_cases he : t.rank = u.rank
    · have hu : t = u := by cases t <;> cases u <;> first | rfl | cases he
      rw [hu]
      exact h
    · have hr := Tier.rank_tighter hp
      have hle := u.rank_le
      exact .loosen (h.looser (by omega))
termination_by 12 - t.rank
decreasing_by omega

theorem spells_parens (h : Spells (.expr .or) e (place ts)) :
    Spells (.expr t) e (place (parens ts)) := by
  have hg : Spells (.expr .primary) e (place (parens ts)) := by
    unfold parens
    rw [place_cons, place_append]
    exact .group rfl h rfl
  exact hg.looser t.rank_le

theorem spells_parensIf {p : Bool} (h : Spells (.expr t) e (place ts)) :
    Spells (.expr t) e (place (parensIf p ts)) := by
  cases p with
  | false => exact h
  | true => exact spells_parens (h.looser (Nat.zero_le _))

theorem spells_operand {own : Tier} (h : Spells (.expr own) e (place ts)) :
    Spells (.expr t) e (place (operand t own ts)) := by
  unfold operand parensIf
  by_cases hr : own.rank < t.rank
  · rw [decide_eq_true hr]
    exact spells_parens (h.looser (Nat.zero_le _))
  · rw [decide_eq_false hr]
    exact h.looser (by omega)

/-! ### Operators -/

theorem spells_null {f : Lexeme} (hf : f.token = .keyword .NULL) :
    Spells (.expr t) (.literal .null) [f] := by
  have h : Spells (.expr .primary) (.literal .null) [f] := .literal hf
  exact h.looser t.rank_le

/-- An operand of a sign that begins with `NULL` is no more than that. -/
theorem Spells.eq_null {k : Kind} {a : k.Value} (h : Spells k a ls)
    (hk : k = .expr .sign ∨ k = .expr .primary) (hb : Begins (.keyword .NULL) ls) :
    ∃ f, ls = [f] := by
  induction h with
  | literal => exact ⟨_, rfl⟩
  | parameter => exact ⟨_, rfl⟩
  | column h =>
    cases h with
    | bare => exact ⟨_, rfl⟩
    | table hl | database hl => rw [begins_cons] at hb; rw [hb] at hl; cases hl
  | group ho => rw [begins_cons, ho] at hb; cases hb
  | callStar hf | callNone hf | call hf => rw [begins_cons] at hb; rw [hb] at hf; cases hf
  | existsRow hx => rw [begins_cons, hx] at hb; cases hb
  | notNull => exact ⟨_, rfl⟩
  | leading ho => rw [begins_cons] at hb; rw [hb] at ho; cases ho
  | @loosen t _ _ _ ih =>
    refine ih ?_ hb
    obtain hk | hk := hk <;> (cases hk; exact Or.inr rfl)
  | @operator op => cases op <;> (obtain hk | hk := hk <;> cases hk)
  | _ => obtain hk | hk := hk <;> cases hk

theorem spells_leading {op : UnaryOp} (ho : UnaryOp.leading? op.token = some op)
    (h : Spells (.expr .sign) e (place ts)) :
    Spells (.expr .sign) (.unary op e) (place (leading op ts)) := by
  unfold leading
  by_cases hn : op = .not ∧ ts = [.keyword .NULL]
  · obtain ⟨rfl, rfl⟩ := hn
    rw [if_pos ⟨rfl, rfl⟩, h.unique (spells_null rfl)]
    exact .notNull rfl
  · rw [if_neg hn]
    refine .leading ho h fun hop hb => hn ⟨hop, ?_⟩
    have hb' : Begins (.keyword .NULL) (place ts) := hb
    obtain ⟨f, hf⟩ := h.eq_null (Or.inl rfl) hb'
    rw [hf, begins_cons] at hb'
    rw [← token_place ts, hf, List.map_singleton, hb']

theorem not_begins_parensIf {k : Token} {p : Bool} (hk : k ≠ .symbol .leftParen)
    (hp : ts.head? = some k → p = true) : ¬ Begins k (place (parensIf p ts)) := by
  rw [begins_place]
  intro hb
  cases p with
  | false => cases hp hb
  | true =>
    have hk' : Token.symbol .leftParen = k := Option.some.inj hb
    exact hk hk'.symm

theorem spells_is (hl : Spells (.expr .comparison) l ls)
    (hr : Spells (.expr .relational) r (place ts)) :
    Spells (.expr .comparison) (.binary .is l r) (ls ++ place (behind .is ts)) := by
  refine .is hl rfl (spells_parensIf hr) (not_begins_parensIf nofun fun h => ?_)
    (not_begins_parensIf nofun fun h => ?_)
  · exact decide_eq_true (Or.inl h)
  · exact decide_eq_true (Or.inr h)

theorem spells_isNot (hl : Spells (.expr .comparison) l ls)
    (hr : Spells (.expr .relational) r (place ts)) :
    Spells (.expr .comparison) (.binary .isNot l r) (ls ++ place (behind .isNot ts)) := by
  unfold behind
  by_cases hn : ts = [.keyword .NULL]
  · subst hn
    simp only [if_true]
    rw [hr.unique (spells_null rfl)]
    exact .isNotNull hl rfl rfl
  · simp only [if_neg hn]
    exact .isNot hl rfl rfl (spells_parensIf hr)
      (not_begins_parensIf nofun fun h => decide_eq_true h)

/-- An operator of two operands between them, as it is printed. -/
theorem spells_binary {op : BinaryOp} (hl : Spells (.expr op.tier) l ls)
    (hr : Spells (.expr op.tier.tighter) r (place ts)) (ha : op.admits r ts) :
    Spells (.expr op.tier) (.binary op l r) (ls ++ place (behind op ts)) := by
  by_cases h1 : op = .is
  · subst h1; exact spells_is hl hr
  by_cases h2 : op = .isNot
  · subst h2; exact spells_isNot hl hr
  obtain ⟨k, hk⟩ : ∃ k, op.token? = some k := by
    cases op <;> first | exact ⟨_, rfl⟩ | exact absurd rfl h1 | exact absurd rfl h2
  have hb : behind op ts = k :: ts := by
    unfold behind
    split
    · exact absurd rfl h1
    · exact absurd rfl h2
    · rw [hk]; rfl
  have hadmits : Admits op r (place ts) := by
    unfold Admits
    split
    · exact ha
    · exact ha
    · rw [begins_place]; exact ha
    · rw [begins_place]; exact ha
    · trivial
  rw [hb, place_cons]
  exact .operator hl hk hr hadmits

/-! ### Lists -/

/-- Items that are printed one by one are a list, unless there are none. -/
def SpellsAll (i : Item) (as : List i.Value) (tss : List (List Token)) : Prop :=
  (as = [] ∧ tss = []) ∨
    (as ≠ [] ∧ tss ≠ [] ∧ Spells (.list i) as (place (commas tss)))

theorem SpellsAll.cons {i : Item} {a : i.Value} {as : List i.Value} {tss : List (List Token)}
    (h : Spells (.item i) a (place ts)) (hs : SpellsAll i as tss) :
    SpellsAll i (a :: as) (ts :: tss) := by
  refine Or.inr ⟨List.cons_ne_nil _ _, List.cons_ne_nil _ _, ?_⟩
  obtain ⟨rfl, rfl⟩ | ⟨-, hne, hs⟩ := hs
  · exact .one h
  · obtain ⟨us, more, rfl⟩ := List.exists_cons_of_ne_nil hne
    have hcommas : place (commas (ts :: us :: more)) =
        place ts ++ bare (.symbol .comma) :: place (commas (us :: more)) := by
      rw [commas, place_append, place_cons]
      exact List.cons_ne_nil _ _
    rw [hcommas]
    exact .more h rfl hs

theorem SpellsAll.list {i : Item} {as : List i.Value} {tss : List (List Token)}
    (h : SpellsAll i as tss) (hne : as ≠ []) : Spells (.list i) as (place (commas tss)) := by
  obtain ⟨rfl, -⟩ | ⟨-, -, h⟩ := h
  · exact absurd rfl hne
  · exact h

/-! ### Small parts -/

theorem spellsRef_column {ref : ColumnRef}
    (h : ref.database.isSome = true → ref.table.isSome = true) :
    SpellsRef ref (place (Print.column ref)) := by
  obtain ⟨database, table, column⟩ := ref
  cases table with
  | none =>
    cases database with
    | none => exact .bare rfl
    | some d => cases h rfl
  | some t =>
    cases database with
    | none => exact .table rfl rfl rfl
    | some d => exact .database rfl rfl rfl rfl rfl

theorem spellsLabel_label (o : Option String) : SpellsLabel o (place (label o)) := by
  cases o with
  | none => exact .absent
  | some l => exact .marked rfl rfl

theorem spellsSource_source (o : Option FromClause) : SpellsSource o (place (source o)) := by
  obtain _ | ⟨database, name, l⟩ := o
  · exact .absent
  · cases database with
    | none => exact .bare rfl rfl (spellsLabel_label l)
    | some d => exact .qualified rfl rfl rfl rfl (spellsLabel_label l)

theorem spellsOption_option (o : Option SelectOption) : SpellsOption o (place (Print.option o)) := by
  obtain _ | ⟨_ | _⟩ := o
  · exact .absent
  · exact .distinct rfl
  · exact .all rfl

theorem spellsDirection_direction (o : Option Direction) :
    SpellsDirection o (place (direction o)) := by
  obtain _ | ⟨_ | _⟩ := o
  · exact .absent
  · exact .ascending rfl
  · exact .descending rfl

theorem spells_computed {name : Option String} (h : Spells (.expr .or) e (place ts)) :
    Spells (.item .column) (ResultColumn.expr e name (Caption.ofTokens ts) .start)
      (place (ts ++ label name)) := by
  obtain ⟨f, rest, hf, -⟩ := h.head_expr
  have hcaption : Caption.ofTokens ts = Caption.ofTokens ((f :: rest).map Lexeme.token) := by
    rw [← hf, token_place]
  rw [place_append, hcaption, hf, ← place_eq_cons hf]
  rw [hf] at h
  exact .computed h (spellsLabel_label name)

theorem spells_term {sense : Option Direction} (h : Spells (.expr .or) e (place ts)) :
    Spells (.item .term) (OrderingTerm.mk e sense .start) (place (ts ++ direction sense)) := by
  obtain ⟨f, rest, hf, -⟩ := h.head_expr
  rw [place_append, hf, ← place_eq_cons hf]
  rw [hf] at h
  exact .term h (spellsDirection_direction sense)

theorem leading?_token {op : UnaryOp} (h : op.isTrailing = false) :
    UnaryOp.leading? op.token = some op := by
  cases op <;> first | rfl | cases h

theorem trailing?_token {op : UnaryOp} (h : op.isTrailing = true) :
    UnaryOp.trailing? op.token = some op := by
  cases op <;> first | rfl | cases h

theorem spells_call {name : String} {args : List Expr} {tss : List (List Token)}
    (h : SpellsAll .expression args tss) :
    Spells (.expr .primary) (.call name args .start)
      (place (.quotedIdentifier name :: parens (commas tss))) := by
  obtain ⟨rfl, rfl⟩ | ⟨-, -, h⟩ := h
  · exact .callNone (f := bare (.quotedIdentifier name)) rfl rfl rfl
  · unfold parens
    rw [place_cons, place_cons, place_append]
    exact .call (f := bare (.quotedIdentifier name)) rfl rfl h rfl

theorem isStringLiteral_plain (e : Expr) :
    isStringLiteral e.plain = isStringLiteral e := by
  cases e <;> rfl

theorem admits_plain {op : BinaryOp} (h : op.admits r ts) : op.admits r.plain ts := by
  unfold BinaryOp.admits at h ⊢
  split
  · rw [isStringLiteral_plain]; exact h
  · rw [isStringLiteral_plain]; exact h
  · exact h
  · exact h
  · trivial

/-! ### Trees -/

mutual

/-- **What is printed is a spelling.** -/
theorem spells_tokens : ∀ e : Expr, e.Expressible → Spells (.expr e.tier) e.plain (place e.tokens)
  | .literal v, _ => .literal rfl
  | .column ref, h => .column (spellsRef_column h)
  | .parameter p _, _ => .parameter (l := bare (.parameter p)) rfl
  | .unary op e, h => by
    have he := spells_tokens e h
    rw [Expr.tokens, Expr.plain]
    cases ht : op.isTrailing with
    | false =>
      have htier : (Expr.unary op e).tier = .sign := by rw [Expr.tier, ht]; rfl
      rw [htier]
      exact spells_leading (leading?_token ht) (spells_operand he)
    | true =>
      have htier : (Expr.unary op e).tier = .nullTest := by rw [Expr.tier, ht]; rfl
      rw [htier, if_pos rfl, place_append]
      exact .trailing (o := bare op.token) (spells_operand he) (trailing?_token ht)
  | .binary op l r, h => by
    obtain ⟨hl, hr, ha⟩ := h
    rw [Expr.tokens, place_append]
    exact spells_binary (spells_operand (spells_tokens l hl))
      (spells_operand (spells_tokens r hr)) (admits_plain ha)
  | .between negated v low high, h => by
    obtain ⟨hv, hlow, hhigh⟩ := h
    rw [Expr.tokens, place_append, place_cons, place_append, place_cons]
    exact .between (spells_operand (spells_tokens v hv)) rfl
      (spells_operand (spells_tokens low hlow)) rfl (spells_operand (spells_tokens high hhigh))
  | .listed negated v items, h => by
    obtain ⟨hv, hne, hitems⟩ := h
    have hne' : plainExprs items ≠ [] := by
      cases items with
      | nil => exact absurd rfl hne
      | cons e es => exact List.cons_ne_nil _ _
    have hs := (spells_exprTokens items hitems).list hne'
    rw [Expr.tokens, parens, place_append, place_cons, place_cons, place_append]
    exact .listed (spells_operand (spells_tokens v hv)) rfl rfl hs rfl
  | .call name args _, h => spells_call (spells_exprTokens args h)
  | .callStar name _, _ => .callStar (f := bare (.quotedIdentifier name)) rfl rfl rfl rfl
  | .existsRow s _, h => by
    have hs := spells_statement s h
    rw [Expr.tokens, parens, place_cons, place_cons, place_append]
    exact .existsRow (x := bare (.keyword .EXISTS)) rfl rfl hs rfl

theorem spells_exprTokens : ∀ es : List Expr, expressibleExprs es →
    SpellsAll .expression (plainExprs es) (exprTokens es)
  | [], _ => Or.inl ⟨rfl, rfl⟩
  | e :: es, h =>
    .cons (.expression ((spells_tokens e h.1).looser (Nat.zero_le _))) (spells_exprTokens es h.2)

theorem spells_columnTokens : ∀ cs : List ResultColumn, expressibleColumns cs →
    SpellsAll .column (plainColumns cs) (columnTokens cs)
  | [], _ => Or.inl ⟨rfl, rfl⟩
  | .star _ :: cs, h => .cons (.star (l := bare (.symbol .star)) rfl) (spells_columnTokens cs h)
  | .qualifiedStar table _ :: cs, h =>
    .cons (.qualifiedStar (n := bare (.quotedIdentifier table)) rfl rfl rfl)
      (spells_columnTokens cs h)
  | .expr e _ _ _ :: cs, h =>
    .cons (spells_computed ((spells_tokens e h.1).looser (Nat.zero_le _)))
      (spells_columnTokens cs h.2)

theorem spells_termTokens : ∀ ts : List OrderingTerm, expressibleTerms ts →
    SpellsAll .term (plainTerms ts) (termTokens ts)
  | [], _ => Or.inl ⟨rfl, rfl⟩
  | ⟨e, _, _⟩ :: ts, h =>
    .cons (spells_term ((spells_tokens e h.1).looser (Nat.zero_le _))) (spells_termTokens ts h.2)

theorem spells_clause (w : Clause) : ∀ o : Option Expr, expressibleExpr? o →
    Spells (.clause w) (plainExpr? o) (place (tokensBehind (.keyword w.word) o))
  | none, _ => .absent
  | some e, h => .present rfl ((spells_tokens e h).looser (Nat.zero_le _))

theorem spells_limitTokens : ∀ o : Option LimitClause, expressibleLimit? o →
    Spells .limit (plainLimit? o) (place (limitTokens o))
  | none, _ => .unlimited
  | some ⟨count, none, _⟩, h => by
    have hcount := spells_tokens count h.1
    rw [limitTokens, tokensBehind, List.append_nil, place_cons]
    exact .count (w := bare (.keyword .LIMIT)) rfl (hcount.looser (Nat.zero_le _))
  | some ⟨count, some offset, _⟩, h => by
    have hcount := spells_tokens count h.1
    have hoffset := spells_tokens offset h.2
    rw [limitTokens, tokensBehind, place_cons, place_append, place_cons]
    exact .countOffset (w := bare (.keyword .LIMIT)) rfl (hcount.looser (Nat.zero_le _)) rfl
      (hoffset.looser (Nat.zero_le _))

theorem spells_statement : ∀ s : Statement, s.Expressible →
    Spells .statement s.plain (place s.tokens)
  | ⟨option, columns, source, condition, groupCondition, orderBy, limit⟩, h => by
    obtain ⟨hne, hcolumns, hcondition, hgroup, hterms, hlimit⟩ := h
    have hne' : plainColumns columns ≠ [] := by
      obtain _ | ⟨_ | _ | _, cs⟩ := columns
      · exact absurd rfl hne
      · exact List.cons_ne_nil _ _
      · exact List.cons_ne_nil _ _
      · exact List.cons_ne_nil _ _
    have hsort : Spells .sorting (plainTerms orderBy) (place (sorting (termTokens orderBy))) := by
      obtain ⟨he, hn⟩ | ⟨-, hn, hs⟩ := spells_termTokens orderBy hterms
      · rw [he, hn]
        exact .unsorted
      · rw [sorting, if_neg hn]
        exact .sorted rfl rfl hs
    rw [Statement.tokens, place_cons, place_append, place_append, place_append, place_append,
      place_append, place_append]
    exact .statement rfl (spellsOption_option option)
      ((spells_columnTokens columns hcolumns).list hne') (spellsSource_source source)
      (spells_clause .rows condition hcondition) (spells_clause .groups groupCondition hgroup) hsort
      (spells_limitTokens limit hlimit)

end

/-! ### Reading back -/

variable {stop : Lexeme}

theorem onTokens_append {α : Type} {p : Parse α} {a : α} {c : Cursor}
    (h : p.run (prepend ls ⟨stop, []⟩) = .ok a c) : p.onTokens (ls ++ [stop]) = .ok a := by
  unfold onTokens
  rw [ofTokens?_append]
  dsimp only
  rw [h]

theorem onTokens_expression (h : Spells (.expr .or) e ls) (hs : stop.token = .endOfInput) :
    wholeExpression.onTokens (ls ++ [stop]) = .ok e := by
  have hstops : stop.token.stops = true := by rw [hs]; rfl
  have hc : Closes .or ⟨stop, []⟩ := closes_of_stops hstops
  have hread : expression.run (prepend ls ⟨stop, []⟩) = .ok e ⟨stop, []⟩ :=
    suffices_expression (ls.length + 0) e ls _ h.reads (Nat.le_refl _) hc
  refine onTokens_append (c := ⟨stop, []⟩) ?_
  unfold wholeExpression
  rw [run_bind hread, run_get_bind, if_pos (by exact hs)]
  rfl

theorem onTokens_statement {s : Statement} {end? : List Lexeme} (h : Spells .statement s ls)
    (he : end? = [] ∨ ∃ semi : Lexeme, end? = [semi] ∧ semi.token = .symbol .semicolon)
    (hs : stop.token = .endOfInput) : query.onTokens (ls ++ end? ++ [stop]) = .ok s := by
  have hread : ∀ c : Cursor, Kind.statement.ends c.token = true →
      (select expression).run (c.prepend ls) = .ok s c :=
    fun c hc => h.reads expression c (suffices_expression _) hc
  have hne : stop.token ≠ .symbol .semicolon := by rw [hs]; nofun
  refine onTokens_append (c := ⟨stop, []⟩) ?_
  unfold query
  rw [prepend_append]
  obtain rfl | ⟨semi, rfl, hk⟩ := he
  · rw [prepend_nil, run_bind (hread _ (by change Kind.ends _ stop.token = true; rw [hs]; rfl)),
      run_bind (run_eat_ne (by exact hne)), run_get_bind, if_pos (by exact hs)]
    rfl
  · rw [prepend_cons, prepend_nil,
      run_bind (hread _ (by change Kind.ends _ semi.token = true; rw [hk]; rfl)),
      run_bind (run_eat hk), run_get_bind, if_pos (by exact hs)]
    rfl

/-- **Printing and reading back.** However a tree is spelled, with whatever parentheses more than it
needs, its words are read back as the tree; and every tree that can be expressed has a spelling,
the one with the fewest parentheses that is printed for it. -/
theorem parse_words :
    (∀ (e : Expr) (ls ws : List Lexeme) (stop : Lexeme), Spells (.expr .or) e ls →
      stop.token = .endOfInput → Words ws (ls ++ [stop]) →
      wholeExpression.onTokens (Source.fuse ws) = .ok e) ∧
    (∀ (s : Statement) (ls end? ws : List Lexeme) (stop : Lexeme), Spells .statement s ls →
      (end? = [] ∨ ∃ semi : Lexeme, end? = [semi] ∧ semi.token = .symbol .semicolon) →
      stop.token = .endOfInput → Words ws (ls ++ end? ++ [stop]) →
      query.onTokens (Source.fuse ws) = .ok s) ∧
    (∀ e : Expr, e.Expressible → Spells (.expr .or) e.plain (place e.tokens)) ∧
    ∀ s : Statement, s.Expressible → Spells .statement s.plain (place s.tokens) := by
  refine ⟨fun e ls ws stop h hs hw => ?_, fun s ls end? ws stop h he hs hw => ?_, fun e h => ?_,
    spells_statement⟩
  · have hsettled := h.settled.append (settled_single (ne_not_of_eq hs nofun))
    rw [fuse_words hsettled hw]
    exact onTokens_expression h hs
  · have hend : Settled false end? := by
      obtain rfl | ⟨semi, rfl, hk⟩ := he
      · rfl
      · exact settled_single (ne_not_of_eq hk nofun)
    have hsettled := (h.settled.append hend).append (settled_single (ne_not_of_eq hs nofun))
    rw [fuse_words hsettled hw]
    exact onTokens_statement h he hs
  · exact (spells_tokens e h).looser (Nat.zero_le _)

/-- The words of `"a" IS NOT NULL AND NOT ("a" NOT IN (TRUE))`, read back. -/
theorem parse_words_not :
    wholeExpression.onTokens (Source.fuse (place [.quotedIdentifier "a", .keyword .IS,
      .keyword .NOT, .keyword .NULL, .keyword .AND, .keyword .NOT, .symbol .leftParen,
      .quotedIdentifier "a", .keyword .NOT, .keyword .IN, .symbol .leftParen, .keyword .TRUE,
      .symbol .rightParen, .symbol .rightParen, .endOfInput])) =
      .ok (.binary .and (.binary .isNot (.column (.bare "a")) (.literal .null))
        (.unary .not (.listed true (.column (.bare "a")) [.literal (.boolean true)]))) := by
  refine parse_words.1 _ _ _ (bare .endOfInput)
    (parse_words.2.2.1 (.binary .and (.binary .isNot (.column (.bare "a")) (.literal .null))
      (.unary .not (.listed true (.column (.bare "a")) [.literal (.boolean true)]))) ?_) rfl ?_
  · exact ⟨⟨nofun, trivial, trivial⟩, ⟨nofun, List.cons_ne_nil _ _, trivial, trivial⟩, trivial⟩
  · exact .single nofun (.single nofun (.pair (n := .null) rfl rfl (.single nofun (.single nofun
      (.single nofun (.single nofun (.pair (n := .membership) rfl rfl (.single nofun
        (.single nofun (.single nofun (.single nofun (.single nofun .nil))))))))))))

end RecordQuery.Grammar
