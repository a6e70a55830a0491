import RecordQuery.Proofs.Grammar.Expression

/-! # Reading back statements

The parts of a statement stand in a fixed order, so each part ends where a token of a later part
stands: `Token.stage` numbers the tokens that parts begin with, and `Kind.ends` says which tokens
may follow a kind of tree. The readers of all parts are given a reader of expressions that suffices
for the tokens left. -/

namespace RecordQuery

/-- The place of the part of a statement that a token begins; 6 for tokens behind a statement, and 0
for all others. -/
def Token.stage : Token → Nat
  | .keyword .FROM => 1
  | .keyword .WHERE => 2
  | .keyword .HAVING => 3
  | .keyword .ORDER => 4
  | .keyword .LIMIT => 5
  | .symbol .rightParen | .symbol .semicolon | .endOfInput => 6
  | _ => 0

variable {k k' : Token}

theorem Token.ne_of_stage (h : k'.stage < k.stage) : k ≠ k' := by
  rintro rfl
  exact Nat.lt_irrefl _ h

theorem Token.stops_of_stage (h : 0 < k.stage) : k.stops = true := by
  unfold stage at h
  split at h <;> first | rfl | exact absurd h (Nat.lt_irrefl 0)

theorem Token.name?_of_stage (h : 0 < k.stage) : k.name? = none := by
  unfold stage at h
  split at h <;> first | rfl | exact absurd h (Nat.lt_irrefl 0)

namespace Grammar

open Parse Cursor

variable {expr : Parse Expr} {e : Expr} {ls rs : List Lexeme} {c : Cursor}

/-! ### What follows each kind -/

/-- Whether a token may stand behind a list of items. -/
def Item.ends : Item → Token → Bool
  | .expression, k => closing k
  | .column, k => decide (1 ≤ k.stage)
  | .term, k => decide (5 ≤ k.stage)

/-- Whether a token may stand behind an item. -/
def Item.parts (i : Item) (k : Token) : Bool := k == .symbol .comma || i.ends k

/-- The place of an optional part in a statement, or of the last part of a statement; 0 for other
kinds. -/
def Kind.stage : Kind → Nat
  | .clause w => (Token.keyword w.word).stage
  | .sorting => 4
  | .limit | .statement => 5
  | _ => 0

/-- Whether a token may stand behind a part of a statement, or behind a statement. -/
def Kind.ends (p : Kind) (k : Token) : Bool := decide (max p.stage 1 < k.stage)

theorem Item.stage_of_ends {i : Item} (h : i.ends k = true) : 0 < k.stage := by
  cases i with
  | expression => rw [closing_iff.mp h]; decide
  | column => exact of_decide_eq_true h
  | term => exact Nat.lt_of_lt_of_le (by decide) (of_decide_eq_true h)

theorem Item.ne_comma_of_ends {i : Item} (h : i.ends k = true) : k ≠ .symbol .comma :=
  Token.ne_of_stage (stage_of_ends h)

theorem Item.stops_of_parts {i : Item} (h : i.parts k = true) : k.stops = true := by
  unfold parts at h
  rw [Bool.or_eq_true, beq_iff_eq] at h
  obtain rfl | h := h
  · rfl
  · exact Token.stops_of_stage (stage_of_ends h)

theorem Item.parts_of_ends {i : Item} (h : i.ends k = true) : i.parts k = true := by
  unfold parts; rw [h, Bool.or_true]

theorem Item.parts_comma {i : Item} : i.parts (.symbol .comma) = true := rfl

/-- No name and no `AS` may stand behind an item. -/
theorem Item.noLabel_of_parts {i : Item} (h : i.parts k = true) :
    k.name? = none ∧ k ≠ .keyword .AS ∧ k ≠ .keyword .ASC ∧ k ≠ .keyword .DESC := by
  unfold parts at h
  rw [Bool.or_eq_true, beq_iff_eq] at h
  obtain rfl | h := h
  · exact ⟨rfl, nofun, nofun, nofun⟩
  · have hs := stage_of_ends h
    exact ⟨Token.name?_of_stage hs, Token.ne_of_stage hs, Token.ne_of_stage hs,
      Token.ne_of_stage hs⟩

theorem Kind.stage_of_ends {p : Kind} (h : p.ends k = true) : p.stage < k.stage ∧ 1 < k.stage := by
  have := of_decide_eq_true h
  omega

/-- The token behind an optional part is of a later one. -/
theorem Spells.stage_prepend {p : Kind} {a : p.Value} (h : Spells p a ls) (ho : p.optional = true)
    {j : Nat} (hp : j ≤ p.stage) (hc : j ≤ c.token.stage) : j ≤ (c.prepend ls).token.stage := by
  obtain ⟨-, rfl⟩ | ⟨l, rest, rfl, hl⟩ := h.head
  · exact hc
  · rw [prepend_cons, token_push]
    cases p with
    | clause w =>
      have hk : l.token = .keyword w.word := beq_iff_eq.mp hl
      rw [hk]
      exact hp
    | sorting =>
      have hk : l.token = .keyword .ORDER := beq_iff_eq.mp hl
      rw [hk]
      exact hp
    | limit =>
      have hk : l.token = .keyword .LIMIT := beq_iff_eq.mp hl
      rw [hk]
      exact hp
    | expr | item | list | statement => cases ho

/-! ### Labels and sources -/

theorem run_label {role : NameRole} {label : Option String} (h : SpellsLabel label ls)
    (ha : c.token ≠ .keyword .AS) (hn : c.token.name? = none) :
    (label? role).run (c.prepend ls) = .ok label c := by
  have hnone : ¬ c.token.name?.isSome = true := by rw [hn]; exact Bool.false_ne_true
  unfold label?
  cases h with
  | absent =>
    rw [prepend_nil, run_bind_false (run_eatKeyword_ne ha), run_get_bind, if_neg hnone]
    rfl
  | @plain l _ h =>
    have hk : l.token ≠ .keyword .AS := by rintro hk; rw [hk] at h; cases h
    have hs : l.token.name?.isSome = true := by rw [h]; rfl
    rw [prepend_cons, prepend_nil, run_bind_false (run_eatKeyword_ne (by exact hk)), run_get_bind,
      if_pos (by exact hs), run_bind (run_name h)]
    rfl
  | marked hk h =>
    rw [prepend_cons, prepend_cons, prepend_nil, run_bind_true (run_eatKeyword hk),
      run_bind (run_name h)]
    rfl

theorem run_clause {α : Type} {w : Keyword} {body : Parse α} {a : α} {l : Lexeme} {c' : Cursor}
    (hw : l.token = .keyword w) (h : body.run c = .ok a c') :
    (clause? w body).run (c.push l) = .ok (some a) c' := by
  unfold clause?
  rw [run_bind_true (run_eatKeyword hw), run_bind h]
  rfl

theorem run_clause_none {α : Type} {w : Keyword} {body : Parse α} (hw : c.token ≠ .keyword w) :
    (clause? w body).run c = .ok none c := by
  unfold clause?
  rw [run_bind_false (run_eatKeyword_ne hw)]
  rfl

theorem stops_prepend_label {label : Option String} (h : SpellsLabel label ls)
    (hc : c.token.stops = true) : (c.prepend ls).token.stops = true := by
  cases h with
  | absent => exact hc
  | plain h => exact Token.stops_of_name h
  | marked ha => rw [prepend_cons, token_push, ha]; rfl

theorem ne_dot_of_stops (h : k.stops = true) : k ≠ .symbol .dot := by
  rintro rfl
  cases h

theorem run_source {source : Option FromClause} (h : SpellsSource source ls)
    (hc : 1 < c.token.stage) :
    (clause? .FROM fromClause).run (c.prepend ls) = .ok source c := by
  have hpos : 0 < c.token.stage := Nat.lt_of_succ_lt hc
  have hlabel : ∀ {label : Option String} {as : List Lexeme}, SpellsLabel label as →
      (label? .sourceLabel).run (c.prepend as) = .ok label c := fun ha =>
    run_label ha (Token.ne_of_stage hpos) (Token.name?_of_stage hpos)
  cases h with
  | absent => exact run_clause_none (Token.ne_of_stage hc)
  | bare hf hl h =>
    have hdot := ne_dot_of_stops (stops_prepend_label h (Token.stops_of_stage hpos))
    rw [prepend_cons, prepend_cons]
    refine run_clause hf ?_
    unfold fromClause
    rw [run_bind (run_name hl), run_bind_false (run_eat_ne hdot), run_bind (hlabel h)]
    rfl
  | qualified hf hl hd hm h =>
    rw [prepend_cons, prepend_cons, prepend_cons, prepend_cons]
    refine run_clause hf ?_
    unfold fromClause
    rw [run_bind (run_name hl), run_bind_true (run_eat hd), run_bind (run_name hm),
      run_bind (hlabel h)]
    rfl

theorem stage_source {source : Option FromClause} (h : SpellsSource source ls)
    (hc : 1 ≤ c.token.stage) : 1 ≤ (c.prepend ls).token.stage := by
  cases h with
  | absent => exact hc
  | bare hf | qualified hf => rw [prepend_cons, token_push, hf]; decide

/-! ### Items -/

/-- The reader of the trees of an item, given the reader of expressions. -/
def Item.reader : (i : Item) → Parse Expr → Parse i.Value
  | .expression => id
  | .column => resultColumn
  | .term => orderingTerm

theorem later_prepend {l d : Lexeme} : (c.prepend (l :: ls)).later[1]? = some d →
    ∃ m rest, (c.prepend (l :: ls)).later = m :: d :: rest := by
  intro h
  rw [prepend_cons] at h ⊢
  cases hl : ((c.prepend ls).push l).later with
  | nil => rw [hl] at h; cases h
  | cons m rest =>
    rw [hl] at h
    cases rest with
    | nil => cases h
    | cons d' rest =>
      rw [List.getElem?_cons_succ, List.getElem?_cons_zero, Option.some.injEq] at h
      exact ⟨m, rest, by rw [h]⟩

/-- The test for `table.*` fails in front of an expression. -/
theorem not_star {l : Lexeme} (h : Spells (.expr .or) e (l :: ls))
    (hc : c.token.stops = true) :
    ¬ ((c.prepend (l :: ls)).token.name?.isSome = true ∧
      (c.prepend (l :: ls)).peek = .symbol .dot ∧
      ((c.prepend (l :: ls)).later[1]?.map Lexeme.token) = some (.symbol .star)) := by
  rintro ⟨hname, hdot, hstar⟩
  obtain ⟨s, hs, hst⟩ := Option.map_eq_some_iff.mp hstar
  obtain ⟨d, rest, hl⟩ := later_prepend hs
  have hall := lexemes_prepend (l :: ls) c
  have hcur : (c.prepend (l :: ls)).current = l := rfl
  rw [hl, hcur] at hall
  refine h.noStar c.later (ne_dot_of_stops hc) l d s rest hall.symm
    hname ?_ hst
  unfold peek at hdot
  rw [hl] at hdot
  exact hdot

theorem reads_star {l : Lexeme} (h : l.token = .symbol .star) :
    ReadsWith resultColumn Item.column.parts (.star l.start) [l] := by
  intro expr c _ _
  unfold resultColumn
  rw [run_get_bind, prepend_cons, run_bind_true (run_eat h)]
  rfl

theorem reads_qualifiedStar {n d s : Lexeme} {table : String} (hn : n.token.name? = some table)
    (hd : d.token = .symbol .dot) (hs : s.token = .symbol .star) :
    ReadsWith resultColumn Item.column.parts (.qualifiedStar table n.start) [n, d, s] := by
  intro expr c _ _
  have hname : n.token.name?.isSome = true := by rw [hn]; rfl
  have hthird : ((c.prepend [n, d, s]).later[1]?.map Lexeme.token) = some (.symbol .star) := by
    change some s.token = _
    rw [hs]
  unfold resultColumn
  rw [run_get_bind, run_bind_false (run_eat_ne (by exact ne_star_of_name hn)),
    if_pos ⟨hname, hd, hthird⟩, prepend_cons, run_bind (run_name hn)]
  rfl

theorem reads_computed {l : Lexeme} {as : List Lexeme} {label : Option String}
    (hs : Spells (.expr .or) e (l :: ls)) (h : ReadsExpr .or e (l :: ls))
    (ha : SpellsLabel label as) :
    ReadsWith resultColumn Item.column.parts
      (.expr e label (Caption.ofTokens ((l :: ls).map Lexeme.token)) l.start) (l :: ls ++ as) := by
  intro expr c hexpr hc
  obtain ⟨hn, hAS, -, -⟩ := Item.noLabel_of_parts hc
  have hstops := stops_prepend_label ha (Item.stops_of_parts hc)
  have hopens : l.token ≠ .symbol .star := by
    obtain ⟨_, _, he, ho⟩ := hs.head_expr
    cases he
    rintro hk
    rw [hk] at ho
    cases ho
  have hread := hexpr e (l :: ls) (c.prepend as) h
    (by rw [size_prepend, List.length_append]; omega) (closes_of_stops hstops)
  unfold resultColumn
  rw [prepend_append, run_get_bind, run_bind_false (run_eat_ne (by exact hopens)),
    if_neg (not_star hs hstops), run_bind hread, run_get_bind, upTo_prepend,
    run_bind (run_label ha hAS hn)]
  rfl

theorem reads_term {l : Lexeme} {ds : List Lexeme} {direction : Option Direction}
    (h : ReadsExpr .or e (l :: ls)) (hd : SpellsDirection direction ds) :
    ReadsWith orderingTerm Item.term.parts ⟨e, direction, l.start⟩ (l :: ls ++ ds) := by
  intro expr c hexpr hc
  obtain ⟨-, -, hasc, hdesc⟩ := Item.noLabel_of_parts hc
  have hstops : (c.prepend ds).token.stops = true := by
    cases hd with
    | absent => exact Item.stops_of_parts hc
    | ascending hk | descending hk => rw [prepend_cons, token_push, hk]; rfl
  have hread := hexpr e (l :: ls) (c.prepend ds) h
    (by rw [size_prepend, List.length_append]; omega) (closes_of_stops hstops)
  unfold orderingTerm
  rw [prepend_append, run_get_bind, run_bind hread]
  cases hd with
  | absent =>
    rw [prepend_nil, run_bind_false (run_eatKeyword_ne hasc),
      run_bind_false (run_eatKeyword_ne hdesc)]
    rfl
  | @ascending d hk =>
    rw [prepend_cons d [], run_bind_true (run_eatKeyword hk)]
    rfl
  | @descending d hk =>
    have hne : d.token ≠ .keyword .ASC := by rw [hk]; nofun
    rw [prepend_cons d [], run_bind_false (run_eatKeyword_ne (by exact hne)),
      run_bind_true (run_eatKeyword hk)]
    rfl

/-! ### Lists -/

/-- The reader of at most `n + 1` items turns a run of tokens into a list, if the tokens up to the
end are no more than that. -/
def ReadsList (i : Item) (as : List i.Value) (ls : List Lexeme) : Prop :=
  ∀ n expr c, Suffices expr (ls.length + c.size) → i.ends c.token = true →
    ls.length + c.size ≤ n + 1 → (commaList (i.reader expr) n).run (c.prepend ls) = .ok as c

theorem ReadsList.one {i : Item} {a : i.Value} (h : ReadsWith i.reader i.parts a ls) :
    ReadsList i [a] ls := by
  intro n expr c hexpr hc _
  have hread := h expr c hexpr (Item.parts_of_ends hc)
  cases n with
  | zero =>
    unfold commaList
    rw [run_bind hread]
    rfl
  | succ n =>
    unfold commaList
    rw [run_bind hread, run_bind_false (run_eat_ne (Item.ne_comma_of_ends hc))]
    rfl

theorem Suffices.mono {k k' : Nat} (h : Suffices expr k) (hk : k' ≤ k) : Suffices expr k' :=
  fun e ls c he hl hc => h e ls c he (Nat.le_trans hl hk) hc

theorem ReadsList.more {i : Item} {a : i.Value} {as : List i.Value} {p : Lexeme}
    (h : ReadsWith i.reader i.parts a ls) (hls : ls ≠ []) (hp : p.token = .symbol .comma)
    (hs : ReadsList i as rs) : ReadsList i (a :: as) (ls ++ p :: rs) := by
  intro n expr c hexpr hc hn
  have hpos : 0 < ls.length := List.length_pos_iff.mpr hls
  rw [List.length_append, List.length_cons] at hexpr hn
  obtain ⟨n, rfl⟩ : ∃ m, n = m + 1 := ⟨n - 1, by omega⟩
  have hfirst := h expr (c.prepend (p :: rs))
    (hexpr.mono (by rw [size_prepend, List.length_cons]; omega))
    (by rw [prepend_cons, token_push, hp]; exact Item.parts_comma)
  have hrest := hs n expr c (hexpr.mono (by omega)) hc (by omega)
  rw [prepend_append, commaList, run_bind hfirst, prepend_cons, run_bind_true (run_eat hp),
    run_bind hrest]
  rfl

theorem ReadsList.separated {i : Item} {as : List i.Value} (h : ReadsList i as ls) :
    ReadsWith (fun expr => separated (i.reader expr)) i.ends as ls := by
  intro expr c hexpr hc
  have hs : (c.prepend ls).later.length = ls.length + c.size := size_prepend ls c
  unfold Parse.separated
  rw [run_get_bind, hs]
  exact h _ expr c hexpr hc (Nat.le_succ _)

/-! ### Limits and statements -/

/-- The reader of a limit, if there is one. -/
def limit? (expr : Parse Expr) : Parse (Option LimitClause) := do
  if (← get).token = .keyword .LIMIT then some <$> limitClause expr else pure none

/-- The reader of the terms of `ORDER BY`, if there are any. -/
def sorting? (expr : Parse Expr) : Parse (Option (List OrderingTerm)) :=
  clause? .ORDER do
    expectKeyword .BY
    separated (orderingTerm expr)

theorem reads_clause {w : Clause} {l : Lexeme} (hw : l.token = .keyword w.word)
    (h : ReadsExpr .or e ls) :
    ReadsWith (clause? w.word) (Kind.clause w).ends (some e) (l :: ls) := by
  intro expr c hexpr hc
  have hpos := (Kind.stage_of_ends hc).2
  have hread := hexpr e ls c h (by rw [List.length_cons]; omega)
    (closes_of_stops (Token.stops_of_stage (by omega)))
  rw [prepend_cons]
  exact run_clause hw hread

theorem reads_sorting {o b : Lexeme} {terms : List OrderingTerm} (ho : o.token = .keyword .ORDER)
    (hb : b.token = .keyword .BY) (h : ReadsList .term terms ls) :
    ReadsWith sorting? Kind.sorting.ends (some terms) (o :: b :: ls) := by
  intro expr c hexpr hc
  have hstage : 5 ≤ c.token.stage := (Kind.stage_of_ends hc).1
  have hread := h.separated expr c
    (hexpr.mono (by rw [List.length_cons, List.length_cons]; omega)) (decide_eq_true hstage)
  rw [prepend_cons, prepend_cons]
  refine run_clause ho ?_
  rw [run_bind (run_expectKeyword hb)]
  exact hread

theorem run_limit {l : Lexeme} {limit : LimitClause} {c' : Cursor} (hw : l.token = .keyword .LIMIT)
    (h : (limitClause expr).run (c.push l) = .ok limit c') :
    (limit? expr).run (c.push l) = .ok (some limit) c' := by
  unfold limit?
  rw [run_get_bind, token_push, if_pos hw]
  exact run_map h

theorem reads_count {w : Lexeme} (hw : w.token = .keyword .LIMIT) (h : ReadsExpr .or e ls) :
    ReadsWith limit? Kind.limit.ends (some ⟨e, none, w.start⟩) (w :: ls) := by
  intro expr c hexpr hc
  have hpos := (Kind.stage_of_ends hc).2
  have hread := hexpr e ls c h (by rw [List.length_cons]; omega)
    (closes_of_stops (Token.stops_of_stage (by omega)))
  have hoffset : c.token ≠ .keyword .OFFSET := Token.ne_of_stage (Nat.lt_of_succ_lt hpos)
  have hcomma : c.token ≠ .symbol .comma := Token.ne_of_stage (Nat.lt_of_succ_lt hpos)
  rw [prepend_cons]
  refine run_limit hw ?_
  unfold limitClause
  rw [run_get_bind, run_bind (run_expectKeyword hw), run_bind hread,
    run_bind_false (run_eatKeyword_ne hoffset), run_bind_false (run_eat_ne hcomma)]
  rfl

theorem reads_countOffset {w o : Lexeme} {f : Expr} (hw : w.token = .keyword .LIMIT)
    (h : ReadsExpr .or e ls) (ho : o.token = .keyword .OFFSET) (hf : ReadsExpr .or f rs) :
    ReadsWith limit? Kind.limit.ends (some ⟨e, some f, w.start⟩) (w :: (ls ++ o :: rs)) := by
  intro expr c hexpr hc
  have hpos := (Kind.stage_of_ends hc).2
  simp only [List.length_cons, List.length_append] at hexpr
  have hcount := hexpr e ls (c.prepend (o :: rs)) h
    (by rw [size_prepend, List.length_cons]; omega)
    (closes_of_stops (by rw [prepend_cons, token_push, ho]; rfl))
  have hskip := hexpr f rs c hf (by omega) (closes_of_stops (Token.stops_of_stage (by omega)))
  rw [prepend_cons, prepend_append]
  refine run_limit hw ?_
  unfold limitClause
  rw [run_get_bind, run_bind (run_expectKeyword hw), run_bind hcount, prepend_cons,
    run_bind_true (run_eatKeyword ho), run_bind hskip]
  rfl

theorem reads_offsetCount {w p : Lexeme} {f : Expr} (hw : w.token = .keyword .LIMIT)
    (h : ReadsExpr .or f ls) (hp : p.token = .symbol .comma) (he : ReadsExpr .or e rs) :
    ReadsWith limit? Kind.limit.ends (some ⟨e, some f, w.start⟩) (w :: (ls ++ p :: rs)) := by
  intro expr c hexpr hc
  have hpos := (Kind.stage_of_ends hc).2
  have hoffset : p.token ≠ .keyword .OFFSET := by rw [hp]; nofun
  simp only [List.length_cons, List.length_append] at hexpr
  have hskip := hexpr f ls (c.prepend (p :: rs)) h
    (by rw [size_prepend, List.length_cons]; omega)
    (closes_of_stops (by rw [prepend_cons, token_push, hp]; rfl))
  have hcount := hexpr e rs c he (by omega) (closes_of_stops (Token.stops_of_stage (by omega)))
  rw [prepend_cons, prepend_append]
  refine run_limit hw ?_
  unfold limitClause
  rw [run_get_bind, run_bind (run_expectKeyword hw), run_bind hskip, prepend_cons,
    run_bind_false (run_eatKeyword_ne (by exact hoffset)), run_bind_true (run_eat hp),
    run_bind hcount]
  rfl

theorem run_option {option : Option SelectOption} (h : SpellsOption option ls)
    (hd : c.token ≠ .keyword .DISTINCT) (ha : c.token ≠ .keyword .ALL) :
    selectOption.run (c.prepend ls) = .ok option c := by
  unfold selectOption
  cases h with
  | absent =>
    rw [prepend_nil, run_bind_false (run_eatKeyword_ne hd), run_bind_false (run_eatKeyword_ne ha)]
    rfl
  | distinct hk =>
    rw [prepend_cons, run_bind_true (run_eatKeyword hk)]
    rfl
  | @all l hk =>
    have hne : l.token ≠ .keyword .DISTINCT := by rw [hk]; nofun
    rw [prepend_cons, run_bind_false (run_eatKeyword_ne (by exact hne)),
      run_bind_true (run_eatKeyword hk)]
    rfl

theorem run_refuseCompound (h : 0 < c.token.stage) : refuseCompound.run c = .ok () c := by
  unfold refuseCompound
  rw [run_get_bind]
  split
  case h_5 => rfl
  all_goals
    next hk =>
    rw [hk] at h
    exact absurd h (Nat.lt_irrefl 0)


/-- A statement is read part by part. -/
theorem run_select {s : Lexeme} {c₁ c₂ c₃ c₄ c₅ c₆ c₇ : Cursor} {option : Option SelectOption}
    {columns : List ResultColumn} {source : Option FromClause}
    {condition groupCondition : Option Expr} {orderBy : Option (List OrderingTerm)}
    {limit : Option LimitClause} (hs : s.token = .keyword .SELECT)
    (ho : selectOption.run c = .ok option c₁)
    (hc : (separated (resultColumn expr)).run c₁ = .ok columns c₂)
    (hf : (clause? .FROM fromClause).run c₂ = .ok source c₃)
    (hw : (clause? .WHERE expr).run c₃ = .ok condition c₄) (hg : c₄.token ≠ .keyword .GROUP)
    (hh : (clause? .HAVING expr).run c₄ = .ok groupCondition c₅) (hr : 0 < c₅.token.stage)
    (hb : (sorting? expr).run c₅ = .ok orderBy c₆) (hm : (limit? expr).run c₆ = .ok limit c₇) :
    (select expr).run (c.push s) =
      .ok ⟨option, columns, source, condition, groupCondition, orderBy.getD [], limit⟩ c₇ := by
  unfold sorting? at hb
  unfold limit? at hm
  rw [run_get_bind] at hm
  unfold select
  rw [run_bind (run_expectKeyword hs), run_bind ho, run_bind hc, run_bind hf, run_bind hw,
    run_get_bind, if_neg hg, run_bind hh, run_bind (run_refuseCompound hr), run_bind hb,
    run_get_bind]
  split at hm
  · next hk => rw [if_pos hk, run_bind hm]; rfl
  · next hk => rw [if_neg hk, run_bind hm]; rfl

theorem ReadsWith.mono {α : Type} {p : Parse Expr → Parse α} {ends ends' : Token → Bool} {a : α}
    (h : ReadsWith p ends a ls) (he : ∀ k, ends' k = true → ends k = true) :
    ReadsWith p ends' a ls :=
  fun expr c hexpr hc => h expr c hexpr (he _ hc)

theorem statement_ends_of_closing (h : closing k = true) : Kind.statement.ends k = true := by
  rw [closing_iff.mp h]; decide

/-! ### All kinds -/

/-- The reader of a kind turns a run of tokens into a tree of the kind. -/
def Reads : (p : Kind) → p.Value → List Lexeme → Prop
  | .expr t, e, ls => ReadsExpr t e ls
  | .item i, a, ls => ReadsWith i.reader i.parts a ls
  | .list i, as, ls => ReadsList i as ls
  | .clause w, condition, ls => ReadsWith (clause? w.word) (Kind.clause w).ends condition ls
  | .sorting, terms, ls =>
    ∃ o : Option (List OrderingTerm), o.getD [] = terms ∧ ReadsWith sorting? Kind.sorting.ends o ls
  | .limit, limit, ls => ReadsWith limit? Kind.limit.ends limit ls
  | .statement, s, ls => ReadsWith select Kind.statement.ends s ls

theorem reads_statement {s : Lexeme} {option : Option SelectOption} {columns : List ResultColumn}
    {source : Option FromClause} {condition groupCondition : Option Expr}
    {orderBy : List OrderingTerm} {limit : Option LimitClause}
    {os cs fs ws hs bs ms : List Lexeme} (h : s.token = .keyword .SELECT)
    (ho : SpellsOption option os) (hc : Spells (.list .column) columns cs)
    (hf : SpellsSource source fs) (hw : Spells (.clause .rows) condition ws)
    (hh : Spells (.clause .groups) groupCondition hs) (hb : Spells .sorting orderBy bs)
    (hm : Spells .limit limit ms) (hcols : Reads (.list .column) columns cs)
    (hcond : Reads (.clause .rows) condition ws)
    (hgroup : Reads (.clause .groups) groupCondition hs) (hsort : Reads .sorting orderBy bs)
    (hlimit : Reads .limit limit ms) :
    Reads .statement ⟨option, columns, source, condition, groupCondition, orderBy, limit⟩
      (s :: (os ++ (cs ++ (fs ++ (ws ++ (hs ++ (bs ++ ms))))))) := by
  intro expr c hexpr hend
  obtain ⟨terms, rfl, hsort⟩ := hsort
  simp only [List.length_cons, List.length_append] at hexpr
  simp only [prepend_cons, prepend_append]
  -- the token behind each part, from the last part to the first
  have h6 : 6 ≤ c.token.stage := (Kind.stage_of_ends hend).1
  have h5 : 5 ≤ (c.prepend ms).token.stage := hm.stage_prepend rfl (by decide) (by omega)
  have h4 : 4 ≤ ((c.prepend ms).prepend bs).token.stage :=
    hb.stage_prepend rfl (by decide) (by omega)
  have h3 : 3 ≤ (((c.prepend ms).prepend bs).prepend hs).token.stage :=
    hh.stage_prepend rfl (by decide) (by omega)
  have h2 : 2 ≤ ((((c.prepend ms).prepend bs).prepend hs).prepend ws).token.stage :=
    hw.stage_prepend rfl (by decide) (by omega)
  have h1 := stage_source hf (Nat.lt_of_succ_lt h2)
  obtain ⟨f, rest, rfl, hopens⟩ := hc.head_list
  refine run_select h (run_option ho ?_ ?_) (hcols.separated expr _ (hexpr.mono ?_) ?_)
    (run_source hf h2) (hcond expr _ (hexpr.mono ?_) ?_)
    (Token.ne_of_stage (Nat.lt_of_lt_of_le (by decide) h3)) (hgroup expr _ (hexpr.mono ?_) ?_)
    (Nat.lt_of_lt_of_le (by decide) h4) (hsort expr _ (hexpr.mono ?_) ?_)
    (hlimit expr c (hexpr.mono ?_) hend)
  · rintro hk; rw [prepend_cons, token_push] at hk; rw [hk] at hopens; cases hopens
  · rintro hk; rw [prepend_cons, token_push] at hk; rw [hk] at hopens; cases hopens
  · simp only [size_prepend]; omega
  · exact decide_eq_true h1
  · simp only [size_prepend]; omega
  · exact decide_eq_true h3
  · simp only [size_prepend]; omega
  · exact decide_eq_true h4
  · simp only [size_prepend]; omega
  · exact decide_eq_true h5
  · omega

/-- **Reading back.** What a run of tokens writes out is what the reader of the kind makes of it. -/
theorem Spells.reads {p : Kind} {a : p.Value} (h : Spells p a ls) : Reads p a ls := by
  induction h with
  | literal h => exact ReadsExpr.literal h
  | parameter h => exact ReadsExpr.parameter h
  | column h => exact ReadsExpr.column h
  | group ho _ hc ih => exact ReadsExpr.group ho ih hc
  | callStar hf ho hs hc => exact ReadsExpr.callStar hf ho hs hc
  | callNone hf ho hc => exact ReadsExpr.callNone hf ho hc
  | call hf ho h hc ih => exact ReadsExpr.call hf ho h (ReadsList.separated ih) hc
  | existsRow hx ho _ hc ih =>
    exact ReadsExpr.existsRow hx ho (ReadsWith.mono ih fun _ => statement_ends_of_closing) hc
  | notNull h => exact ReadsExpr.notNull h
  | leading ho _ _ ih => exact ReadsExpr.leading ho ih
  | trailing _ ho ih => exact ReadsExpr.trailing ih ho
  | operator _ ho hr ha ihl ihr =>
    exact ReadsExpr.operator ihl ho ihr (hr.ne_nil rfl) ha
  | is _ hi hr hn hn' ihl ihr =>
    exact ReadsExpr.is ihl hi ihr (hr.ne_nil rfl) hn hn'
  | isNot _ hi hn _ _ ihl ihr => exact ReadsExpr.isNot ihl hi hn ihr
  | isNotNull _ hi hn ihl => exact ReadsExpr.isNotNull ihl hi hn
  | between _ hb _ ha _ ihv ihlo ihhi => exact ReadsExpr.between ihv hb ihlo ha ihhi
  | listed _ hi ho _ hc ihv ih => exact ReadsExpr.listed ihv hi ho (ReadsList.separated ih) hc
  | loosen h ih => exact ReadsExpr.loosen h ih
  | expression _ ih =>
    intro expr c hexpr hc
    exact hexpr _ _ c ih (Nat.le_refl _) (closes_of_stops (Item.stops_of_parts hc))
  | star h => exact reads_star h
  | qualifiedStar hn hd hs => exact reads_qualifiedStar hn hd hs
  | computed h ha ih => exact reads_computed h ih ha
  | term _ hd ih => exact reads_term ih hd
  | one _ ih => exact ReadsList.one ih
  | more h hc _ ih ihs => exact ReadsList.more ih (h.ne_nil rfl) hc ihs
  | absent =>
    intro expr c _ hc
    exact run_clause_none (Token.ne_of_stage (Kind.stage_of_ends hc).1)
  | present hw _ ih => exact reads_clause hw ih
  | unsorted =>
    refine ⟨none, rfl, fun expr c _ hc => ?_⟩
    exact run_clause_none (Token.ne_of_stage (Kind.stage_of_ends hc).1)
  | sorted ho hb _ ih => exact ⟨some _, rfl, reads_sorting ho hb ih⟩
  | unlimited =>
    intro expr c _ hc
    have hne : c.token ≠ .keyword .LIMIT := Token.ne_of_stage (Kind.stage_of_ends hc).1
    unfold limit?
    rw [prepend_nil, run_get_bind, if_neg hne]
    rfl
  | count hw _ ih => exact reads_count hw ih
  | countOffset hw _ ho _ ih ihf => exact reads_countOffset hw ih ho ihf
  | offsetCount hw _ hc _ ih ihf => exact reads_offsetCount hw ih hc ihf
  | statement h ho hc hf hw hh hb hm ihc ihw ihh ihb ihm =>
    exact reads_statement h ho hc hf hw hh hb hm ihc ihw ihh ihb ihm

end Grammar

end RecordQuery
