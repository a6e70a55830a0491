import RecordQuery.Proofs.Grammar.Head

/-! # Reading back expressions

`ReadsExpr t e ls` says that the reader of tier `t` turns `ls` into `e` and is then about to look
for one more step behind it. What it finds there is left open, so that an expression can grow to the
left: `ReadsExpr.step` takes one step more. Where nothing continues the expression the reader is
done (`ReadsExpr.closed`).

The number of nested calls is bounded by the tokens in front of the end, thirteen for each of them:
a reader of tier `t` is given at least `13 * k + 13 - t.rank` for `k` tokens. -/

namespace RecordQuery.Grammar

open Parse Cursor

variable {t : Tier} {e l r : Expr} {ls rs : List Lexeme} {c : Cursor} {n : Nat}

/-- The reader of a tier turns a run of tokens into an expression, and then looks for a step. -/
def ReadsExpr (t : Tier) (e : Expr) (ls : List Lexeme) : Prop :=
  ∀ (n : Nat) (c : Cursor), 13 * (ls.length + c.size) + 12 ≤ n + t.rank → Follows t c →
    ∃ m, c.size ≤ m ∧ (tierWithin select (n + 1) t).run (c.prepend ls) =
      (extend (tierWithin select n) t m e).run c

theorem tier?_ne (k : Token) (b : Bool) : k.tier? b ≠ some .sign ∧ k.tier? b ≠ some .primary := by
  unfold Token.tier?
  cases b <;> split <;> simp

theorem step?_sign : step? .sign c = none := step?_eq_none (tier?_ne _ _).1

theorem step?_primary : step? .primary c = none := step?_eq_none (tier?_ne _ _).2

theorem run_extend_none (sub : Tier → Parse Expr) (m : Nat) (h : step? t c = none) :
    (extend sub t m e).run c = .ok e c := by
  cases m with
  | zero => rfl
  | succ m => unfold extend; rw [run_get_bind, h]; rfl

theorem run_extend_some {sub : Tier → Parse Expr} {m : Nat} {s : Step} {c' : Cursor}
    (h : step? t c = some s) (hs : (takeStep sub t l s).run c = .ok e c') :
    (extend sub t (m + 1) l).run c = (extend sub t m e).run c' := by
  rw [extend, run_get_bind, h]
  exact run_bind hs

/-- **Where nothing continues it**, the reader ends behind the expression. -/
theorem ReadsExpr.closed (h : ReadsExpr t e ls)
    (hn : 13 * (ls.length + c.size) + 13 ≤ n + t.rank) (hc : Closes t c) :
    (tierWithin select n t).run (c.prepend ls) = .ok e c := by
  have ht := t.rank_le
  obtain ⟨n, rfl⟩ : ∃ m, n = m + 1 := ⟨n - 1, by omega⟩
  obtain ⟨m, -, hm⟩ := h n c (by omega) hc.toFollows
  rw [hm]
  exact run_extend_none _ m hc.own

/-- Tiers without steps read their expression whole. -/
theorem ReadsExpr.of_run (ht : t = .sign ∨ t = .primary)
    (h : ∀ n c, 13 * (ls.length + c.size) + 12 ≤ n + t.rank → Follows t c →
      (tierWithin select (n + 1) t).run (c.prepend ls) = .ok e c) : ReadsExpr t e ls := by
  intro n c hn hc
  refine ⟨c.size, Nat.le_refl _, ?_⟩
  rw [h n c hn hc]
  obtain rfl | rfl := ht
  · exact (run_extend_none _ _ step?_sign).symm
  · exact (run_extend_none _ _ step?_primary).symm

/-- **One more step** behind an expression of the tier. -/
theorem ReadsExpr.step {s : Step} (h : ReadsExpr t l ls) (hr : rs ≠ [])
    (hs : ∀ c, Follows t c → Follows t (c.prepend rs) ∧ step? t (c.prepend rs) = some s ∧
      ∀ n, 13 * (rs.length + c.size) + 12 ≤ n + t.rank →
        (takeStep (tierWithin select n) t l s).run (c.prepend rs) = .ok e c) :
    ReadsExpr t e (ls ++ rs) := by
  intro n c hn hc
  obtain ⟨hf, hstep, hrun⟩ := hs c hc
  rw [List.length_append] at hn
  obtain ⟨m, hm, h⟩ := h n (c.prepend rs) (by rw [size_prepend]; omega) hf
  have hpos : 0 < rs.length := List.length_pos_iff.mpr hr
  rw [size_prepend] at hm
  obtain ⟨m, rfl⟩ : ∃ k, m = k + 1 := ⟨m - 1, by omega⟩
  refine ⟨m, by omega, ?_⟩
  rw [prepend_append, h]
  exact run_extend_some hstep (hrun n (by omega))

theorem tierBody_loop (sub : Tier → Parse Expr) (h1 : t ≠ .sign) (h2 : t ≠ .primary) :
    tierBody select sub t = (do
      let left ← sub t.tighter
      extend sub t (← get).later.length left) := by
  cases t <;> first | rfl | exact absurd rfl h1 | exact absurd rfl h2

theorem leading?_of_opensPrimary {k : Token} (h : k.opensPrimary = true) :
    UnaryOp.leading? k = none := by
  unfold UnaryOp.leading?
  split <;> first | rfl | cases h

theorem ne_notNull_of_opensPrimary {k : Token} (h : k.opensPrimary = true) :
    k ≠ .negated .null := by
  rintro rfl
  cases h

/-- A token in front of an operand that has no operators of its own. -/
theorem run_signed_primary {sub : Tier → Parse Expr} (h : c.token.opensPrimary = true) :
    (signed sub).run c = (sub .primary).run c := by
  unfold signed
  rw [run_get_bind, if_neg (ne_notNull_of_opensPrimary h), leading?_of_opensPrimary h]

/-- **A tighter expression** may stand at a looser tier. -/
theorem ReadsExpr.loosen (hs : Spells (.expr t.tighter) e ls) (h : ReadsExpr t.tighter e ls) :
    ReadsExpr t e ls := by
  by_cases h2 : t = .primary
  · subst h2; exact h
  by_cases h1 : t = .sign
  · subst h1
    refine .of_run (Or.inl rfl) fun n c hn hc => ?_
    obtain ⟨ho, -⟩ | ⟨o, rest, rfl, ho⟩ := hs.head
    · cases ho
    change (signed (tierWithin select n)).run _ = _
    rw [prepend_cons, run_signed_primary (c := (c.prepend rest).push o) ho]
    exact h.closed (by change _ ≤ n + 11 at hn; change _ ≤ n + 12; omega) (hc.closes h2)
  · intro n c hn hc
    have hr := Tier.rank_tighter h2
    refine ⟨c.size, Nat.le_refl _, ?_⟩
    rw [tierWithin, tierBody_loop _ h1 h2, run_bind (h.closed (by omega) (hc.closes h2))]
    rfl

/-! ### Operators -/

theorem ReadsExpr.operator {op : BinaryOp} {o : Lexeme} (hl : ReadsExpr op.tier l ls)
    (ho : op.token? = some o.token) (hr : ReadsExpr op.tier.tighter r rs) (hrs : rs ≠ [])
    (ha : Admits op r rs) : ReadsExpr op.tier (.binary op l r) (ls ++ o :: rs) := by
  have hp : op.tier ≠ .primary := by cases op <;> nofun
  refine hl.step (s := .binary op) (List.cons_ne_nil _ _) fun c hc => ?_
  have hpeek : op = .membership ∨ op = .notMembership →
      (c.prepend (o :: rs)).peek ≠ .symbol .leftParen := by
    obtain ⟨f, rest, rfl⟩ := List.exists_cons_of_ne_nil hrs
    have hb : ¬ Begins (.symbol .leftParen) (f :: rest) → f.token ≠ .symbol .leftParen :=
      fun hn he => hn (by rw [Begins, List.head?_cons, Option.map_some, he])
    rintro (rfl | rfl)
    · exact hb ha
    · exact hb ha
  refine ⟨follows_operator ho hpeek, step?_operator ho hpeek, fun n hn => ?_⟩
  have hlike : ¬ ((op = .like ∨ op = .notLike) ∧ (!isStringLiteral r) = true) := by
    rintro ⟨rfl | rfl, h⟩
    · rw [show isStringLiteral r = true from ha] at h; cases h
    · rw [show isStringLiteral r = true from ha] at h; cases h
  have hrank := Tier.rank_tighter hp
  rw [List.length_cons] at hn
  unfold takeStep
  rw [run_advance_bind, prepend_cons, advance_push, run_get_bind,
    run_bind (hr.closed (by omega) (hc.closes hp))]
  simp only [hlike, if_false]
  rfl

theorem begins_cons {k : Token} {f : Lexeme} {rest : List Lexeme} :
    Begins k (f :: rest) ↔ f.token = k := by
  rw [Begins, List.head?_cons, Option.map_some, Option.some.injEq]

theorem step?_is (h : c.token = .keyword .IS) : step? .comparison c = some .is := by
  unfold step?; rw [h]

theorem ReadsExpr.is {i : Lexeme} (hl : ReadsExpr .comparison l ls) (hi : i.token = .keyword .IS)
    (hr : ReadsExpr .relational r rs) (hrs : rs ≠ []) (hn : ¬ Begins (.keyword .NOT) rs)
    (hn' : ¬ Begins (.negated .null) rs) :
    ReadsExpr .comparison (.binary .is l r) (ls ++ i :: rs) := by
  obtain ⟨f, rest, rfl⟩ := List.exists_cons_of_ne_nil hrs
  rw [begins_cons] at hn hn'
  refine hl.step (List.cons_ne_nil _ _) fun c hc => ⟨follows_is hi, step?_is hi, fun n hk => ?_⟩
  have hread := hr.closed (c := c) (n := n)
    (by rw [List.length_cons] at hk; change _ ≤ n + 4 at hk; change _ ≤ n + 5; omega)
    (hc.closes nofun)
  unfold takeStep
  rw [run_advance_bind, prepend_cons, advance_push, run_bind_false (run_eat_ne (by exact hn'))]
  rw [run_bind (run_eatKeyword_ne (by exact hn))]
  change (tierWithin select n .relational >>= _).run _ = _
  rw [run_bind hread]
  rfl

theorem ReadsExpr.isNot {i m : Lexeme} (hl : ReadsExpr .comparison l ls)
    (hi : i.token = .keyword .IS) (hm : m.token = .keyword .NOT)
    (hr : ReadsExpr .relational r rs) :
    ReadsExpr .comparison (.binary .isNot l r) (ls ++ i :: m :: rs) := by
  refine hl.step (List.cons_ne_nil _ _) fun c hc => ⟨follows_is hi, step?_is hi, fun n hk => ?_⟩
  have hread := hr.closed (c := c) (n := n)
    (by simp only [List.length_cons] at hk; change _ ≤ n + 4 at hk; change _ ≤ n + 5; omega)
    (hc.closes nofun)
  unfold takeStep
  rw [run_advance_bind, prepend_cons, advance_push, prepend_cons,
    run_bind_false (run_eat_ne (by rw [token_push, hm]; nofun))]
  rw [run_bind (run_eatKeyword hm)]
  change (tierWithin select n .relational >>= _).run _ = _
  rw [run_bind hread]
  rfl

theorem ReadsExpr.isNotNull {i m : Lexeme} (hl : ReadsExpr .comparison l ls)
    (hi : i.token = .keyword .IS) (hm : m.token = .negated .null) :
    ReadsExpr .comparison (.binary .isNot l (.literal .null)) (ls ++ [i, m]) := by
  refine hl.step (List.cons_ne_nil _ _) fun c _ => ⟨follows_is hi, step?_is hi, fun n _ => ?_⟩
  unfold takeStep
  rw [run_advance_bind, prepend_cons, advance_push, prepend_cons, run_bind_true (run_eat hm)]
  rfl

theorem ReadsExpr.between {b a : Lexeme} {negated : Bool} {v low high : Expr}
    {vs los his : List Lexeme} (hv : ReadsExpr .between v vs) (hb : b.token = rangeToken negated)
    (hlo : ReadsExpr .comparison low los) (ha : a.token = .keyword .AND)
    (hhi : ReadsExpr .comparison high his) :
    ReadsExpr .between (.between negated v low high) (vs ++ b :: (los ++ a :: his)) := by
  have hstep : ∀ c : Cursor,
      step? .between (c.prepend (b :: (los ++ a :: his))) = some (.between negated) := by
    intro c
    unfold step?
    rw [prepend_cons, token_push, hb]
    cases negated <;> rfl
  refine hv.step (List.cons_ne_nil _ _) fun c hc =>
    ⟨follows_range hb, hstep c, fun n hk => ?_⟩
  simp only [List.length_cons, List.length_append] at hk
  change _ ≤ n + 3 at hk
  have hlow := hlo.closed (c := c.prepend (a :: his)) (n := n)
    (by rw [size_prepend, List.length_cons]; change _ ≤ n + 4; omega) (closes_and ha)
  have hhigh := hhi.closed (c := c) (n := n) (by change _ ≤ n + 4; omega) (hc.closes nofun)
  unfold takeStep
  rw [run_advance_bind, prepend_cons, advance_push, prepend_append, run_bind hlow,
    prepend_cons, run_bind (run_expectKeyword ha), run_bind hhigh]
  rfl

theorem ReadsExpr.trailing {op : UnaryOp} {o : Lexeme} (h : ReadsExpr .nullTest e ls)
    (ho : UnaryOp.trailing? o.token = some op) :
    ReadsExpr .nullTest (.unary op e) (ls ++ [o]) := by
  have hstep : ∀ c : Cursor, step? .nullTest (c.prepend [o]) = some (.nullTest op) := by
    intro c
    change (UnaryOp.trailing? o.token).map Step.nullTest = _
    rw [ho]
    rfl
  refine h.step (List.cons_ne_nil _ _) fun c _ => ⟨follows_trailing ho, hstep c, fun n _ => ?_⟩
  rfl

/-! ### Operators in front -/

theorem ReadsExpr.notNull {o : Lexeme} (h : o.token = .negated .null) :
    ReadsExpr .sign (.unary .not (.literal .null)) [o] := by
  refine .of_run (Or.inl rfl) fun n c _ _ => ?_
  change (signed (tierWithin select n)).run _ = _
  unfold signed
  rw [run_get_bind, prepend_cons, token_push, if_pos h]
  rfl

theorem ReadsExpr.leading {op : UnaryOp} {o : Lexeme} (ho : UnaryOp.leading? o.token = some op)
    (h : ReadsExpr .sign e ls) : ReadsExpr .sign (.unary op e) (o :: ls) := by
  refine .of_run (Or.inl rfl) fun n c hn hc => ?_
  have hne : o.token ≠ .negated .null := by
    intro hk; rw [hk] at ho; cases ho
  have hread := h.closed (c := c) (n := n)
    (by rw [List.length_cons] at hn; change _ ≤ n + 11 at hn ⊢; omega) ⟨hc, step?_sign⟩
  change (signed (tierWithin select n)).run _ = _
  unfold signed
  rw [run_get_bind, prepend_cons, token_push, if_neg hne, ho]
  change (advance >>= fun _ => _).run _ = _
  rw [run_advance_bind, advance_push, run_bind hread]
  rfl

/-! ### Operands without operators -/

/-- A reader of expressions is good for all that have at most `k` tokens up to the end. -/
def Suffices (expr : Parse Expr) (k : Nat) : Prop :=
  ∀ e ls c, ReadsExpr .or e ls → ls.length + c.size ≤ k → Closes .or c →
    expr.run (c.prepend ls) = .ok e c

/-- Given a reader that suffices, `p` turns a run of tokens into a tree if one of the `ends` follows
it. -/
def ReadsWith {α : Type} (p : Parse Expr → Parse α) (ends : Token → Bool) (a : α)
    (ls : List Lexeme) : Prop :=
  ∀ expr c, Suffices expr (ls.length + c.size) → ends c.token = true →
    (p expr).run (c.prepend ls) = .ok a c

theorem suffices_tierWithin {k : Nat} (h : 13 * k + 13 ≤ n) :
    Suffices (tierWithin select n .or) k := by
  intro e ls c he hk hc
  exact he.closed (by change _ ≤ n + 0; omega) hc

theorem suffices_expression (k : Nat) : Suffices expression k := by
  intro e ls c he _ hc
  unfold expression
  rw [run_get_bind]
  refine he.closed ?_ hc
  have hs : (c.prepend ls).later.length = ls.length + c.size := size_prepend ls c
  unfold depth
  rw [hs]
  omega

/-- Whether a token closes a group. -/
def closing (k : Token) : Bool := k == .symbol .rightParen

theorem closing_iff {k : Token} : closing k = true ↔ k = .symbol .rightParen := by
  unfold closing; rw [beq_iff_eq]

theorem closes_closing (h : c.token = .symbol .rightParen) : Closes t c :=
  closes_of_stops (by rw [h]; rfl)

theorem ReadsExpr.listed {i o p : Lexeme} {negated : Bool} {v : Expr} {items : List Expr}
    {vs : List Lexeme} (hv : ReadsExpr .membership v vs) (hi : i.token = listToken negated)
    (ho : o.token = .symbol .leftParen) (h : ReadsWith separated closing items ls)
    (hp : p.token = .symbol .rightParen) :
    ReadsExpr .membership (.listed negated v items) (vs ++ i :: o :: (ls ++ [p])) := by
  have hstep : ∀ c : Cursor, step? .membership (c.prepend (i :: o :: (ls ++ [p]))) =
      some (.listed negated) := by
    intro c
    unfold step?
    rw [prepend_cons, token_push, hi, prepend_cons, peek_push, token_push, ho]
    cases negated <;> rfl
  refine hv.step (List.cons_ne_nil _ _) fun c _ => ⟨follows_list hi ho, hstep c, fun n hn => ?_⟩
  simp only [List.length_cons, List.length_append, List.length_nil] at hn
  change _ ≤ n + 2 at hn
  have hread := h (tierWithin select n .or) (c.push p)
    (suffices_tierWithin (by rw [size_push]; omega)) (closing_iff.mpr hp)
  unfold takeStep
  rw [run_advance_bind, prepend_cons, advance_push, run_advance_bind, prepend_cons, advance_push,
    prepend_append, prepend_cons, prepend_nil, run_bind hread, run_bind (run_expect hp)]
  rfl

/-- What the reader of operands does is what `primary` does. -/
theorem ReadsExpr.of_primary
    (h : ∀ n c, 13 * ls.length + 13 * c.size ≤ n → Follows .primary c →
      (primary select (tierWithin select n)).run (c.prepend ls) = .ok e c) :
    ReadsExpr .primary e ls := by
  refine .of_run (Or.inr rfl) fun n c hn hc => h n c ?_ hc
  change _ ≤ n + 12 at hn
  omega

theorem ReadsExpr.literal {v : Literal} {o : Lexeme} (h : o.token = v.token) :
    ReadsExpr .primary (.literal v) [o] := by
  refine .of_primary fun n c _ _ => ?_
  unfold primary
  rw [run_get_bind, prepend_cons, token_push, h, Literal.literal?_token]
  rfl

theorem ReadsExpr.parameter {p : Parameter} {o : Lexeme} (h : o.token = .parameter p) :
    ReadsExpr .primary (.parameter p o.start) [o] := by
  refine .of_primary fun n c _ _ => ?_
  unfold primary
  rw [run_get_bind, prepend_cons, token_push, h]
  rfl

theorem ReadsExpr.group {o p : Lexeme} (ho : o.token = .symbol .leftParen)
    (h : ReadsExpr .or e ls) (hp : p.token = .symbol .rightParen) :
    ReadsExpr .primary e (o :: (ls ++ [p])) := by
  refine .of_primary fun n c hn _ => ?_
  simp only [List.length_cons, List.length_append, List.length_nil] at hn
  have hread := h.closed (c := c.push p) (n := n)
    (by rw [size_push]; change _ ≤ n + 0; omega) (closes_closing hp)
  unfold primary
  rw [run_get_bind, prepend_cons, token_push, ho]
  change (advance >>= fun _ => _).run _ = _
  rw [run_advance_bind, advance_push, prepend_append, prepend_cons, prepend_nil, run_bind hread,
    run_bind (run_expect hp)]
  rfl

/-- A name at the start of an operand. -/
theorem run_primary_name {sub : Tier → Parse Expr} {f : String} (h : c.token.name? = some f) :
    (primary select sub).run c =
      (if c.peek = .symbol .leftParen then call sub else columnRef).run c := by
  unfold primary
  rw [run_get_bind]
  unfold Token.name? at h
  split at h
  case h_3 => cases h
  all_goals
    next hk =>
    rw [hk]
    rfl

theorem run_furtherParts_none (m : Nat) (h : c.token ≠ .symbol .dot) :
    (furtherParts m).run c = .ok [] c := by
  cases m with
  | zero => rfl
  | succ m => unfold furtherParts; rw [run_get_bind, if_neg h]; rfl

theorem run_furtherParts_some {m : Nat} {d o : Lexeme} {part : String} {parts : List String}
    {c' : Cursor} (hd : d.token = .symbol .dot) (ho : o.token.name? = some part)
    (h : (furtherParts m).run c = .ok parts c') :
    (furtherParts (m + 1)).run ((c.push o).push d) = .ok (part :: parts) c' := by
  have hs : o.token ≠ .symbol .star := ne_star_of_name ho
  rw [furtherParts, run_get_bind, token_push, if_pos hd, peek_push, token_push, if_neg hs]
  change (advance >>= fun _ => _).run _ = _
  rw [run_advance_bind, advance_push, run_bind (run_name ho), run_bind h]
  rfl

theorem ReadsExpr.column {ref : ColumnRef} (h : SpellsRef ref ls) :
    ReadsExpr .primary (.column ref) ls := by
  refine .of_primary fun n c _ hc => ?_
  have hnone := fun m => run_furtherParts_none m hc.dot
  cases h with
  | bare hl =>
    rw [prepend_cons, run_primary_name (by exact hl), if_neg (by exact hc.paren)]
    unfold columnRef
    rw [run_get_bind, run_bind (run_name hl), run_get_bind, prepend_nil, run_bind (hnone _)]
    rfl
  | @table l d m _ _ hl hd hm =>
    have hp : ((c.prepend [d, m]).push l).peek ≠ .symbol .leftParen := by
      rw [peek_push, prepend_cons, token_push, hd]; nofun
    rw [prepend_cons, run_primary_name (by exact hl), if_neg hp]
    unfold columnRef
    rw [run_get_bind, run_bind (run_name hl), run_get_bind]
    change (furtherParts (c.size + 1 + 1) >>= _).run ((c.push m).push d) = _
    rw [run_bind (run_furtherParts_some hd hm (hnone _))]
    rfl
  | @database l d m e o _ _ _ hl hd hm he ho =>
    have hp : ((c.prepend [d, m, e, o]).push l).peek ≠ .symbol .leftParen := by
      rw [peek_push, prepend_cons, token_push, hd]; nofun
    rw [prepend_cons, run_primary_name (by exact hl), if_neg hp]
    unfold columnRef
    rw [run_get_bind, run_bind (run_name hl), run_get_bind]
    change (furtherParts (c.size + 1 + 1 + 1 + 1) >>= _).run
      ((((c.push o).push e).push m).push d) = _
    rw [run_bind (run_furtherParts_some hd hm (run_furtherParts_some he ho (hnone _)))]
    rfl

theorem ReadsExpr.callStar {f o s p : Lexeme} {g : String} (hf : f.token.name? = some g)
    (ho : o.token = .symbol .leftParen) (hs : s.token = .symbol .star)
    (hp : p.token = .symbol .rightParen) :
    ReadsExpr .primary (.callStar g f.start) [f, o, s, p] := by
  refine .of_primary fun n c _ _ => ?_
  rw [prepend_cons, run_primary_name (by exact hf), if_pos (by exact ho)]
  unfold call
  rw [run_get_bind, run_bind (run_name hf), run_advance_bind, prepend_cons, advance_push,
    prepend_cons, run_bind_true (run_eat hs), prepend_cons, prepend_nil,
    run_bind (run_expect hp)]
  rfl

theorem ReadsExpr.callNone {f o p : Lexeme} {g : String} (hf : f.token.name? = some g)
    (ho : o.token = .symbol .leftParen) (hp : p.token = .symbol .rightParen) :
    ReadsExpr .primary (.call g [] f.start) [f, o, p] := by
  refine .of_primary fun n c _ _ => ?_
  have hs : (c.push p).token ≠ .symbol .star := by rw [token_push, hp]; nofun
  rw [prepend_cons, run_primary_name (by exact hf), if_pos (by exact ho)]
  unfold call
  rw [run_get_bind, run_bind (run_name hf), run_advance_bind, prepend_cons, advance_push,
    prepend_cons, prepend_nil, run_bind_false (run_eat_ne hs), run_get_bind, token_push,
    if_pos hp, run_pure_bind, run_bind (run_expect hp)]
  rfl

theorem ReadsExpr.call {f o p : Lexeme} {g : String} {args : List Expr}
    (hf : f.token.name? = some g) (ho : o.token = .symbol .leftParen)
    (hs : Spells (.list .expression) args ls) (h : ReadsWith separated closing args ls)
    (hp : p.token = .symbol .rightParen) :
    ReadsExpr .primary (.call g args f.start) (f :: o :: (ls ++ [p])) := by
  refine .of_primary fun n c hn _ => ?_
  simp only [List.length_cons, List.length_append, List.length_nil] at hn
  have hread := h (tierWithin select n .or) (c.push p)
    (suffices_tierWithin (by rw [size_push]; omega)) (closing_iff.mpr hp)
  obtain ⟨a, rest, rfl, ha⟩ := hs.head_list
  have hstar : a.token ≠ .symbol .star := by rintro he; rw [he] at ha; cases ha
  have hparen : a.token ≠ .symbol .rightParen := by rintro he; rw [he] at ha; cases ha
  rw [prepend_cons, run_primary_name (by exact hf), if_pos (by exact ho)]
  unfold Parse.call
  rw [run_get_bind, run_bind (run_name hf), run_advance_bind, prepend_cons, advance_push,
    prepend_append, prepend_cons, run_bind_false (run_eat_ne (by exact hstar))]
  rw [run_get_bind, if_neg (by exact hparen)]
  change (separated (tierWithin select n .or) >>= _).run ((c.push p).prepend (a :: rest)) = _
  rw [run_bind hread, run_bind (run_expect hp)]
  rfl

theorem ReadsExpr.existsRow {x o p : Lexeme} {s : Statement} (hx : x.token = .keyword .EXISTS)
    (ho : o.token = .symbol .leftParen) (h : ReadsWith select closing s ls)
    (hp : p.token = .symbol .rightParen) :
    ReadsExpr .primary (.existsRow s x.start) (x :: o :: (ls ++ [p])) := by
  refine .of_primary fun n c hn _ => ?_
  simp only [List.length_cons, List.length_append, List.length_nil] at hn
  have hread := h (tierWithin select n .or) (c.push p)
    (suffices_tierWithin (by rw [size_push]; omega)) (closing_iff.mpr hp)
  unfold primary
  rw [run_get_bind, prepend_cons, token_push, hx]
  change (advance >>= fun _ => _).run _ = _
  rw [run_advance_bind, advance_push, prepend_cons, run_bind (run_expect ho), prepend_append,
    prepend_cons, prepend_nil, run_bind hread, run_bind (run_expect hp)]
  rfl

end RecordQuery.Grammar
