import RecordQuery.Proofs.Grammar.Neighbours
import RecordQuery.Proofs.Grammar.Soundness

/-! # Operators in front of an operand and their spaces

A minus or a plus stands in front of its only operand or between two of them. The reader decides
that by the place in which it expects an operand, and a caption, which puts no space behind the
former, by the token in front alone. `Signed` is the grammar once more, with the operators in front
of an operand marked; every spelling has its marks (`Spells.signed`). The marks are those that the
caption works out (`Signed.fits`), since an expression ends with a token that ends an operand
(`Spells.endsOperand`), and no other token in front of an expression does so. -/

namespace RecordQuery

namespace Grammar

/-- A run of tokens, of which some are marked. -/
abbrev Marked := List (Lexeme × Bool)

/-- The tokens of a run without their marks. -/
abbrev Marked.lexemes (ms : Marked) : List Lexeme := ms.map Prod.fst

/-- The tokens of a run, none of them marked. -/
def unmarked (ls : List Lexeme) : Marked := ls.map fun l => (l, false)

@[simp] theorem lexemes_unmarked (ls : List Lexeme) : (unmarked ls).lexemes = ls := by
  simp [unmarked, Function.comp_def]

/-- **The grammar with marks.** A run of tokens writes out a tree, and those of its operators are
marked that stand in front of their operand. -/
inductive Signed : (k : Kind) → k.Value → Marked → Prop
  | literal {v : Literal} {l : Lexeme} (h : l.token = v.token) :
      Signed (.expr .primary) (Expr.literal v) [(l, false)]
  | parameter {p : Parameter} {l : Lexeme} (h : l.token = .parameter p) :
      Signed (.expr .primary) (Expr.parameter p l.start) [(l, false)]
  | column {ref : ColumnRef} {ls : List Lexeme} (h : SpellsRef ref ls) :
      Signed (.expr .primary) (Expr.column ref) (unmarked ls)
  | group {o c : Lexeme} {e : Expr} {ms : Marked} (ho : o.token = .symbol .leftParen)
      (h : Signed (.expr .or) e ms) (hc : c.token = .symbol .rightParen) :
      Signed (.expr .primary) e ((o, false) :: (ms ++ [(c, false)]))
  | callStar {f o s c : Lexeme} {name : String} (hf : f.token.name? = some name)
      (ho : o.token = .symbol .leftParen) (hs : s.token = .symbol .star)
      (hc : c.token = .symbol .rightParen) :
      Signed (.expr .primary) (Expr.callStar name f.start) (unmarked [f, o, s, c])
  | callNone {f o c : Lexeme} {name : String} (hf : f.token.name? = some name)
      (ho : o.token = .symbol .leftParen) (hc : c.token = .symbol .rightParen) :
      Signed (.expr .primary) (Expr.call name [] f.start) (unmarked [f, o, c])
  | call {f o c : Lexeme} {name : String} {args : List Expr} {ms : Marked}
      (hf : f.token.name? = some name) (ho : o.token = .symbol .leftParen)
      (h : Signed (.list .expression) args ms) (hc : c.token = .symbol .rightParen) :
      Signed (.expr .primary) (Expr.call name args f.start)
        ((f, false) :: (o, false) :: (ms ++ [(c, false)]))
  | existsRow {x o c : Lexeme} {s : Statement} {ms : Marked} (hx : x.token = .keyword .EXISTS)
      (ho : o.token = .symbol .leftParen) (h : Signed .statement s ms)
      (hc : c.token = .symbol .rightParen) :
      Signed (.expr .primary) (Expr.existsRow s x.start)
        ((x, false) :: (o, false) :: (ms ++ [(c, false)]))
  | notNull {l : Lexeme} (h : l.token = .negated .null) :
      Signed (.expr .sign) (Expr.unary .not (.literal .null)) [(l, false)]
  | leading {op : UnaryOp} {o : Lexeme} {e : Expr} {ms : Marked}
      (ho : UnaryOp.leading? o.token = some op) (h : Signed (.expr .sign) e ms)
      (hn : op = .not → ¬ Begins (.keyword .NULL) ms.lexemes) :
      Signed (.expr .sign) (Expr.unary op e) ((o, true) :: ms)
  | trailing {op : UnaryOp} {o : Lexeme} {e : Expr} {ms : Marked}
      (h : Signed (.expr .nullTest) e ms) (ho : UnaryOp.trailing? o.token = some op) :
      Signed (.expr .nullTest) (Expr.unary op e) (ms ++ [(o, false)])
  | operator {op : BinaryOp} {o : Lexeme} {l r : Expr} {ms ns : Marked}
      (hl : Signed (.expr op.tier) l ms) (ho : op.token? = some o.token)
      (hr : Signed (.expr op.tier.tighter) r ns) (ha : Admits op r ns.lexemes) :
      Signed (.expr op.tier) (Expr.binary op l r) (ms ++ (o, false) :: ns)
  | is {i : Lexeme} {l r : Expr} {ms ns : Marked} (hl : Signed (.expr .comparison) l ms)
      (hi : i.token = .keyword .IS) (hr : Signed (.expr .relational) r ns)
      (hn : ¬ Begins (.keyword .NOT) ns.lexemes) (hn' : ¬ Begins (.negated .null) ns.lexemes) :
      Signed (.expr .comparison) (Expr.binary .is l r) (ms ++ (i, false) :: ns)
  | isNot {i n : Lexeme} {l r : Expr} {ms ns : Marked} (hl : Signed (.expr .comparison) l ms)
      (hi : i.token = .keyword .IS) (hn : n.token = .keyword .NOT)
      (hr : Signed (.expr .relational) r ns) (hb : ¬ Begins (.keyword .NULL) ns.lexemes) :
      Signed (.expr .comparison) (Expr.binary .isNot l r) (ms ++ (i, false) :: (n, false) :: ns)
  | isNotNull {i n : Lexeme} {l : Expr} {ms : Marked} (hl : Signed (.expr .comparison) l ms)
      (hi : i.token = .keyword .IS) (hn : n.token = .negated .null) :
      Signed (.expr .comparison) (Expr.binary .isNot l (.literal .null))
        (ms ++ unmarked [i, n])
  | between {b a : Lexeme} {negated : Bool} {v low high : Expr} {vs los his : Marked}
      (hv : Signed (.expr .between) v vs) (hb : b.token = rangeToken negated)
      (hlo : Signed (.expr .comparison) low los) (ha : a.token = .keyword .AND)
      (hhi : Signed (.expr .comparison) high his) :
      Signed (.expr .between) (Expr.between negated v low high)
        (vs ++ (b, false) :: (los ++ (a, false) :: his))
  | listed {i o c : Lexeme} {negated : Bool} {v : Expr} {items : List Expr} {vs ms : Marked}
      (hv : Signed (.expr .membership) v vs) (hi : i.token = listToken negated)
      (ho : o.token = .symbol .leftParen) (h : Signed (.list .expression) items ms)
      (hc : c.token = .symbol .rightParen) :
      Signed (.expr .membership) (Expr.listed negated v items)
        (vs ++ (i, false) :: (o, false) :: (ms ++ [(c, false)]))
  | loosen {t : Tier} {e : Expr} {ms : Marked} (h : Signed (.expr t.tighter) e ms) :
      Signed (.expr t) e ms
  | expression {e : Expr} {ms : Marked} (h : Signed (.expr .or) e ms) :
      Signed (.item .expression) e ms
  | star {l : Lexeme} (h : l.token = .symbol .star) :
      Signed (.item .column) (ResultColumn.star l.start) [(l, false)]
  | qualifiedStar {n d s : Lexeme} {table : String} (hn : n.token.name? = some table)
      (hd : d.token = .symbol .dot) (hs : s.token = .symbol .star) :
      Signed (.item .column) (ResultColumn.qualifiedStar table n.start) (unmarked [n, d, s])
  | computed {e : Expr} {l : Lexeme} {b : Bool} {ms : Marked} {as : List Lexeme}
      {label : Option String} (h : Signed (.expr .or) e ((l, b) :: ms)) (ha : SpellsLabel label as) :
      Signed (.item .column)
        (ResultColumn.expr e label (Caption.ofTokens ((l :: ms.lexemes).map Lexeme.token)) l.start)
        ((l, b) :: ms ++ unmarked as)
  | term {e : Expr} {l : Lexeme} {b : Bool} {ms : Marked} {ds : List Lexeme}
      {direction : Option Direction} (h : Signed (.expr .or) e ((l, b) :: ms))
      (hd : SpellsDirection direction ds) :
      Signed (.item .term) (OrderingTerm.mk e direction l.start) ((l, b) :: ms ++ unmarked ds)
  | one {i : Item} {a : i.Value} {ms : Marked} (h : Signed (.item i) a ms) :
      Signed (.list i) [a] ms
  | more {i : Item} {a : i.Value} {as : List i.Value} {c : Lexeme} {ms ns : Marked}
      (h : Signed (.item i) a ms) (hc : c.token = .symbol .comma) (hs : Signed (.list i) as ns) :
      Signed (.list i) (a :: as) (ms ++ (c, false) :: ns)
  | absent {w : Clause} : Signed (.clause w) none []
  | present {w : Clause} {l : Lexeme} {e : Expr} {ms : Marked}
      (hl : l.token = .keyword w.word) (h : Signed (.expr .or) e ms) :
      Signed (.clause w) (some e) ((l, false) :: ms)
  | unsorted : Signed .sorting [] []
  | sorted {o b : Lexeme} {terms : List OrderingTerm} {ms : Marked}
      (ho : o.token = .keyword .ORDER) (hb : b.token = .keyword .BY)
      (h : Signed (.list .term) terms ms) :
      Signed .sorting terms ((o, false) :: (b, false) :: ms)
  | unlimited : Signed .limit none []
  | count {w : Lexeme} {e : Expr} {ms : Marked} (hw : w.token = .keyword .LIMIT)
      (h : Signed (.expr .or) e ms) : Signed .limit (some ⟨e, none, w.start⟩) ((w, false) :: ms)
  | countOffset {w o : Lexeme} {e f : Expr} {ms ns : Marked} (hw : w.token = .keyword .LIMIT)
      (h : Signed (.expr .or) e ms) (ho : o.token = .keyword .OFFSET)
      (hf : Signed (.expr .or) f ns) :
      Signed .limit (some ⟨e, some f, w.start⟩) ((w, false) :: (ms ++ (o, false) :: ns))
  | offsetCount {w c : Lexeme} {e f : Expr} {ms ns : Marked} (hw : w.token = .keyword .LIMIT)
      (h : Signed (.expr .or) f ms) (hc : c.token = .symbol .comma) (hf : Signed (.expr .or) e ns) :
      Signed .limit (some ⟨e, some f, w.start⟩) ((w, false) :: (ms ++ (c, false) :: ns))
  | statement {s : Lexeme} {option : Option SelectOption} {columns : List ResultColumn}
      {source : Option FromClause} {condition groupCondition : Option Expr}
      {orderBy : List OrderingTerm} {limit : Option LimitClause} {os fs : List Lexeme}
      {cs ws hs bs ms : Marked} (h : s.token = .keyword .SELECT) (ho : SpellsOption option os)
      (hc : Signed (.list .column) columns cs) (hf : SpellsSource source fs)
      (hw : Signed (.clause .rows) condition ws) (hh : Signed (.clause .groups) groupCondition hs)
      (hb : Signed .sorting orderBy bs) (hm : Signed .limit limit ms) :
      Signed .statement ⟨option, columns, source, condition, groupCondition, orderBy, limit⟩
        ((s, false) :: (unmarked os ++ (cs ++ (unmarked fs ++ (ws ++ (hs ++ (bs ++ ms)))))))

variable {k : Kind} {a : k.Value} {ls : List Lexeme} {ms ns : Marked}

/-- **Every spelling has its marks.** -/
theorem Spells.signed (h : Spells k a ls) : ∃ ms : Marked, ms.lexemes = ls ∧ Signed k a ms := by
  induction h with
  | literal h => exact ⟨_, rfl, .literal h⟩
  | parameter h => exact ⟨_, rfl, .parameter h⟩
  | column h => exact ⟨_, lexemes_unmarked _, .column h⟩
  | group ho _ hc ih =>
    obtain ⟨ms, rfl, h⟩ := ih
    exact ⟨_, by simp, .group ho h hc⟩
  | callStar hf ho hs hc => exact ⟨_, lexemes_unmarked _, .callStar hf ho hs hc⟩
  | callNone hf ho hc => exact ⟨_, lexemes_unmarked _, .callNone hf ho hc⟩
  | call hf ho _ hc ih =>
    obtain ⟨ms, rfl, h⟩ := ih
    exact ⟨_, by simp, .call hf ho h hc⟩
  | existsRow hx ho _ hc ih =>
    obtain ⟨ms, rfl, h⟩ := ih
    exact ⟨_, by simp, .existsRow hx ho h hc⟩
  | notNull h => exact ⟨_, rfl, .notNull h⟩
  | leading ho _ hn ih =>
    obtain ⟨ms, rfl, h⟩ := ih
    exact ⟨_, rfl, .leading ho h hn⟩
  | trailing _ ho ih =>
    obtain ⟨ms, rfl, h⟩ := ih
    exact ⟨_, by simp, .trailing h ho⟩
  | operator _ ho _ ha ihl ihr =>
    obtain ⟨ms, rfl, hl⟩ := ihl
    obtain ⟨ns, rfl, hr⟩ := ihr
    exact ⟨_, by simp, .operator hl ho hr ha⟩
  | is _ hi _ hn hn' ihl ihr =>
    obtain ⟨ms, rfl, hl⟩ := ihl
    obtain ⟨ns, rfl, hr⟩ := ihr
    exact ⟨_, by simp, .is hl hi hr hn hn'⟩
  | isNot _ hi hn _ hb ihl ihr =>
    obtain ⟨ms, rfl, hl⟩ := ihl
    obtain ⟨ns, rfl, hr⟩ := ihr
    exact ⟨_, by simp, .isNot hl hi hn hr hb⟩
  | isNotNull _ hi hn ihl =>
    obtain ⟨ms, rfl, hl⟩ := ihl
    exact ⟨_, by simp, .isNotNull hl hi hn⟩
  | between _ hb _ ha _ ihv ihlo ihhi =>
    obtain ⟨vs, rfl, hv⟩ := ihv
    obtain ⟨los, rfl, hlo⟩ := ihlo
    obtain ⟨his, rfl, hhi⟩ := ihhi
    exact ⟨_, by simp, .between hv hb hlo ha hhi⟩
  | listed _ hi ho _ hc ihv ih =>
    obtain ⟨vs, rfl, hv⟩ := ihv
    obtain ⟨ms, rfl, h⟩ := ih
    exact ⟨_, by simp, .listed hv hi ho h hc⟩
  | loosen _ ih =>
    obtain ⟨ms, rfl, h⟩ := ih
    exact ⟨ms, rfl, .loosen h⟩
  | expression _ ih =>
    obtain ⟨ms, rfl, h⟩ := ih
    exact ⟨ms, rfl, .expression h⟩
  | star h => exact ⟨_, rfl, .star h⟩
  | qualifiedStar hn hd hs => exact ⟨_, lexemes_unmarked _, .qualifiedStar hn hd hs⟩
  | computed _ ha ih =>
    obtain ⟨_ | ⟨⟨l, b⟩, ms⟩, hms, h⟩ := ih
    · cases hms
    · cases hms
      exact ⟨_, by simp, .computed h ha⟩
  | term _ hd ih =>
    obtain ⟨_ | ⟨⟨l, b⟩, ms⟩, hms, h⟩ := ih
    · cases hms
    · cases hms
      exact ⟨_, by simp, .term h hd⟩
  | one _ ih =>
    obtain ⟨ms, rfl, h⟩ := ih
    exact ⟨ms, rfl, .one h⟩
  | more _ hc _ ih ihs =>
    obtain ⟨ms, rfl, h⟩ := ih
    obtain ⟨ns, rfl, hs⟩ := ihs
    exact ⟨_, by simp, .more h hc hs⟩
  | absent => exact ⟨[], rfl, .absent⟩
  | present hl _ ih =>
    obtain ⟨ms, rfl, h⟩ := ih
    exact ⟨_, rfl, .present hl h⟩
  | unsorted => exact ⟨[], rfl, .unsorted⟩
  | sorted ho hb _ ih =>
    obtain ⟨ms, rfl, h⟩ := ih
    exact ⟨_, rfl, .sorted ho hb h⟩
  | unlimited => exact ⟨[], rfl, .unlimited⟩
  | count hw _ ih =>
    obtain ⟨ms, rfl, h⟩ := ih
    exact ⟨_, rfl, .count hw h⟩
  | countOffset hw _ ho _ ih ihf =>
    obtain ⟨ms, rfl, h⟩ := ih
    obtain ⟨ns, rfl, hf⟩ := ihf
    exact ⟨_, by simp, .countOffset hw h ho hf⟩
  | offsetCount hw _ hc _ ih ihf =>
    obtain ⟨ms, rfl, h⟩ := ih
    obtain ⟨ns, rfl, hf⟩ := ihf
    exact ⟨_, by simp, .offsetCount hw h hc hf⟩
  | statement h ho _ hf _ _ _ _ ihc ihw ihh ihb ihm =>
    obtain ⟨cs, rfl, hc⟩ := ihc
    obtain ⟨ws, rfl, hw⟩ := ihw
    obtain ⟨hs, rfl, hh⟩ := ihh
    obtain ⟨bs, rfl, hb⟩ := ihb
    obtain ⟨ms, rfl, hm⟩ := ihm
    exact ⟨_, by simp, .statement h ho hc hf hw hh hb hm⟩

/-- The marks of a spelling are added to it. -/
theorem Signed.spells (h : Signed k a ms) : Spells k a ms.lexemes := by
  induction h with
  | literal h => exact .literal h
  | parameter h => exact .parameter h
  | column h => simpa using Spells.column h
  | group ho _ hc ih => simpa using Spells.group ho ih hc
  | callStar hf ho hs hc => exact .callStar hf ho hs hc
  | callNone hf ho hc => exact .callNone hf ho hc
  | call hf ho _ hc ih => simpa using Spells.call hf ho ih hc
  | existsRow hx ho _ hc ih => simpa using Spells.existsRow hx ho ih hc
  | notNull h => exact .notNull h
  | leading ho _ hn ih => exact .leading ho ih hn
  | trailing _ ho ih => simpa using Spells.trailing ih ho
  | operator _ ho _ ha ihl ihr => simpa using Spells.operator ihl ho ihr ha
  | is _ hi _ hn hn' ihl ihr => simpa using Spells.is ihl hi ihr hn hn'
  | isNot _ hi hn _ hb ihl ihr => simpa using Spells.isNot ihl hi hn ihr hb
  | isNotNull _ hi hn ihl => simpa [unmarked] using Spells.isNotNull ihl hi hn
  | between _ hb _ ha _ ihv ihlo ihhi => simpa using Spells.between ihv hb ihlo ha ihhi
  | listed _ hi ho _ hc ihv ih => simpa using Spells.listed ihv hi ho ih hc
  | loosen _ ih => exact .loosen ih
  | expression _ ih => exact .expression ih
  | star h => exact .star h
  | qualifiedStar hn hd hs => exact .qualifiedStar hn hd hs
  | computed _ ha ih => simpa using Spells.computed ih ha
  | term _ hd ih => simpa using Spells.term ih hd
  | one _ ih => exact .one ih
  | more _ hc _ ih ihs => simpa using Spells.more ih hc ihs
  | absent => exact .absent
  | present hl _ ih => exact .present hl ih
  | unsorted => exact .unsorted
  | sorted ho hb _ ih => exact .sorted ho hb ih
  | unlimited => exact .unlimited
  | count hw _ ih => exact .count hw ih
  | countOffset hw _ ho _ ih ihf => simpa using Spells.countOffset hw ih ho ihf
  | offsetCount hw _ hc _ ih ihf => simpa using Spells.offsetCount hw ih hc ihf
  | statement h ho _ hf _ _ _ _ ihc ihw ihh ihb ihm =>
    simpa using Spells.statement h ho ihc hf ihw ihh ihb ihm

/-! ### The last token of an operand -/

variable {l : Lexeme} {b : Bool} {t : Token} {n : String}

theorem endsOperand_of_name (h : t.name? = some n) : t.endsOperand = true := by
  cases t <;> first | rfl | cases h

theorem endsOperand_literal (v : Literal) : v.token.endsOperand = true := by
  unfold Literal.token
  split <;> rfl

theorem endsOperand_trailing {op : UnaryOp} (h : UnaryOp.trailing? t = some op) :
    t.endsOperand = true := by
  unfold UnaryOp.trailing? at h
  split at h <;> first | rfl | cases h

/-- A run of tokens of which the last one ends an operand. -/
def Ended (ls : List Lexeme) : Prop := ∃ front last, ls = front ++ [last] ∧
  last.token.endsOperand = true

theorem ended_append (front : List Lexeme) (h : Ended ls) : Ended (front ++ ls) := by
  obtain ⟨before, last, rfl, hlast⟩ := h
  exact ⟨front ++ before, last, (List.append_assoc _ _ _).symm, hlast⟩

theorem ended_cons (l : Lexeme) (h : Ended ls) : Ended (l :: ls) := ended_append [l] h

theorem ended_eq (hl : l.token = t) (ht : t.endsOperand = true) : Ended [l] := ⟨[], l, rfl, hl ▸ ht⟩

theorem ended_name (h : l.token.name? = some n) : Ended [l] := ⟨[], l, rfl, endsOperand_of_name h⟩

theorem SpellsRef.ended {ref : ColumnRef} (h : SpellsRef ref ls) : Ended ls := by
  cases h with
  | bare h => exact ended_name h
  | table _ _ hm => exact ended_append [_, _] (ended_name hm)
  | database _ _ _ _ ho => exact ended_append [_, _, _, _] (ended_name ho)

/-- Whether a kind is that of expressions at a tier. -/
def Kind.IsExpr : Kind → Prop
  | .expr _ => True
  | _ => False

/-- **An expression ends with a token that ends an operand.** -/
theorem Spells.ended (h : Spells k a ls) (hk : k.IsExpr) : Ended ls := by
  induction h with
  | @literal v _ h => exact ended_eq h (endsOperand_literal v)
  | parameter h | notNull h => exact ended_eq h rfl
  | column h => exact h.ended
  | group _ _ hc => exact ended_cons _ (ended_append _ (ended_eq hc rfl))
  | callStar _ _ _ hc => exact ended_append [_, _, _] (ended_eq hc rfl)
  | callNone _ _ hc => exact ended_append [_, _] (ended_eq hc rfl)
  | call _ _ _ hc | existsRow _ _ _ hc =>
    exact ended_append [_, _] (ended_append _ (ended_eq hc rfl))
  | leading _ _ _ ih => exact ended_cons _ (ih trivial)
  | trailing _ ho => exact ended_append _ (ended_eq rfl (endsOperand_trailing ho))
  | operator _ _ _ _ _ ihr | is _ _ _ _ _ _ ihr =>
    exact ended_append _ (ended_cons _ (ihr trivial))
  | isNot _ _ _ _ _ _ ihr => exact ended_append _ (ended_append [_, _] (ihr trivial))
  | isNotNull _ _ hn => exact ended_append _ (ended_cons _ (ended_eq hn rfl))
  | between _ _ _ _ _ _ _ ihhi =>
    exact ended_append _ (ended_cons _ (ended_append _ (ended_cons _ (ihhi trivial))))
  | listed _ _ _ _ hc =>
    exact ended_append _ (ended_append [_, _] (ended_append _ (ended_eq hc rfl)))
  | loosen _ ih => exact ih trivial
  | _ => exact hk.elim

/-! ### Marks and the tokens in front of them -/

/-- Every token that can sign an operand is marked if and only if the token in front of it does not
end an operand; the flag says whether the token in front of the run does. -/
def Fits : Bool → Marked → Prop
  | _, [] => True
  | ends, (l, marked) :: ms =>
    (l.token.canSign = true → marked = !ends) ∧ Fits l.token.endsOperand ms

/-- A run that fits behind every token. -/
def Free (ms : Marked) : Prop := ∀ ends, Fits ends ms

theorem free_nil : Free [] := fun _ => trivial

theorem free_cons (hl : l.token.canSign = false) (h : Fits l.token.endsOperand ms) :
    Free ((l, b) :: ms) :=
  fun _ => ⟨fun hs => absurd (hl.symm.trans hs) Bool.false_ne_true, h⟩

theorem free_eq (hl : l.token = t) (ht : t.canSign = false) (h : Fits t.endsOperand ms) :
    Free ((l, b) :: ms) := free_cons (hl ▸ ht) (hl ▸ h)

theorem free_single (hl : l.token = t) (ht : t.canSign = false) : Free [(l, b)] :=
  free_eq hl ht trivial

theorem free_name (hl : l.token.name? = some n) (h : Free ms) : Free ((l, b) :: ms) :=
  free_cons (Token.canSign_of_binds (Token.binds_of_name hl)) (h _)

theorem Fits.append (h : Fits b ms) (hn : Free ns) : Fits b (ms ++ ns) := by
  induction ms generalizing b with
  | nil => exact hn b
  | cons p ms ih => exact ⟨h.1, ih h.2⟩

theorem Free.append (h : Free ms) (hn : Free ns) : Free (ms ++ ns) := fun b => (h b).append hn

/-- A run behind an operand. -/
theorem Fits.append_ended (h : Fits b ms) (hms : Ended ms.lexemes) (hn : Fits true ns) :
    Fits b (ms ++ ns) := by
  obtain ⟨front, last, hms, hlast⟩ := hms
  induction ms generalizing b front with
  | nil => exact absurd hms.symm (List.append_ne_nil_of_right_ne_nil _ (List.cons_ne_nil _ _))
  | cons p ms ih =>
    refine ⟨h.1, ?_⟩
    rcases front with _ | ⟨l, front⟩
    · obtain ⟨hp, hms⟩ := List.cons.inj hms
      obtain rfl := List.map_eq_nil_iff.mp hms
      rw [hp, hlast]
      exact hn
    · exact ih h.2 front (List.cons.inj hms).2

theorem SpellsRef.free {ref : ColumnRef} (h : SpellsRef ref ls) : Free (unmarked ls) := by
  cases h with
  | bare h => exact free_name h free_nil
  | table hl hd hm => exact free_name hl (free_eq hd rfl (free_name hm free_nil _))
  | database hl hd hm he ho =>
    exact free_name hl (free_eq hd rfl (free_name hm (free_eq he rfl (free_name ho free_nil _)) _))

theorem SpellsLabel.free {label : Option String} (h : SpellsLabel label ls) :
    Free (unmarked ls) := by
  cases h with
  | absent => exact free_nil
  | plain h => exact free_name h free_nil
  | marked ha h => exact free_eq ha rfl (free_name h free_nil _)

theorem SpellsSource.free {source : Option FromClause} (h : SpellsSource source ls) :
    Free (unmarked ls) := by
  cases h with
  | absent => exact free_nil
  | bare hf hl h => exact free_eq hf rfl (free_name hl h.free _)
  | qualified hf hl hd hm h =>
    exact free_eq hf rfl (free_name hl (free_eq hd rfl (free_name hm h.free _)) _)

theorem SpellsDirection.free {direction : Option Direction} (h : SpellsDirection direction ls) :
    Free (unmarked ls) := by
  cases h with
  | absent => exact free_nil
  | ascending h | descending h => exact free_single h rfl

/-- Neither the word behind `SELECT` nor its absence ends an operand. -/
theorem SpellsOption.fits {option : Option SelectOption} (h : SpellsOption option ls)
    (hm : Fits false ms) : Fits false (unmarked ls ++ ms) := by
  cases h with
  | absent => exact hm
  | distinct h | all h => exact free_eq h rfl hm _

/-- An operator in front of its operand, which nothing that ends an operand stands in front of. -/
theorem fits_leading {op : UnaryOp} (hl : UnaryOp.leading? l.token = some op) (h : Fits false ms) :
    Fits false ((l, true) :: ms) := by
  refine ⟨fun _ => rfl, ?_⟩
  unfold UnaryOp.leading? at hl
  split at hl
  case h_5 => cases hl
  all_goals
    next hk =>
      rw [hk]
      exact h

/-- An operator behind its first operand. -/
theorem fits_operator {op : BinaryOp} (hl : op.token? = some l.token) (h : Fits false ms) :
    Fits true ((l, false) :: ms) := by
  refine ⟨fun _ => rfl, ?_⟩
  have hends : l.token.endsOperand = false := by
    cases op <;> first | cases hl | (rw [← Option.some.inj hl]; rfl)
  rw [hends]
  exact h

/-- What the marks of a kind are to be. -/
def Kind.Marks : Kind → Marked → Prop
  | .clause _, ms | .sorting, ms | .limit, ms => Free ms
  | _, ms => Fits false ms

/-- **The marks of the grammar are those told by the token in front.** -/
theorem Signed.fits (h : Signed k a ms) : k.Marks ms := by
  induction h with
  | @literal v _ h =>
    exact free_eq h (Token.canSign_of_binds (binds_literal v)) (free_nil _) _
  | parameter h | notNull h | star h => exact free_single h rfl _
  | column h => exact h.free _
  | group ho _ hc ih => exact free_eq ho rfl (Fits.append ih (free_single hc rfl)) _
  | callStar hf ho hs hc =>
    exact free_name hf (free_eq ho rfl (free_eq hs rfl (free_single hc rfl _) _)) _
  | callNone hf ho hc => exact free_name hf (free_eq ho rfl (free_single hc rfl _)) _
  | call hf ho _ hc ih =>
    exact free_name hf (free_eq ho rfl (Fits.append ih (free_single hc rfl))) _
  | existsRow hx ho _ hc ih =>
    exact free_eq hx rfl (free_eq ho rfl (Fits.append ih (free_single hc rfl)) _) _
  | leading ho _ _ ih => exact fits_leading ho ih
  | trailing _ ho ih =>
    exact Fits.append ih (free_cons (Token.canSign_of_binds (binds_trailing ho)) trivial)
  | operator hl ho _ _ ihl ihr =>
    exact Fits.append_ended ihl (hl.spells.ended trivial) (fits_operator ho ihr)
  | is _ hi _ _ _ ihl ihr => exact Fits.append ihl (free_eq hi rfl ihr)
  | isNot _ hi hn _ _ ihl ihr => exact Fits.append ihl (free_eq hi rfl (free_eq hn rfl ihr _))
  | isNotNull _ hi hn ihl =>
    exact Fits.append ihl (free_eq hi rfl (free_single hn rfl _))
  | @between _ _ negated _ _ _ _ _ _ _ hb _ ha _ ihv ihlo ihhi =>
    refine Fits.append ihv ?_
    cases negated <;> exact free_eq hb rfl (Fits.append ihlo (free_eq ha rfl ihhi))
  | @listed _ _ _ negated _ _ _ _ _ hi ho _ hc ihv ih =>
    refine Fits.append ihv ?_
    cases negated <;>
      exact free_eq hi rfl (free_eq ho rfl (Fits.append ih (free_single hc rfl)) _)
  | loosen _ ih | expression _ ih | one _ ih => exact ih
  | qualifiedStar hn hd hs =>
    exact free_name hn (free_eq hd rfl (free_single hs rfl _)) _
  | computed _ ha ih => exact Fits.append ih ha.free
  | term _ hd ih => exact Fits.append ih hd.free
  | more _ hc _ ih ihs => exact Fits.append ih (free_eq hc rfl ihs)
  | absent | unsorted | unlimited => exact free_nil
  | @present w _ _ _ hl _ ih => cases w <;> exact free_eq hl rfl ih
  | sorted ho hb _ ih => exact free_eq ho rfl (free_eq hb rfl ih _)
  | count hw _ ih => exact free_eq hw rfl ih
  | countOffset hw _ ho _ ih ihf => exact free_eq hw rfl (Fits.append ih (free_eq ho rfl ihf))
  | offsetCount hw _ hc _ ih ihf => exact free_eq hw rfl (Fits.append ih (free_eq hc rfl ihf))
  | statement h ho _ hf _ _ _ _ ihc ihw ihh ihb ihm =>
    exact free_eq h rfl (ho.fits (Fits.append ihc
      (hf.free.append (Free.append ihw (Free.append ihh (Free.append ihb ihm)))))) _

end Grammar

/-! ### Captions -/

open Grammar

namespace Caption

/-- The tokens of a run with marks. -/
abbrev tokens (ms : Marked) : List Token := ms.map fun p => p.1.token

variable {before t next : Token} {marked other : Bool} {l m : Lexeme} {front back : Marked}

theorem spaced_of_canSign (h : t.canSign = true) (hn : next.opens = true) :
    spaced t next = true := by
  unfold spaced
  split
  · cases hn
  · cases hn
  · cases hn
  · cases h
  · cases h
  · cases h
  · rfl

/-- The space behind a token that can sign an operand. -/
theorem behind_sign (sign : Bool)
    (hfits : Fits before.endsOperand (front ++ (l, marked) :: (m, other) :: back))
    (hl : l.token.canSign = true) (hm : m.token.opens = true) :
    ∃ s, behind before sign (tokens (front ++ (l, marked) :: (m, other) :: back)) =
      behind before sign (tokens (front ++ [(l, marked)])) ++ (if marked then "" else " ") ++
        m.token.text ++ behind m.token s (tokens back) := by
  induction front generalizing before sign with
  | nil =>
    obtain rfl : marked = !before.endsOperand := hfits.1 hl
    refine ⟨m.token.canSign && !l.token.endsOperand, ?_⟩
    simp only [List.nil_append, List.map_cons, List.map_nil, behind, hl, Bool.true_and,
      spaced_of_canSign hl hm, String.append_assoc, String.append_empty]
    cases before.endsOperand <;> simp
  | cons p front ih =>
    obtain ⟨s, hs⟩ := ih _ hfits.2
    refine ⟨s, ?_⟩
    simp only [List.cons_append, List.map_cons, behind] at hs ⊢
    rw [hs]
    simp only [String.append_assoc]

/-- The space behind a token of a caption that can sign an operand. -/
theorem ofTokens_sign (hfits : Fits false (front ++ (l, marked) :: (m, other) :: back))
    (hl : l.token.canSign = true) (hm : m.token.opens = true) :
    ∃ s, ofTokens (tokens (front ++ (l, marked) :: (m, other) :: back)) =
      ofTokens (tokens (front ++ [(l, marked)])) ++ (if marked then "" else " ") ++
        m.token.text ++ behind m.token s (tokens back) := by
  cases front with
  | nil =>
    obtain rfl : marked = true := hfits.1 hl
    refine ⟨m.token.canSign && !l.token.endsOperand, ?_⟩
    simp [ofTokens, behind, hl, String.append_assoc]
  | cons p front =>
    obtain ⟨s, hs⟩ := behind_sign p.1.token.canSign hfits.2 hl hm
    refine ⟨s, ?_⟩
    simp only [List.cons_append, List.map_cons, ofTokens] at hs ⊢
    rw [hs]
    simp only [String.append_assoc]

end Caption

/-- A token of an expression that can sign an operand has an operand behind it. -/
theorem Grammar.Signed.next_opens {k : Kind} {a : k.Value} {l : Lexeme} {marked : Bool}
    {front back : Marked} (h : Signed k a (front ++ (l, marked) :: back))
    (hl : l.token.canSign = true) :
    ∃ m other rest, back = (m, other) :: rest ∧ m.token.opens = true := by
  have hlinked := h.spells.linked
  rcases back with _ | ⟨⟨m, other⟩, rest⟩
  · have hlast := hlinked.last l (by simp)
    rw [Token.canSign_of_binds hlast] at hl
    cases hl
  · have hchain := hlinked.chain
    rw [Marked.lexemes, List.map_append, List.map_cons, List.map_cons] at hchain
    have hmeets := (List.isChain_cons_cons.mp (List.isChain_append.mp hchain).2.1).1
    exact ⟨m, other, rest, rfl, hmeets.signed hl⟩

/-- The label and the caption of a result column that is an expression. -/
def ResultColumn.captioned? : ResultColumn → Option (Option String × String)
  | .expr _ label caption _ => some (label, caption)
  | _ => none

theorem ResultColumn.eq_of_captioned? {column : ResultColumn} {label : Option String}
    {caption : String} (h : column.captioned? = some (label, caption)) :
    ∃ e place, column = .expr e label caption place := by
  cases column with
  | expr e label' caption' place =>
    cases h
    exact ⟨e, place, rfl⟩
  | _ => cases h

namespace Parse

variable {text caption : String} {before : List Lexeme} {c c' : Cursor} {e : Expr}
  {label : Option String} {place : Position}

/-- **A caption and the reader agree on the operators in front of an operand.** The tokens of an
expression that was read as a result column have marks in the grammar, and in the caption of the
column a minus, a plus or a tilde stands right in front of the next token if it is marked, and a
space apart from it if it is not. -/
theorem caption_signs (htext : tokenize text = .ok (before ++ c.current :: c.later))
    (h : (resultColumn expression).run c = .ok (.expr e label caption place) c') :
    ∃ ls as, c = c'.prepend (ls ++ as) ∧ SpellsLabel label as ∧
      (∃ ms : Marked, ms.lexemes = ls ∧ Signed (.expr .or) e ms) ∧
      ∀ ms : Marked, ms.lexemes = ls → Signed (.expr .or) e ms →
        ∀ front l marked back, ms = front ++ (l, marked) :: back → l.token.canSign = true →
          ∃ next rest sign, Caption.tokens back = next :: rest ∧
            caption = Caption.ofTokens (Caption.tokens (front ++ [(l, marked)])) ++
              (if marked then "" else " ") ++ next.text ++ Caption.behind next sign rest := by
  rw [← Cursor.lexemes_prepend] at htext
  have hready := (ready_of_tokenize htext).behind
  obtain ⟨ls, rfl, hspells⟩ := passes_resultColumn passes_expression hready h
  cases hspells with
  | @computed _ l ls as _ hls has =>
    refine ⟨l :: ls, as, rfl, has, hls.signed, ?_⟩
    rintro ms hms hsigned front l' marked back rfl hl'
    obtain ⟨m, other, rest, rfl, hm⟩ := hsigned.next_opens hl'
    obtain ⟨sign, hcaption⟩ := Caption.ofTokens_sign hsigned.fits hl' hm
    refine ⟨m.token, Caption.tokens rest, sign, rfl, ?_⟩
    rw [← hms, ← hcaption, List.map_map]
    rfl

theorem caption_signs_of_exists : ∃ c c' e label caption place,
    tokenize "a-EXISTS(SELECT NOT NULL- -b LIMIT+1)as n" = .ok ([] ++ c.current :: c.later) ∧
      (resultColumn expression).run c = .ok (.expr e label caption place) c' ∧
      caption = "a - EXISTS (SELECT NOT NULL - -b LIMIT +1)" ∧
      ∃ ls as, c = c'.prepend (ls ++ as) ∧ ∃ ms : Marked, ms.lexemes = ls ∧
        Signed (.expr .or) e ms := by
  obtain ⟨c, column, c', htext, hrun, h⟩ := @run_of_any
    "a-EXISTS(SELECT NOT NULL- -b LIMIT+1)as n" _ (resultColumn expression)
    (fun _ column _ =>
      column.captioned? = some (some "n", "a - EXISTS (SELECT NOT NULL - -b LIMIT +1)"))
    (by decide +kernel)
  obtain ⟨e, place, rfl⟩ := ResultColumn.eq_of_captioned? (of_decide_eq_true h)
  obtain ⟨ls, as, hc, -, hms, -⟩ := @caption_signs _ _ [] _ _ _ _ _ htext hrun
  exact ⟨c, c', e, _, _, place, htext, hrun, rfl, ls, as, hc, hms⟩

end Parse

end RecordQuery
