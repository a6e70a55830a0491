import RecordQuery.Compile.QueryFunction
import RecordQuery.Proofs.Query.Literals
import RecordQuery.Proofs.Query.Parameters

/-! # The nodes of an expression

What a program can express is asked of each node of an expression alone (`Expr.Supported`), and what
is wrong with a node has its error (`Expr.Faulty`). Nodes inside a nested statement do not count,
since the node that holds the statement is at fault itself.

Some things the grammar sees to (`Expr.Grammatical`): in a statement that was read the pattern of a
`LIKE` is a string literal, and no number has a minus sign, at any node of any clause
(`Statement.ofText_grammatical`). -/

namespace RecordQuery

/-! ### Nodes -/

mutual

/-- The nodes of an expression, from the outermost one on. -/
def Expr.nodes : Expr → List Expr
  | .unary op e => .unary op e :: e.nodes
  | .binary op l r => .binary op l r :: (l.nodes ++ r.nodes)
  | .between negated value low high =>
    .between negated value low high :: (value.nodes ++ (low.nodes ++ high.nodes))
  | .listed negated value items => .listed negated value items :: (value.nodes ++ nodesOf items)
  | .call name args position => .call name args position :: nodesOf args
  | e => [e]

/-- The nodes of some expressions. -/
def nodesOf : List Expr → List Expr
  | [] => []
  | e :: es => e.nodes ++ nodesOf es

end

/-- A name that a named parameter can have: an identifier in ASCII that the compiler does not keep
for its own variables. -/
structure IsParameterName (name : String) : Prop where
  nonempty : name.toList ≠ []
  start : ∀ c ∈ name.toList.head?, c.isDigit = false
  chars : ∀ c ∈ name.toList, c.isAlphanum = true ∨ c = '_'
  free : ¬ "__mql_v".toList <+: name.toList

/-- A function that a name calls, ASCII case aside, and that takes a number of arguments. -/
structure QueryFunction.Takes (f : QueryFunction) (name : String) (given : Nat) : Prop where
  named : f.name = fold name
  least : f.arity.least ≤ given
  most : ∀ m ∈ f.arity.most, given ≤ m

/-- **A node that a program can express.** -/
def Expr.Supported : Expr → Prop
  | .existsRow _ _ | .callStar _ _ => False
  | .call name args _ => ∃ f : QueryFunction, f.Takes name args.length
  | .parameter (.named _ name) _ => IsParameterName name
  | _ => True

/-- **A node that no program can express**, and its error. -/
inductive Expr.Faulty : Expr → CompileError → Prop
  | existsRow {subquery : Statement} {position : Position} :
      Faulty (.existsRow subquery position) (.unsupported .existsSubquery position)
  | callStar {name : String} {position : Position} :
      Faulty (.callStar name position) (.unsupported (.starCall name) position)
  | unknown {name : String} {args : List Expr} {position : Position}
      (h : ∀ f : QueryFunction, f.name ≠ QueryFunction.fold name) :
      Faulty (.call name args position) (.unsupported (.unknownFunction name) position)
  | arity {name : String} {args : List Expr} {position : Position} {f : QueryFunction}
      (hf : f.name = QueryFunction.fold name) (h : ¬ f.Takes name args.length) :
      Faulty (.call name args position)
        (.unsupported (.wrongArity f.name args.length f.arity) position)
  | parameterName {sigil : Char} {name : String} {position : Position}
      (h : ¬ IsParameterName name) :
      Faulty (.parameter (.named sigil name) position)
        (.unsupported (.parameterName sigil name) position)

/-- A number without a minus sign. -/
def Number.Unsigned : Number → Prop
  | .integer n => 0 ≤ n.toInt
  | .real d => 0 ≤ d.coefficient
  | .float x => x.negative = false

/-- **A node that the grammar builds**: a number has no minus sign, and the pattern of a `LIKE` is a
string literal. -/
def Expr.Grammatical : Expr → Prop
  | .literal (.number n) => n.Unsigned
  | .binary .like _ r | .binary .notLike _ r => Parse.isStringLiteral r = true
  | _ => True

theorem QueryFunction.name_injective {f g : QueryFunction} (h : f.name = g.name) : f = g := by
  cases f <;> cases g <;> first | rfl | exact absurd h (by decide)

/-- A node is either supported or faulty. -/
theorem Expr.Faulty.not_supported {e : Expr} {error : CompileError} (h : e.Faulty error) :
    ¬ e.Supported := by
  cases h with
  | existsRow | callStar => exact id
  | unknown h => exact fun ⟨f, hf⟩ => h f hf.named
  | arity hf h =>
    rintro ⟨g, hg⟩
    obtain rfl := QueryFunction.name_injective (hf.trans hg.named.symm)
    exact h hg
  | parameterName h => exact h

theorem nodesOf_eq (es : List Expr) : nodesOf es = es.flatMap Expr.nodes := by
  induction es with
  | nil => rfl
  | cons e es ih => rw [nodesOf, ih, List.flatMap_cons]

/-! ### Spelled expressions -/

/-- An expression all nodes of which the grammar builds. -/
def Expr.AllGrammatical (e : Expr) : Prop := ∀ n ∈ e.nodes, n.Grammatical

/-- A limit with operands of that kind. -/
def LimitClause.AllGrammatical (l : LimitClause) : Prop :=
  l.count.AllGrammatical ∧ ∀ e ∈ l.offset, e.AllGrammatical

/-- A statement with expressions of that kind in all clauses. -/
structure Statement.AllGrammatical (st : Statement) : Prop where
  columns : ∀ c ∈ st.columns, ∀ e ∈ c.expr?, e.AllGrammatical
  condition : ∀ e ∈ st.condition, e.AllGrammatical
  groupCondition : ∀ e ∈ st.groupCondition, e.AllGrammatical
  orderBy : ∀ t ∈ st.orderBy, t.expr.AllGrammatical
  limit : ∀ l ∈ st.limit, l.AllGrammatical

theorem allGrammatical_nodesOf {es : List Expr} :
    (∀ n ∈ nodesOf es, n.Grammatical) ↔ ∀ e ∈ es, e.AllGrammatical := by
  simp only [nodesOf_eq, List.mem_flatMap, forall_exists_index, and_imp]
  exact ⟨fun h e he n hn => h n e he hn, fun h n e he hn => h e he n hn⟩

theorem allGrammatical_literal {v : Literal} (h : (Expr.literal v).Grammatical) :
    (Expr.literal v).AllGrammatical := by
  intro n hn
  obtain rfl := List.mem_singleton.mp hn
  exact h

/-- The numbers among some tokens have no minus sign. -/
def AllUnsigned (ls : List Lexeme) : Prop := ∀ l ∈ ls, ∀ n, l.token = .number n → n.Unsigned

namespace Grammar

/-- What is said of the expressions in a tree of a kind. -/
def Kind.Grammatical : (k : Kind) → k.Value → Prop
  | .expr _, e | .item .expression, e => Expr.AllGrammatical e
  | .item .column, c => ∀ e ∈ ResultColumn.expr? c, e.AllGrammatical
  | .item .term, t => (OrderingTerm.expr t).AllGrammatical
  | .list .expression, es => ∀ e ∈ es, Expr.AllGrammatical e
  | .list .column, cs => ∀ c ∈ cs, ∀ e ∈ ResultColumn.expr? c, e.AllGrammatical
  | .list .term, ts | .sorting, ts => ∀ t ∈ ts, (OrderingTerm.expr t).AllGrammatical
  | .clause _, o => ∀ e ∈ o, Expr.AllGrammatical e
  | .limit, o => ∀ l ∈ o, LimitClause.AllGrammatical l
  | .statement, st => Statement.AllGrammatical st

theorem grammatical_of_token {v : Literal} {l : Lexeme} (h : l.token = v.token)
    (hl : ∀ n, l.token = .number n → n.Unsigned) : (Expr.literal v).Grammatical := by
  cases v with
  | number n => exact hl n h
  | _ => trivial

theorem grammatical_of_admits {op : BinaryOp} {l r : Expr} {rs : List Lexeme}
    (h : Admits op r rs) : (Expr.binary op l r).Grammatical := by
  cases op with
  | like | notLike => exact h
  | _ => trivial

/-- **Tokens without minus signs** spell trees that are grammatical. -/
theorem Spells.grammatical {k : Kind} {a : k.Value} {ls : List Lexeme} (h : Spells k a ls)
    (hls : AllUnsigned ls) : k.Grammatical a := by
  induction h with
  | literal h =>
    exact allGrammatical_literal (grammatical_of_token h (hls _ List.mem_cons_self))
  | parameter | column | callStar | existsRow | callNone =>
    intro n hn
    obtain rfl := List.mem_singleton.mp hn
    trivial
  | notNull => exact List.forall_mem_cons.mpr ⟨trivial, allGrammatical_literal trivial⟩
  | loosen _ ih | expression _ ih => exact ih hls
  | group _ _ _ ih => exact ih fun l hl => hls l (by simp [hl])
  | leading _ _ _ ih | trailing _ _ ih =>
    exact List.forall_mem_cons.mpr ⟨trivial, ih fun l hl => hls l (by simp [hl])⟩
  | call _ _ _ _ ih =>
    exact List.forall_mem_cons.mpr
      ⟨trivial, allGrammatical_nodesOf.mpr (ih fun l hl => hls l (by simp [hl]))⟩
  | operator _ _ _ hadmits ihl ihr =>
    exact List.forall_mem_cons.mpr ⟨grammatical_of_admits hadmits, List.forall_mem_append.mpr
      ⟨ihl fun l hl => hls l (by simp [hl]), ihr fun l hl => hls l (by simp [hl])⟩⟩
  | is _ _ _ _ _ ihl ihr | isNot _ _ _ _ _ ihl ihr =>
    exact List.forall_mem_cons.mpr ⟨trivial, List.forall_mem_append.mpr
      ⟨ihl fun l hl => hls l (by simp [hl]), ihr fun l hl => hls l (by simp [hl])⟩⟩
  | isNotNull _ _ _ ih =>
    exact List.forall_mem_cons.mpr ⟨trivial, List.forall_mem_append.mpr
      ⟨ih fun l hl => hls l (by simp [hl]), allGrammatical_literal trivial⟩⟩
  | between _ _ _ _ _ ihv ihl ihh =>
    exact List.forall_mem_cons.mpr ⟨trivial, List.forall_mem_append.mpr
      ⟨ihv fun l hl => hls l (by simp [hl]), List.forall_mem_append.mpr
        ⟨ihl fun l hl => hls l (by simp [hl]), ihh fun l hl => hls l (by simp [hl])⟩⟩⟩
  | listed _ _ _ _ _ ihv ihs =>
    exact List.forall_mem_cons.mpr ⟨trivial, List.forall_mem_append.mpr
      ⟨ihv fun l hl => hls l (by simp [hl]),
        allGrammatical_nodesOf.mpr (ihs fun l hl => hls l (by simp [hl]))⟩⟩
  | star | qualifiedStar | absent | unsorted | unlimited => exact nofun
  | computed _ _ ih =>
    intro e he
    obtain rfl := Option.some.inj he
    exact ih fun l hl => hls l (List.mem_append_left _ hl)
  | term _ _ ih => exact ih fun l hl => hls l (List.mem_append_left _ hl)
  | @one i a ls _ ih => cases i <;> exact List.forall_mem_singleton.mpr (ih hls)
  | @more i a as c ls rs _ _ _ ih ihs =>
    have hfirst := ih fun l hl => hls l (by simp [hl])
    have hrest := ihs fun l hl => hls l (by simp [hl])
    cases i <;> exact List.forall_mem_cons.mpr ⟨hfirst, hrest⟩
  | present _ _ ih =>
    intro e he
    obtain rfl := Option.some.inj he
    exact ih fun l hl => hls l (by simp [hl])
  | sorted _ _ _ ih => exact ih fun l hl => hls l (by simp [hl])
  | count _ _ ih =>
    intro l hl
    obtain rfl := Option.some.inj hl
    exact ⟨ih fun l hl => hls l (by simp [hl]), nofun⟩
  | countOffset _ _ _ _ ih ih' =>
    intro l hl
    obtain rfl := Option.some.inj hl
    refine ⟨ih fun l hl => hls l (by simp [hl]), fun e he => ?_⟩
    obtain rfl := Option.some.inj he
    exact ih' fun l hl => hls l (by simp [hl])
  | offsetCount _ _ _ _ ih ih' =>
    intro l hl
    obtain rfl := Option.some.inj hl
    refine ⟨ih' fun l hl => hls l (by simp [hl]), fun e he => ?_⟩
    obtain rfl := Option.some.inj he
    exact ih fun l hl => hls l (by simp [hl])
  | statement _ _ _ _ _ _ _ _ ihc ihw ihh ihb ihm =>
    exact ⟨ihc fun l hl => hls l (by simp [hl]), ihw fun l hl => hls l (by simp [hl]),
      ihh fun l hl => hls l (by simp [hl]), ihb fun l hl => hls l (by simp [hl]),
      ihm fun l hl => hls l (by simp [hl])⟩

end Grammar

/-! ### Statements that were read -/

/-- A number literal denotes a number without a minus sign. -/
theorem NumberLiteral.unsigned {l : NumberLiteral} {n : Number} (h : l.value? = some n) :
    n.Unsigned := by
  obtain ⟨i, rfl, -⟩ | ⟨d, rfl, hd⟩ | ⟨x, rfl, hx⟩ := NumberLiteral.value?_cases h
  · exact nonneg_of_value? h
  · exact Decimal.nonneg_of_read? hd
  · exact Binary64.unsigned_of_ofTens? hx

theorem allUnsigned_of_tokenize {text : String} {ls : List Lexeme} (h : tokenize text = .ok ls) :
    AllUnsigned ls := by
  intro l hl n hn
  obtain ⟨k, hk⟩ := literal_of_tokenize h hl hn
  exact k.unsigned hk

/-- **A statement that was read** is grammatical. -/
theorem Statement.ofText_grammatical {text : String} {st : Statement}
    (h : Statement.ofText text = .ok st) : st.AllGrammatical := by
  obtain ⟨ls, tail, last, htokens, hspells, -, -⟩ := spells_ofText h
  exact hspells.grammatical fun l hl =>
    allUnsigned_of_tokenize htokens l (List.mem_append_left _ hl)

end RecordQuery
