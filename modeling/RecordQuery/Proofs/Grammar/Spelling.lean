import RecordQuery.Query.Reader

/-! # Spellings of query trees

The grammar of queries as a relation between trees and runs of placed tokens. `Spells k a ls` says
that `ls` writes out `a`, which is of the kind `k`. An expression is written out at a tier: what is
spelled at a tier may stand where any looser tier is wanted (`loosen`), and in parentheses it may
stand anywhere (`group`), so parentheses are there where a looser operand needs them, and any number
of them may be added. Nodes that keep a place keep that of their first token.

Three spellings depend on the token that an operand begins with. Behind `IS` an operand cannot begin
with `NOT`, behind `IS NOT` and behind a `NOT` in front of an operand it cannot begin with `NULL`,
and behind an `IN` without a list it cannot begin with a parenthesis. `NOT NULL` itself is one token
in all its three uses. -/

namespace RecordQuery

/-- The place of a tier in the order from the loosest one to the tightest. -/
def Tier.rank : Tier → Nat
  | or => 0
  | and => 1
  | membership => 2
  | between => 3
  | comparison => 4
  | relational => 5
  | bitwise => 6
  | additive => 7
  | multiplicative => 8
  | concat => 9
  | nullTest => 10
  | sign => 11
  | primary => 12

/-- The tier of an operator of two operands. -/
def BinaryOp.tier : BinaryOp → Tier
  | concat => .concat
  | multiply | divide | modulo => .multiplicative
  | add | subtract => .additive
  | shiftLeft | shiftRight | bitAnd | bitOr => .bitwise
  | less | lessEqual | greater | greaterEqual => .relational
  | equal | doubleEqual | notEqual | lessGreater | is | isNot => .comparison
  | like | notLike | regexp | notRegexp | membership | notMembership => .comparison
  | and => .and
  | or => .or

/-- The token of an operator of two operands, apart from `IS` and `IS NOT`, whose spelling depends
on what follows. -/
def BinaryOp.token? : BinaryOp → Option Token
  | concat => some (.symbol .concat)
  | multiply => some (.symbol .star)
  | divide => some (.symbol .slash)
  | modulo => some (.symbol .percent)
  | add => some (.symbol .plus)
  | subtract => some (.symbol .minus)
  | shiftLeft => some (.symbol .shiftLeft)
  | shiftRight => some (.symbol .shiftRight)
  | bitAnd => some (.symbol .ampersand)
  | bitOr => some (.symbol .pipe)
  | less => some (.symbol .less)
  | lessEqual => some (.symbol .lessEqual)
  | greater => some (.symbol .greater)
  | greaterEqual => some (.symbol .greaterEqual)
  | equal => some (.symbol .equal)
  | doubleEqual => some (.symbol .doubleEqual)
  | notEqual => some (.symbol .notEqual)
  | lessGreater => some (.symbol .lessGreater)
  | is | isNot => none
  | like => some (.keyword .LIKE)
  | notLike => some (.negated .like)
  | regexp => some (.keyword .REGEXP)
  | notRegexp => some (.negated .regexp)
  | membership => some (.keyword .IN)
  | notMembership => some (.negated .membership)
  | and => some (.keyword .AND)
  | or => some (.keyword .OR)

/-- The token of a literal. -/
def Literal.token : Literal → Token
  | number n => .number n
  | string s => .string s
  | blob digits => .blob digits
  | boolean true => .keyword .TRUE
  | boolean false => .keyword .FALSE
  | null => .keyword .NULL
  | currentTime => .keyword .CURRENT_TIME
  | currentDate => .keyword .CURRENT_DATE
  | currentTimestamp => .keyword .CURRENT_TIMESTAMP

namespace Grammar

/-! ### Kinds of trees -/

/-- The things that stand in lists with commas between. -/
inductive Item where
  | expression | column | term

/-- The trees of an item. -/
abbrev Item.Value : Item → Type
  | expression => Expr
  | column => ResultColumn
  | term => OrderingTerm

/-- The clauses that hold one condition. -/
inductive Clause where
  | rows | groups

/-- The reserved word of a clause. -/
def Clause.word : Clause → Keyword
  | rows => .WHERE
  | groups => .HAVING

/-- What a run of tokens can write out: an expression at a tier, an item, a list of items, the
expression of a clause if it is there, the terms of `ORDER BY` if there are any, a limit if there is
one, and a statement. -/
inductive Kind where
  | expr (t : Tier)
  | item (i : Item)
  | list (i : Item)
  | clause (w : Clause)
  | sorting
  | limit
  | statement

/-- The trees of a kind. -/
abbrev Kind.Value : Kind → Type
  | expr _ => Expr
  | item i => i.Value
  | list i => List i.Value
  | clause _ => Option Expr
  | sorting => List OrderingTerm
  | limit => Option LimitClause
  | statement => Statement

/-! ### Spellings without expressions in them -/

/-- Whether a run begins with a given token. -/
def Begins (t : Token) (ls : List Lexeme) : Prop := ls.head?.map Lexeme.token = some t

/-- A column with its qualifiers, and dots between. -/
inductive SpellsRef : ColumnRef → List Lexeme → Prop
  | bare {l : Lexeme} {column : String} (h : l.token.name? = some column) :
      SpellsRef ⟨none, none, column⟩ [l]
  | table {l d m : Lexeme} {table column : String} (hl : l.token.name? = some table)
      (hd : d.token = .symbol .dot) (hm : m.token.name? = some column) :
      SpellsRef ⟨none, some table, column⟩ [l, d, m]
  | database {l d m e o : Lexeme} {database table column : String}
      (hl : l.token.name? = some database) (hd : d.token = .symbol .dot)
      (hm : m.token.name? = some table) (he : e.token = .symbol .dot)
      (ho : o.token.name? = some column) :
      SpellsRef ⟨some database, some table, column⟩ [l, d, m, e, o]

/-- A label, with or without `AS`. -/
inductive SpellsLabel : Option String → List Lexeme → Prop
  | absent : SpellsLabel none []
  | plain {l : Lexeme} {label : String} (h : l.token.name? = some label) :
      SpellsLabel (some label) [l]
  | marked {a l : Lexeme} {label : String} (ha : a.token = .keyword .AS)
      (h : l.token.name? = some label) : SpellsLabel (some label) [a, l]

/-- What stands behind `FROM`, and `FROM` itself, if it is there. -/
inductive SpellsSource : Option FromClause → List Lexeme → Prop
  | absent : SpellsSource none []
  | bare {f l : Lexeme} {ls : List Lexeme} {name : String} {label : Option String}
      (hf : f.token = .keyword .FROM) (hl : l.token.name? = some name) (h : SpellsLabel label ls) :
      SpellsSource (some ⟨none, name, label⟩) (f :: l :: ls)
  | qualified {f l d m : Lexeme} {ls : List Lexeme} {database name : String}
      {label : Option String} (hf : f.token = .keyword .FROM) (hl : l.token.name? = some database)
      (hd : d.token = .symbol .dot) (hm : m.token.name? = some name) (h : SpellsLabel label ls) :
      SpellsSource (some ⟨some database, name, label⟩) (f :: l :: d :: m :: ls)

/-- The word behind `SELECT`. -/
inductive SpellsOption : Option SelectOption → List Lexeme → Prop
  | absent : SpellsOption none []
  | distinct {l : Lexeme} (h : l.token = .keyword .DISTINCT) : SpellsOption (some .distinct) [l]
  | all {l : Lexeme} (h : l.token = .keyword .ALL) : SpellsOption (some .all) [l]

/-- The direction behind an expression to sort by. -/
inductive SpellsDirection : Option Direction → List Lexeme → Prop
  | absent : SpellsDirection none []
  | ascending {l : Lexeme} (h : l.token = .keyword .ASC) : SpellsDirection (some .ascending) [l]
  | descending {l : Lexeme} (h : l.token = .keyword .DESC) : SpellsDirection (some .descending) [l]

/-- What an operator asks of the operand on its right: a pattern of `LIKE` is a string literal, and
an operand of `IN` that is no list does not begin with a parenthesis. -/
def Admits (op : BinaryOp) (right : Expr) (ls : List Lexeme) : Prop :=
  match op with
  | .like | .notLike => Parse.isStringLiteral right = true
  | .membership | .notMembership => ¬ Begins (.symbol .leftParen) ls
  | _ => True

/-- The token of `IN` in front of a list, or of `NOT IN`. -/
def listToken (negated : Bool) : Token :=
  if negated then .negated .membership else .keyword .IN

/-- The token of `BETWEEN`, or of `NOT BETWEEN`. -/
def rangeToken (negated : Bool) : Token :=
  if negated then .negated .between else .keyword .BETWEEN

/-! ### Spellings -/

/-- **The grammar.** A run of tokens writes out a tree of a kind. -/
inductive Spells : (k : Kind) → k.Value → List Lexeme → Prop
  | literal {v : Literal} {l : Lexeme} (h : l.token = v.token) :
      Spells (.expr .primary) (Expr.literal v) [l]
  | parameter {p : Parameter} {l : Lexeme} (h : l.token = .parameter p) :
      Spells (.expr .primary) (Expr.parameter p l.start) [l]
  | column {ref : ColumnRef} {ls : List Lexeme} (h : SpellsRef ref ls) :
      Spells (.expr .primary) (Expr.column ref) ls
  | group {o c : Lexeme} {e : Expr} {ls : List Lexeme} (ho : o.token = .symbol .leftParen)
      (h : Spells (.expr .or) e ls) (hc : c.token = .symbol .rightParen) :
      Spells (.expr .primary) e (o :: (ls ++ [c]))
  | callStar {f o s c : Lexeme} {name : String} (hf : f.token.name? = some name)
      (ho : o.token = .symbol .leftParen) (hs : s.token = .symbol .star)
      (hc : c.token = .symbol .rightParen) :
      Spells (.expr .primary) (Expr.callStar name f.start) [f, o, s, c]
  | callNone {f o c : Lexeme} {name : String} (hf : f.token.name? = some name)
      (ho : o.token = .symbol .leftParen) (hc : c.token = .symbol .rightParen) :
      Spells (.expr .primary) (Expr.call name [] f.start) [f, o, c]
  | call {f o c : Lexeme} {name : String} {args : List Expr} {ls : List Lexeme}
      (hf : f.token.name? = some name) (ho : o.token = .symbol .leftParen)
      (h : Spells (.list .expression) args ls) (hc : c.token = .symbol .rightParen) :
      Spells (.expr .primary) (Expr.call name args f.start) (f :: o :: (ls ++ [c]))
  | existsRow {x o c : Lexeme} {s : Statement} {ls : List Lexeme} (hx : x.token = .keyword .EXISTS)
      (ho : o.token = .symbol .leftParen) (h : Spells .statement s ls)
      (hc : c.token = .symbol .rightParen) :
      Spells (.expr .primary) (Expr.existsRow s x.start) (x :: o :: (ls ++ [c]))
  | notNull {l : Lexeme} (h : l.token = .negated .null) :
      Spells (.expr .sign) (Expr.unary .not (.literal .null)) [l]
  | leading {op : UnaryOp} {o : Lexeme} {e : Expr} {ls : List Lexeme}
      (ho : UnaryOp.leading? o.token = some op) (h : Spells (.expr .sign) e ls)
      (hn : op = .not → ¬ Begins (.keyword .NULL) ls) :
      Spells (.expr .sign) (Expr.unary op e) (o :: ls)
  | trailing {op : UnaryOp} {o : Lexeme} {e : Expr} {ls : List Lexeme}
      (h : Spells (.expr .nullTest) e ls) (ho : UnaryOp.trailing? o.token = some op) :
      Spells (.expr .nullTest) (Expr.unary op e) (ls ++ [o])
  | operator {op : BinaryOp} {o : Lexeme} {l r : Expr} {ls rs : List Lexeme}
      (hl : Spells (.expr op.tier) l ls) (ho : op.token? = some o.token)
      (hr : Spells (.expr op.tier.tighter) r rs) (ha : Admits op r rs) :
      Spells (.expr op.tier) (Expr.binary op l r) (ls ++ o :: rs)
  | is {i : Lexeme} {l r : Expr} {ls rs : List Lexeme} (hl : Spells (.expr .comparison) l ls)
      (hi : i.token = .keyword .IS) (hr : Spells (.expr .relational) r rs)
      (hn : ¬ Begins (.keyword .NOT) rs) (hn' : ¬ Begins (.negated .null) rs) :
      Spells (.expr .comparison) (Expr.binary .is l r) (ls ++ i :: rs)
  | isNot {i n : Lexeme} {l r : Expr} {ls rs : List Lexeme} (hl : Spells (.expr .comparison) l ls)
      (hi : i.token = .keyword .IS) (hn : n.token = .keyword .NOT)
      (hr : Spells (.expr .relational) r rs) (hb : ¬ Begins (.keyword .NULL) rs) :
      Spells (.expr .comparison) (Expr.binary .isNot l r) (ls ++ i :: n :: rs)
  | isNotNull {i n : Lexeme} {l : Expr} {ls : List Lexeme} (hl : Spells (.expr .comparison) l ls)
      (hi : i.token = .keyword .IS) (hn : n.token = .negated .null) :
      Spells (.expr .comparison) (Expr.binary .isNot l (.literal .null)) (ls ++ [i, n])
  | between {b a : Lexeme} {negated : Bool} {v low high : Expr} {vs los his : List Lexeme}
      (hv : Spells (.expr .between) v vs) (hb : b.token = rangeToken negated)
      (hlo : Spells (.expr .comparison) low los) (ha : a.token = .keyword .AND)
      (hhi : Spells (.expr .comparison) high his) :
      Spells (.expr .between) (Expr.between negated v low high) (vs ++ b :: (los ++ a :: his))
  | listed {i o c : Lexeme} {negated : Bool} {v : Expr} {items : List Expr} {vs ls : List Lexeme}
      (hv : Spells (.expr .membership) v vs) (hi : i.token = listToken negated)
      (ho : o.token = .symbol .leftParen) (h : Spells (.list .expression) items ls)
      (hc : c.token = .symbol .rightParen) :
      Spells (.expr .membership) (Expr.listed negated v items) (vs ++ i :: o :: (ls ++ [c]))
  | loosen {t : Tier} {e : Expr} {ls : List Lexeme} (h : Spells (.expr t.tighter) e ls) :
      Spells (.expr t) e ls
  | expression {e : Expr} {ls : List Lexeme} (h : Spells (.expr .or) e ls) :
      Spells (.item .expression) e ls
  | star {l : Lexeme} (h : l.token = .symbol .star) :
      Spells (.item .column) (ResultColumn.star l.start) [l]
  | qualifiedStar {n d s : Lexeme} {table : String} (hn : n.token.name? = some table)
      (hd : d.token = .symbol .dot) (hs : s.token = .symbol .star) :
      Spells (.item .column) (ResultColumn.qualifiedStar table n.start) [n, d, s]
  | computed {e : Expr} {l : Lexeme} {ls as : List Lexeme} {label : Option String}
      (h : Spells (.expr .or) e (l :: ls)) (ha : SpellsLabel label as) :
      Spells (.item .column)
        (ResultColumn.expr e label (Caption.ofTokens ((l :: ls).map Lexeme.token)) l.start)
        (l :: ls ++ as)
  | term {e : Expr} {l : Lexeme} {ls ds : List Lexeme} {direction : Option Direction}
      (h : Spells (.expr .or) e (l :: ls)) (hd : SpellsDirection direction ds) :
      Spells (.item .term) (OrderingTerm.mk e direction l.start) (l :: ls ++ ds)
  | one {i : Item} {a : i.Value} {ls : List Lexeme} (h : Spells (.item i) a ls) :
      Spells (.list i) [a] ls
  | more {i : Item} {a : i.Value} {as : List i.Value} {c : Lexeme} {ls rs : List Lexeme}
      (h : Spells (.item i) a ls) (hc : c.token = .symbol .comma) (hs : Spells (.list i) as rs) :
      Spells (.list i) (a :: as) (ls ++ c :: rs)
  | absent {w : Clause} : Spells (.clause w) none []
  | present {w : Clause} {l : Lexeme} {e : Expr} {ls : List Lexeme}
      (hl : l.token = .keyword w.word) (h : Spells (.expr .or) e ls) :
      Spells (.clause w) (some e) (l :: ls)
  | unsorted : Spells .sorting [] []
  | sorted {o b : Lexeme} {terms : List OrderingTerm} {ls : List Lexeme}
      (ho : o.token = .keyword .ORDER) (hb : b.token = .keyword .BY)
      (h : Spells (.list .term) terms ls) : Spells .sorting terms (o :: b :: ls)
  | unlimited : Spells .limit none []
  | count {w : Lexeme} {e : Expr} {ls : List Lexeme} (hw : w.token = .keyword .LIMIT)
      (h : Spells (.expr .or) e ls) : Spells .limit (some ⟨e, none, w.start⟩) (w :: ls)
  | countOffset {w o : Lexeme} {e f : Expr} {ls rs : List Lexeme} (hw : w.token = .keyword .LIMIT)
      (h : Spells (.expr .or) e ls) (ho : o.token = .keyword .OFFSET)
      (hf : Spells (.expr .or) f rs) :
      Spells .limit (some ⟨e, some f, w.start⟩) (w :: (ls ++ o :: rs))
  | offsetCount {w c : Lexeme} {e f : Expr} {ls rs : List Lexeme} (hw : w.token = .keyword .LIMIT)
      (h : Spells (.expr .or) f ls) (hc : c.token = .symbol .comma) (hf : Spells (.expr .or) e rs) :
      Spells .limit (some ⟨e, some f, w.start⟩) (w :: (ls ++ c :: rs))
  | statement {s : Lexeme} {option : Option SelectOption} {columns : List ResultColumn}
      {source : Option FromClause} {condition groupCondition : Option Expr}
      {orderBy : List OrderingTerm} {limit : Option LimitClause}
      {os cs fs ws hs bs ms : List Lexeme} (h : s.token = .keyword .SELECT)
      (ho : SpellsOption option os) (hc : Spells (.list .column) columns cs)
      (hf : SpellsSource source fs) (hw : Spells (.clause .rows) condition ws)
      (hh : Spells (.clause .groups) groupCondition hs) (hb : Spells .sorting orderBy bs)
      (hm : Spells .limit limit ms) :
      Spells .statement ⟨option, columns, source, condition, groupCondition, orderBy, limit⟩
        (s :: (os ++ (cs ++ (fs ++ (ws ++ (hs ++ (bs ++ ms)))))))

end Grammar

end RecordQuery
