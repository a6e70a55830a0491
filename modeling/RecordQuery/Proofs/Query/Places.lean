import Mathlib.Data.List.Forall2
import RecordQuery.Query.Cursor
import RecordQuery.Query.Expression

/-! # Trees and tokens apart from their places

Two texts with the same tokens differ in the places of the tokens alone. `Expr.Kin R` and its like
relate trees that are the same up to places, where places that stand for one another are related by
`R`; what an `EXISTS` asks for may differ, since no program can express it. Trees that are read keep
the rule that a pattern of `LIKE` is a string literal, and so do related ones. -/

namespace RecordQuery

variable (R : Position → Position → Prop)

/-- The same token at two places. -/
structure Lexeme.Kin (l m : Lexeme) : Prop where
  token : l.token = m.token
  start : R l.start m.start

/-- Cursors in front of the same tokens. -/
def Cursor.Kin (c d : Cursor) : Prop :=
  List.Forall₂ (Lexeme.Kin R) (c.current :: c.later) (d.current :: d.later)

/-- The same fault at two places. -/
structure ParseError.Kin (e f : ParseError) : Prop where
  fault : e.fault = f.fault
  position : R e.position f.position

mutual

/-- Expressions that are the same up to places. -/
inductive Expr.Kin : Expr → Expr → Prop
  | literal (v : Literal) : Expr.Kin (.literal v) (.literal v)
  | column (ref : ColumnRef) : Expr.Kin (.column ref) (.column ref)
  | parameter (p : Parameter) {q r : Position} (h : R q r) :
      Expr.Kin (.parameter p q) (.parameter p r)
  | unary (op : UnaryOp) {e f : Expr} (h : Expr.Kin e f) : Expr.Kin (.unary op e) (.unary op f)
  | binary (op : BinaryOp) {l l' r r' : Expr} (hl : Expr.Kin l l') (hr : Expr.Kin r r')
      (hp : op = .like ∨ op = .notLike → Parse.isStringLiteral r = true) :
      Expr.Kin (.binary op l r) (.binary op l' r')
  | between (negated : Bool) {v v' low low' high high' : Expr} (hv : Expr.Kin v v')
      (hl : Expr.Kin low low') (hh : Expr.Kin high high') :
      Expr.Kin (.between negated v low high) (.between negated v' low' high')
  | listed (negated : Bool) {v v' : Expr} {items items' : List Expr} (hv : Expr.Kin v v')
      (hs : AllKin items items') : Expr.Kin (.listed negated v items) (.listed negated v' items')
  | call (name : String) {args args' : List Expr} {p q : Position} (hs : AllKin args args')
      (hp : R p q) : Expr.Kin (.call name args p) (.call name args' q)
  | callStar (name : String) {p q : Position} (hp : R p q) :
      Expr.Kin (.callStar name p) (.callStar name q)
  | existsRow (s s' : Statement) {p q : Position} (hp : R p q) :
      Expr.Kin (.existsRow s p) (.existsRow s' q)

/-- Lists of expressions that are the same up to places. -/
inductive AllKin : List Expr → List Expr → Prop
  | nil : AllKin [] []
  | cons {e f : Expr} {es fs : List Expr} (h : Expr.Kin e f) (hs : AllKin es fs) :
      AllKin (e :: es) (f :: fs)

end

/-- Result columns that are the same up to places. -/
inductive ResultColumn.Kin : ResultColumn → ResultColumn → Prop
  | star {p q : Position} (h : R p q) : ResultColumn.Kin (.star p) (.star q)
  | qualifiedStar (table : String) {p q : Position} (h : R p q) :
      ResultColumn.Kin (.qualifiedStar table p) (.qualifiedStar table q)
  | expr {e f : Expr} (label : Option String) (text : String) {p q : Position}
      (h : Expr.Kin R e f) (hp : R p q) :
      ResultColumn.Kin (.expr e label text p) (.expr f label text q)

/-- Terms to sort by that are the same up to places. -/
structure OrderingTerm.Kin (t u : OrderingTerm) : Prop where
  expr : t.expr.Kin R u.expr
  direction : t.direction = u.direction
  position : R t.position u.position

/-- Limits that are the same up to places. -/
structure LimitClause.Kin (l m : LimitClause) : Prop where
  count : l.count.Kin R m.count
  offset : Option.Rel (Expr.Kin R) l.offset m.offset
  position : R l.position m.position

/-- Statements that are the same up to places. -/
structure Statement.Kin (s t : Statement) : Prop where
  option : s.option = t.option
  columns : List.Forall₂ (ResultColumn.Kin R) s.columns t.columns
  source : s.source = t.source
  condition : Option.Rel (Expr.Kin R) s.condition t.condition
  groupCondition : Option.Rel (Expr.Kin R) s.groupCondition t.groupCondition
  orderBy : List.Forall₂ (OrderingTerm.Kin R) s.orderBy t.orderBy
  limit : Option.Rel (LimitClause.Kin R) s.limit t.limit

variable {R}

theorem allKin_of_forall {es fs : List Expr} (h : List.Forall₂ (Expr.Kin R) es fs) :
    AllKin R es fs := by
  induction h with
  | nil => exact .nil
  | cons h _ ih => exact .cons h ih

theorem AllKin.length_eq {es fs : List Expr} (h : AllKin R es fs) : es.length = fs.length := by
  induction es generalizing fs with
  | nil => cases h; rfl
  | cons e es ih =>
    cases h with
    | cons _ hs => rw [List.length_cons, ih hs, List.length_cons]

theorem Expr.Kin.isStringLiteral {e f : Expr} (h : e.Kin R f) :
    Parse.isStringLiteral f = Parse.isStringLiteral e := by
  cases h <;> rfl

/-! ### Cursors -/

namespace Cursor.Kin

variable {c d c' d' : Cursor}

theorem token (h : c.Kin R d) : d.token = c.token := by
  cases h with
  | cons h _ => exact h.token.symm

theorem start (h : c.Kin R d) : R c.current.start d.current.start := by
  cases h with
  | cons h _ => exact h.start

theorem later (h : c.Kin R d) : List.Forall₂ (Lexeme.Kin R) c.later d.later := by
  cases h with
  | cons _ hs => exact hs

theorem length_later (h : c.Kin R d) : d.later.length = c.later.length := h.later.length_eq.symm

theorem map_token {ls ms : List Lexeme} (h : List.Forall₂ (Lexeme.Kin R) ls ms) :
    ms.map Lexeme.token = ls.map Lexeme.token := by
  induction h with
  | nil => rfl
  | cons h _ ih => rw [List.map_cons, List.map_cons, ih, h.token]

theorem peek (h : c.Kin R d) : d.peek = c.peek := by
  have htoken := h.token
  have hs := h.later
  unfold Cursor.peek
  unfold Cursor.token at htoken
  cases hc : c.later <;> cases hd : d.later <;> rw [hc, hd] at hs <;> cases hs
  · exact htoken
  · next hl _ => exact hl.token.symm

theorem third (h : c.Kin R d) : d.later[1]?.map Lexeme.token = c.later[1]?.map Lexeme.token := by
  rw [← List.getElem?_map, ← List.getElem?_map, map_token h.later]

theorem upTo (h : c.Kin R d) (h' : c'.Kin R d') : d.upTo d' = c.upTo c' := by
  unfold Cursor.upTo
  rw [List.map_take, List.map_take, map_token h, h.length_later, h'.length_later]

theorem advance (h : c.Kin R d) : c.advance.Kin R d.advance := by
  have hs := h.later
  unfold Cursor.advance
  cases hc : c.later <;> cases hd : d.later <;> rw [hc, hd] at hs
  · exact h
  · cases hs
  · cases hs
  · exact hs

end Cursor.Kin

end RecordQuery
