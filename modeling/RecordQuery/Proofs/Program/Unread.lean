import RecordQuery.Proofs.Plan.Mapped
import RecordQuery.Proofs.Program.Parts

/-! # What a program does not depend on

Records are given to a program from outside and fields are looked up by their name alone. So `FROM`,
`HAVING`, `ALL` and the qualifiers of columns say nothing to it: a statement is compiled as if they
were not there (`Program.unread_parts`).

* `Expr.unqualified`, `Statement.unqualified`: the trees without them, at any depth; labels, places
  and the texts of columns stay;
* `Compile.expr_unqualified`: an expression is compiled the same, step by step, one case for each
  constructor;
* the columns are laid out in the same way, so the lemmas on `Projection.mapExpr` carry over to rows
  and their order. -/

namespace RecordQuery

/-- What stands behind `SELECT`, without `ALL`. -/
def SelectOption.withoutAll : Option SelectOption → Option SelectOption
  | some .all => none
  | option => option

mutual

/-- An expression without the qualifiers of its columns. -/
def Expr.unqualified : Expr → Expr
  | .literal v => .literal v
  | .column ref => .column (.bare ref.column)
  | .parameter p place => .parameter p place
  | .unary op e => .unary op e.unqualified
  | .binary op l r => .binary op l.unqualified r.unqualified
  | .between negated v low high =>
    .between negated v.unqualified low.unqualified high.unqualified
  | .listed negated v items => .listed negated v.unqualified (unqualifiedExprs items)
  | .call name args place => .call name (unqualifiedExprs args) place
  | .callStar name place => .callStar name place
  | .existsRow s place => .existsRow s.unqualified place

/-- Expressions without the qualifiers of their columns. -/
def unqualifiedExprs : List Expr → List Expr
  | [] => []
  | e :: es => e.unqualified :: unqualifiedExprs es

/-- Result columns without the qualifiers of the columns they read. -/
def unqualifiedColumns : List ResultColumn → List ResultColumn
  | [] => []
  | .star place :: cs => .star place :: unqualifiedColumns cs
  | .qualifiedStar table place :: cs => .qualifiedStar table place :: unqualifiedColumns cs
  | .expr e label text place :: cs => .expr e.unqualified label text place :: unqualifiedColumns cs

/-- Expressions to sort by without the qualifiers of their columns. -/
def unqualifiedTerms : List OrderingTerm → List OrderingTerm
  | [] => []
  | ⟨e, direction, place⟩ :: ts => ⟨e.unqualified, direction, place⟩ :: unqualifiedTerms ts

/-- A condition without the qualifiers of its columns, if there is one. -/
def unqualifiedExpr? : Option Expr → Option Expr
  | none => none
  | some e => some e.unqualified

/-- A limit without the qualifiers of its columns, if there is one. -/
def unqualifiedLimit? : Option LimitClause → Option LimitClause
  | none => none
  | some ⟨count, offset, place⟩ => some ⟨count.unqualified, unqualifiedExpr? offset, place⟩

/-- A statement without `ALL`, `FROM`, `HAVING` and the qualifiers of its columns. -/
def Statement.unqualified : Statement → Statement
  | ⟨option, columns, _, condition, _, orderBy, limit⟩ =>
    ⟨SelectOption.withoutAll option, unqualifiedColumns columns, none, unqualifiedExpr? condition,
      none, unqualifiedTerms orderBy, unqualifiedLimit? limit⟩

end

theorem length_unqualifiedExprs (es : List Expr) : (unqualifiedExprs es).length = es.length := by
  induction es with
  | nil => rfl
  | cons e es ih => exact congrArg Nat.succ ih

/-! ### Expressions -/

namespace Compile

theorem pattern?_unqualified (e : Expr) : pattern? e.unqualified = pattern? e := by
  rcases e with v | ref | _ | _ | _ | _ | _ | _ | _ | _ <;> rfl

theorem describe_unqualified (e : Expr) : describe e.unqualified = describe e := by
  rcases e with v | ref | _ | _ | _ | _ | _ | _ | _ | _ <;> rfl

/-- Of the right operand of an operator, a pattern or what messages say is looked at besides what it
is compiled to. -/
theorem expr_binary_congr {op : BinaryOp} {l r l' r' : Expr} (hl : expr l' = expr l)
    (hr : expr r' = expr r) (hpattern : pattern? r' = pattern? r)
    (hdescribe : describe r' = describe r) :
    expr (.binary op l' r') = expr (.binary op l r) := by
  unfold expr
  rw [hl, hr, hpattern, hdescribe]

mutual

theorem expr_unqualified : ∀ e : Expr, expr e.unqualified = expr e
  | .literal _ | .column _ | .parameter _ _ | .callStar _ _ | .existsRow _ _ => rfl
  | .unary op e => by
    change expr (.unary op e.unqualified) = _
    unfold expr
    rw [expr_unqualified e]
  | .binary _ l r =>
    expr_binary_congr (expr_unqualified l) (expr_unqualified r) (pattern?_unqualified r)
      (describe_unqualified r)
  | .between negated v low high => by
    change expr (.between negated v.unqualified low.unqualified high.unqualified) = _
    unfold expr
    rw [expr_unqualified v, expr_unqualified low, expr_unqualified high]
  | .listed negated v items => by
    change expr (.listed negated v.unqualified (unqualifiedExprs items)) = _
    unfold expr
    rw [expr_unqualified v, exprs_unqualified items]
  | .call name args place => by
    change expr (.call name (unqualifiedExprs args) place) = _
    unfold expr
    rw [length_unqualifiedExprs, arguments_unqualified args]

theorem exprs_unqualified : ∀ es : List Expr, exprs (unqualifiedExprs es) = exprs es
  | [] => rfl
  | e :: es => by
    rw [unqualifiedExprs, exprs, exprs, expr_unqualified e, exprs_unqualified es]

theorem arguments_unqualified : ∀ es : List Expr, arguments (unqualifiedExprs es) = arguments es
  | [] => rfl
  | e :: es => by
    rw [unqualifiedExprs, arguments, arguments, expr_unqualified e, arguments_unqualified es]

end

end Compile

/-! ### Columns, their order and limits -/

theorem keepsNames_unqualified : KeepsNames Expr.unqualified := by
  intro e label text
  rcases e with v | ref | _ | _ | _ | _ | _ | _ | _ | _
  · rcases v with _ | _ | _ | _ | _ | _ | _ | _ <;> rfl
  all_goals rfl

theorem unqualifiedColumns_eq (cs : List ResultColumn) :
    unqualifiedColumns cs = cs.map (ResultColumn.mapExpr Expr.unqualified) := by
  induction cs with
  | nil => rfl
  | cons c cs ih =>
    rcases c with place | ⟨table, place⟩ | ⟨e, label, text, place⟩ <;>
      rw [unqualifiedColumns, ih] <;> rfl

namespace RowOrder

theorem key_unqualified (p : Projection) (e : Expr) (direction : Option Direction)
    (place : Position) : key p ⟨e.unqualified, direction, place⟩ = key p ⟨e, direction, place⟩ := by
  rcases e with v | ref | _ | _ | _ | _ | _ | _ | _ | _
  · rfl
  · rcases p with _ | cs <;> rfl
  all_goals rfl

theorem keysOf_unqualified (p : Projection) (d : Direction) (terms : List OrderingTerm) :
    keysOf p d (unqualifiedTerms terms) = keysOf p d terms := by
  induction terms with
  | nil => rfl
  | cons t terms ih =>
    obtain ⟨e, direction, place⟩ := t
    rw [unqualifiedTerms, keysOf, keysOf, key_unqualified, ih]
    rfl

theorem ofTerms_unqualified (p : Projection) (terms : List OrderingTerm) :
    ofTerms p (unqualifiedTerms terms) = ofTerms p terms := by
  rcases terms with _ | ⟨⟨e, direction, place⟩, terms⟩
  · rfl
  · unfold ofTerms
    simp only [keysOf_unqualified]
    rfl

end RowOrder

namespace Slice

/-- Plus signs are passed, and what stands behind a minus sign is no sign again. -/
theorem integer_unqualified : ∀ e : Expr, integer e.unqualified = integer e
  | .unary .plus e => integer_unqualified e
  | .unary .negate e => by rcases e with v | ref | _ | _ | _ | _ | _ | _ | _ | _ <;> rfl
  | .unary .bitNot _ | .unary .not _ | .unary .isNull _ | .unary .notNull _ => rfl
  | .literal _ | .column _ | .parameter _ _ | .binary _ _ _ | .between _ _ _ _ | .listed _ _ _ => rfl
  | .call _ _ _ | .callStar _ _ | .existsRow _ _ => rfl

theorem operand_unqualified (l : LimitClause) (e : Expr) :
    operand ⟨l.count.unqualified, unqualifiedExpr? l.offset, l.position⟩ e.unqualified =
      operand l e := by
  unfold operand
  rw [integer_unqualified]

theorem ofLimit_unqualified (l : Option LimitClause) :
    ofLimit (unqualifiedLimit? l) = ofLimit l := by
  rcases l with _ | ⟨count, offset, place⟩
  · rfl
  · unfold ofLimit
    rw [unqualifiedLimit?]
    dsimp only
    rw [operand_unqualified ⟨count, offset, place⟩]
    rcases offset with _ | e
    · rfl
    · rw [unqualifiedExpr?]
      dsimp only
      rw [← operand_unqualified ⟨count, some e, place⟩ e]
      rfl

end Slice

/-! ### Programs -/

namespace Program

theorem entries_unqualified (cs : List Column) :
    entries (cs.map (Column.mapExpr Expr.unqualified)) = entries cs := by
  induction cs with
  | nil => rfl
  | cons c cs ih =>
    rw [List.map_cons, entries, entries, ih]
    change (do let f ← Compile.expr c.expr.unqualified; _) = _
    rw [Compile.expr_unqualified]
    rfl

theorem rowOf_unqualified (p : Projection) : rowOf (p.mapExpr Expr.unqualified) = rowOf p := by
  rcases p with _ | cs
  · rfl
  · change some <$> entries (cs.map _) = some <$> entries cs
    rw [entries_unqualified]

theorem conditionOf_unqualified (condition : Option Expr) :
    conditionOf (unqualifiedExpr? condition) = conditionOf condition := by
  rcases condition with _ | e
  · rfl
  · change some <$> Compile.expr e.unqualified = some <$> Compile.expr e
    rw [Compile.expr_unqualified]

theorem isDistinct_unqualified (s : Statement) : s.unqualified.isDistinct = s.isDistinct := by
  obtain ⟨_ | _ | _, columns, source, condition, having, orderBy, limit⟩ := s <;> rfl

theorem compile_unqualified (s : Statement) : compile s.unqualified = compile s := by
  have hdistinct := isDistinct_unqualified s
  obtain ⟨option, columns, source, condition, having, orderBy, limit⟩ := s
  rw [compile_eq, compile_eq, hdistinct, Statement.unqualified]
  dsimp only
  rw [unqualifiedColumns_eq, Projection.ofColumns_mapExpr keepsNames_unqualified,
    conditionOf_unqualified, Slice.ofLimit_unqualified]
  rcases Projection.ofColumns columns with error | projection
  · rfl
  · change (conditionOf condition >>= fun _ => rowOf (projection.mapExpr Expr.unqualified) >>= _) = _
    rw [rowOf_unqualified, RowOrder.ofTerms_mapExpr, RowOrder.ofTerms_unqualified,
      Projection.labels_mapExpr]
    rfl

/-- **`FROM`, `HAVING`, `ALL` and qualifiers** have no effect: without them a statement has the same
program, or the same error at the same place. -/
theorem unread_parts (s : Statement) : ofStatement s.unqualified = ofStatement s := by
  unfold ofStatement
  rw [compile_unqualified]

end Program

end RecordQuery
