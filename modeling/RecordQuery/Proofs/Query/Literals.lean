import RecordQuery.Proofs.Grammar.Soundness
import RecordQuery.Proofs.Number.Values

/-! # Trees that can be written

A minus sign in a query is an operator, so every integer in a tree that was read is one of a token,
and no token of a text holds a negative integer; and a list in parentheses has an item. So a
spelling in such tokens is of a tree that can be written (`Spells.written`), and so is every
statement that was read (`Statement.ofText_written`). -/

namespace RecordQuery

/-! ### Trees -/

mutual

/-- An expression in which no literal is a negative integer and no list is empty. -/
def Expr.Written : Expr → Prop
  | .literal (.number (.integer n)) => 0 ≤ n.toInt
  | .unary _ e => e.Written
  | .binary _ l r => l.Written ∧ r.Written
  | .between _ value low high => value.Written ∧ low.Written ∧ high.Written
  | .listed _ value items => value.Written ∧ items ≠ [] ∧ AllWritten items
  | .call _ args _ => AllWritten args
  | _ => True

/-- Expressions of that kind. -/
def AllWritten : List Expr → Prop
  | [] => True
  | e :: es => e.Written ∧ AllWritten es

end

theorem allWritten_iff {es : List Expr} : AllWritten es ↔ ∀ e ∈ es, e.Written := by
  induction es with
  | nil => simp [AllWritten]
  | cons e es ih => simp [AllWritten, ih]

/-- A result column whose expression is of that kind. -/
def ResultColumn.Written : ResultColumn → Prop
  | .expr e _ _ _ => e.Written
  | _ => True

/-- A statement whose columns, condition and limit are of that kind. -/
structure Statement.Written (st : Statement) : Prop where
  columns : ∀ c ∈ st.columns, c.Written
  condition : ∀ e ∈ st.condition, e.Written
  count : ∀ l ∈ st.limit, l.count.Written
  offset : ∀ l ∈ st.limit, ∀ e ∈ l.offset, e.Written

/-- A limit whose operands are of that kind. -/
def WrittenLimit (l : LimitClause) : Prop := l.count.Written ∧ ∀ e ∈ l.offset, e.Written

/-! ### Spellings -/

/-- A token that holds no negative integer. -/
def Token.Unsigned (t : Token) : Prop := ∀ n, t = .number (.integer n) → 0 ≤ n.toInt

namespace Grammar

/-- What is asked of a tree of a kind. -/
def Kind.Written : (k : Kind) → k.Value → Prop
  | .expr _, e | .item .expression, e => Expr.Written e
  | .item .column, c => ResultColumn.Written c
  | .list .expression, es => es ≠ [] ∧ ∀ e ∈ es, Expr.Written e
  | .list .column, cs => ∀ c ∈ cs, ResultColumn.Written c
  | .clause _, o => ∀ e ∈ o, Expr.Written e
  | .limit, o => ∀ l ∈ o, WrittenLimit l
  | .statement, st => Statement.Written st
  | _, _ => True

theorem written_literal {v : Literal} {l : Lexeme} (h : l.token = v.token)
    (hl : l.token.Unsigned) : (Expr.literal v).Written := by
  cases v with
  | number n =>
    cases n with
    | integer n => exact hl n h
    | real d | float x => trivial
  | _ => trivial

/-- **Tokens without negative integers** spell trees that can be written. -/
theorem Spells.written {k : Kind} {a : k.Value} {ls : List Lexeme} (h : Spells k a ls)
    (hls : ∀ l ∈ ls, l.token.Unsigned) : k.Written a := by
  induction h with
  | literal h => exact written_literal h (hls _ List.mem_cons_self)
  | parameter | column | callStar | existsRow | callNone | star | qualifiedStar | unsorted | term
  | sorted => trivial
  | notNull => exact trivial
  | absent | unlimited => exact nofun
  | group _ _ _ ih | leading _ _ _ ih => exact ih fun l hl => hls l (by simp [hl])
  | trailing _ _ ih => exact ih fun l hl => hls l (by simp [hl])
  | call _ _ _ _ ih => exact allWritten_iff.mpr (ih fun l hl => hls l (by simp [hl])).2
  | operator _ _ _ _ ihl ihr | is _ _ _ _ _ ihl ihr | isNot _ _ _ _ _ ihl ihr =>
    exact ⟨ihl fun l hl => hls l (by simp [hl]), ihr fun l hl => hls l (by simp [hl])⟩
  | isNotNull _ _ _ ih => exact ⟨ih fun l hl => hls l (by simp [hl]), trivial⟩
  | between _ _ _ _ _ ihv ihl ihh =>
    exact ⟨ihv fun l hl => hls l (by simp [hl]), ihl fun l hl => hls l (by simp [hl]),
      ihh fun l hl => hls l (by simp [hl])⟩
  | listed _ _ _ _ _ ihv ihs =>
    obtain ⟨hne, hitems⟩ := ihs fun l hl => hls l (by simp [hl])
    exact ⟨ihv fun l hl => hls l (by simp [hl]), hne, allWritten_iff.mpr hitems⟩
  | loosen _ ih | expression _ ih => exact ih hls
  | computed _ _ ih => exact ih fun l hl => hls l (List.mem_append_left _ hl)
  | @one i a ls h ih =>
    cases i with
    | expression => exact ⟨List.cons_ne_nil _ _, List.forall_mem_singleton.mpr (ih hls)⟩
    | column => exact List.forall_mem_singleton.mpr (ih hls)
    | term => trivial
  | @more i a as c ls rs h hc hs ih ihs =>
    have hfirst := ih fun l hl => hls l (by simp [hl])
    have hrest := ihs fun l hl => hls l (by simp [hl])
    cases i with
    | expression => exact ⟨List.cons_ne_nil _ _, List.forall_mem_cons.mpr ⟨hfirst, hrest.2⟩⟩
    | column => exact List.forall_mem_cons.mpr ⟨hfirst, hrest⟩
    | term => trivial
  | present _ _ ih =>
    intro e he
    cases he
    exact ih fun l hl => hls l (by simp [hl])
  | count _ _ ih =>
    intro l hl
    cases hl
    exact ⟨ih fun l hl => hls l (by simp [hl]), nofun⟩
  | countOffset _ _ _ _ ih ih' =>
    intro l hl
    cases hl
    refine ⟨ih fun l hl => hls l (by simp [hl]), fun e he => ?_⟩
    cases he
    exact ih' fun l hl => hls l (by simp [hl])
  | offsetCount _ _ _ _ ih ih' =>
    intro l hl
    cases hl
    refine ⟨ih' fun l hl => hls l (by simp [hl]), fun e he => ?_⟩
    cases he
    exact ih fun l hl => hls l (by simp [hl])
  | statement _ _ _ _ _ _ _ _ ihc ihw _ _ ihm =>
    have hlimit := ihm fun l hl => hls l (by simp [hl])
    exact ⟨ihc fun l hl => hls l (by simp [hl]), ihw fun l hl => hls l (by simp [hl]),
      fun l hl => (hlimit l hl).1, fun l hl => (hlimit l hl).2⟩

end Grammar

/-! ### Texts -/

theorem unsigned_of_tokenize {text : String} {ls : List Lexeme} (h : tokenize text = .ok ls) :
    ∀ l ∈ ls, l.token.Unsigned := by
  intro l hl n hn
  obtain ⟨k, hk⟩ := literal_of_tokenize h hl hn
  exact NumberLiteral.nonneg_of_value? hk

/-- **A statement that was read** holds no negative integer. -/
theorem Statement.ofText_written {text : String} {st : Statement}
    (h : Statement.ofText text = .ok st) : st.Written := by
  obtain ⟨ls, tail, last, htokens, hspells, -, -⟩ := spells_ofText h
  exact hspells.written fun l hl => unsigned_of_tokenize htokens l (List.mem_append_left _ hl)

end RecordQuery
