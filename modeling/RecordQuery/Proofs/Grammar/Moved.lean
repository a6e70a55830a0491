import Mathlib.Data.List.Nodup
import RecordQuery.Proofs.Grammar.Spelling

/-! # Trees at other places

`Expr.moved f` is an expression with each place of a node replaced by its image under `f`; nothing
else of it changes, captions included. Tokens whose places are moved spell the moved tree
(`Spells.moved`), so what a run of tokens spells depends on its places only through the places that
nodes keep. -/

namespace RecordQuery

/-! ### Moved trees -/

section Trees
variable (f : Position → Position)

mutual

/-- An expression whose places are moved. -/
def Expr.moved : Expr → Expr
  | .literal v => .literal v
  | .column ref => .column ref
  | .parameter p place => .parameter p (f place)
  | .unary op e => .unary op e.moved
  | .binary op l r => .binary op l.moved r.moved
  | .between negated v low high => .between negated v.moved low.moved high.moved
  | .listed negated v items => .listed negated v.moved (movedExprs items)
  | .call name args place => .call name (movedExprs args) (f place)
  | .callStar name place => .callStar name (f place)
  | .existsRow s place => .existsRow s.moved (f place)

/-- Expressions whose places are moved. -/
def movedExprs : List Expr → List Expr
  | [] => []
  | e :: es => e.moved :: movedExprs es

/-- A result column whose places are moved. -/
def ResultColumn.moved : ResultColumn → ResultColumn
  | .star place => .star (f place)
  | .qualifiedStar table place => .qualifiedStar table (f place)
  | .expr e label caption place => .expr e.moved label caption (f place)

/-- Result columns whose places are moved. -/
def movedColumns : List ResultColumn → List ResultColumn
  | [] => []
  | c :: cs => c.moved :: movedColumns cs

/-- An expression to sort by whose places are moved. -/
def OrderingTerm.moved : OrderingTerm → OrderingTerm
  | ⟨e, direction, place⟩ => ⟨e.moved, direction, f place⟩

/-- Expressions to sort by whose places are moved. -/
def movedTerms : List OrderingTerm → List OrderingTerm
  | [] => []
  | t :: ts => t.moved :: movedTerms ts

/-- A condition whose places are moved, if there is one. -/
def movedExpr? : Option Expr → Option Expr
  | none => none
  | some e => some e.moved

/-- A limit whose places are moved, if there is one. -/
def movedLimit? : Option LimitClause → Option LimitClause
  | none => none
  | some ⟨count, offset, place⟩ => some ⟨count.moved, movedExpr? offset, f place⟩

/-- A statement whose places are moved. -/
def Statement.moved : Statement → Statement
  | ⟨option, columns, source, condition, groupCondition, orderBy, limit⟩ =>
    ⟨option, movedColumns columns, source, movedExpr? condition, movedExpr? groupCondition,
      movedTerms orderBy, movedLimit? limit⟩

end

end Trees

namespace Grammar

/-- An item whose places are moved. -/
def Item.moved (f : Position → Position) : (i : Item) → i.Value → i.Value
  | .expression, e => Expr.moved f e
  | .column, c => ResultColumn.moved f c
  | .term, t => OrderingTerm.moved f t

/-- Items whose places are moved. -/
def Item.movedAll (f : Position → Position) : (i : Item) → List i.Value → List i.Value
  | .expression, es => movedExprs f es
  | .column, cs => movedColumns f cs
  | .term, ts => movedTerms f ts

/-- A tree of any kind whose places are moved. -/
def Kind.moved (f : Position → Position) : (k : Kind) → k.Value → k.Value
  | .expr _, e => Expr.moved f e
  | .item i, a => i.moved f a
  | .list i, as => i.movedAll f as
  | .clause _, e => movedExpr? f e
  | .sorting, ts => movedTerms f ts
  | .limit, l => movedLimit? f l
  | .statement, s => Statement.moved f s

/-- A change of tokens that keeps what they are and moves where they start. -/
structure Moves (f : Position → Position) (g : Lexeme → Lexeme) : Prop where
  token : ∀ l, (g l).token = l.token
  start : ∀ l, (g l).start = f l.start

variable {f : Position → Position} {g : Lexeme → Lexeme} {ls : List Lexeme} {l : Lexeme}
  {k : Token} {n : String}

/-! ### Spellings of moved trees -/

namespace Moves

theorem tokens (hg : Moves f g) (ls : List Lexeme) :
    (ls.map g).map Lexeme.token = ls.map Lexeme.token := by
  rw [List.map_map]
  exact List.map_congr_left fun l _ => hg.token l

theorem eq (hg : Moves f g) (h : l.token = k) : (g l).token = k := (hg.token l).trans h

theorem name (hg : Moves f g) (h : l.token.name? = some n) : (g l).token.name? = some n := by
  rw [hg.token, h]

theorem begins (hg : Moves f g) : Begins k (ls.map g) ↔ Begins k ls := by
  rw [Begins, Begins, ← List.head?_map, ← List.head?_map, hg.tokens]

theorem ref (hg : Moves f g) {ref : ColumnRef} (h : SpellsRef ref ls) :
    SpellsRef ref (ls.map g) := by
  cases h with
  | bare h => exact .bare (hg.name h)
  | table hl hd hm => exact .table (hg.name hl) (hg.eq hd) (hg.name hm)
  | database hl hd hm he ho =>
    exact .database (hg.name hl) (hg.eq hd) (hg.name hm) (hg.eq he) (hg.name ho)

theorem label (hg : Moves f g) {label : Option String} (h : SpellsLabel label ls) :
    SpellsLabel label (ls.map g) := by
  cases h with
  | absent => exact .absent
  | plain h => exact .plain (hg.name h)
  | marked ha h => exact .marked (hg.eq ha) (hg.name h)

theorem source (hg : Moves f g) {source : Option FromClause} (h : SpellsSource source ls) :
    SpellsSource source (ls.map g) := by
  cases h with
  | absent => exact .absent
  | bare hf hl h => exact .bare (hg.eq hf) (hg.name hl) (hg.label h)
  | qualified hf hl hd hm h =>
    exact .qualified (hg.eq hf) (hg.name hl) (hg.eq hd) (hg.name hm) (hg.label h)

theorem option (hg : Moves f g) {option : Option SelectOption} (h : SpellsOption option ls) :
    SpellsOption option (ls.map g) := by
  cases h with
  | absent => exact .absent
  | distinct h => exact .distinct (hg.eq h)
  | all h => exact .all (hg.eq h)

theorem direction (hg : Moves f g) {direction : Option Direction}
    (h : SpellsDirection direction ls) : SpellsDirection direction (ls.map g) := by
  cases h with
  | absent => exact .absent
  | ascending h => exact .ascending (hg.eq h)
  | descending h => exact .descending (hg.eq h)

end Moves

/-- Tokens that start at different places can be moved to any others. -/
theorem exists_moves {ms : List Lexeme} (hls : (ls.map Lexeme.start).Nodup)
    (h : ms.map Lexeme.token = ls.map Lexeme.token) : ∃ f g, Moves f g ∧ ls.map g = ms := by
  suffices hplaces : ∃ (f : Position → Position) (stop : Position → Nat),
      ls.map (fun l => ⟨l.token, f l.start, stop l.start⟩) = ms by
    obtain ⟨f, stop, hms⟩ := hplaces
    exact ⟨f, fun l => ⟨l.token, f l.start, stop l.start⟩, ⟨fun _ => rfl, fun _ => rfl⟩, hms⟩
  induction ls generalizing ms with
  | nil =>
    obtain rfl := List.map_eq_nil_iff.mp h
    exact ⟨id, Position.offset, rfl⟩
  | cons l ls ih =>
    obtain ⟨m, ms, rfl, hm, hms⟩ := List.map_eq_cons_iff.mp h
    obtain ⟨hl, hls⟩ := List.nodup_cons.mp hls
    obtain ⟨f, stop, rfl⟩ := ih hls hms
    -- The place of the first token is that of no other one.
    refine ⟨Function.update f l.start m.start, Function.update stop l.start m.stop, ?_⟩
    rw [List.map_cons, Function.update_self, Function.update_self, ← hm]
    refine congrArg (m :: ·) (List.map_congr_left fun k hk => ?_)
    have hne : k.start ≠ l.start := fun heq => hl (heq ▸ List.mem_map_of_mem hk)
    rw [Function.update_of_ne hne, Function.update_of_ne hne]

theorem isStringLiteral_moved (f : Position → Position) (e : Expr) :
    Parse.isStringLiteral (e.moved f) = Parse.isStringLiteral e := by
  cases e <;> rfl

theorem admits_moved (hg : Moves f g) {op : BinaryOp} {r : Expr} (h : Admits op r ls) :
    Admits op (r.moved f) (ls.map g) := by
  cases op with
  | like | notLike => exact (isStringLiteral_moved f r).trans h
  | membership | notMembership => exact fun hb => h (hg.begins.mp hb)
  | _ => trivial

/-- **Moved tokens** spell the moved tree. -/
theorem Spells.moved (hg : Moves f g) {k : Kind} {a : k.Value} (h : Spells k a ls) :
    Spells k (k.moved f a) (ls.map g) := by
  induction h with
  | literal h => exact .literal (hg.eq h)
  | parameter h =>
    rw [Kind.moved, Expr.moved, ← hg.start]
    exact .parameter (hg.eq h)
  | column h => exact .column (hg.ref h)
  | group ho _ hc ih =>
    rw [List.map_cons, List.map_append]
    exact .group (hg.eq ho) ih (hg.eq hc)
  | callStar hf ho hs hc =>
    rw [Kind.moved, Expr.moved, ← hg.start]
    exact .callStar (hg.name hf) (hg.eq ho) (hg.eq hs) (hg.eq hc)
  | callNone hf ho hc =>
    rw [Kind.moved, Expr.moved, ← hg.start]
    exact .callNone (hg.name hf) (hg.eq ho) (hg.eq hc)
  | call hf ho _ hc ih =>
    rw [Kind.moved, Expr.moved, ← hg.start, List.map_cons, List.map_cons, List.map_append]
    exact .call (hg.name hf) (hg.eq ho) ih (hg.eq hc)
  | existsRow hx ho _ hc ih =>
    rw [Kind.moved, Expr.moved, ← hg.start, List.map_cons, List.map_cons, List.map_append]
    exact .existsRow (hg.eq hx) (hg.eq ho) ih (hg.eq hc)
  | notNull h => exact .notNull (hg.eq h)
  | leading ho _ hn ih =>
    exact .leading (by rw [hg.token]; exact ho) ih fun hop hb => hn hop (hg.begins.mp hb)
  | trailing _ ho ih =>
    rw [List.map_append]
    exact .trailing ih (by rw [hg.token]; exact ho)
  | operator _ ho _ ha ihl ihr =>
    rw [List.map_append]
    exact .operator ihl (by rw [hg.token]; exact ho) ihr (admits_moved hg ha)
  | is _ hi _ hn hn' ihl ihr =>
    rw [List.map_append]
    exact .is ihl (hg.eq hi) ihr (mt hg.begins.mp hn) (mt hg.begins.mp hn')
  | isNot _ hi hn _ hb ihl ihr =>
    rw [List.map_append]
    exact .isNot ihl (hg.eq hi) (hg.eq hn) ihr (mt hg.begins.mp hb)
  | isNotNull _ hi hn ihl =>
    rw [List.map_append]
    exact .isNotNull ihl (hg.eq hi) (hg.eq hn)
  | between _ hb _ ha _ ihv ihlo ihhi =>
    rw [List.map_append, List.map_cons, List.map_append]
    exact .between ihv (hg.eq hb) ihlo (hg.eq ha) ihhi
  | listed _ hi ho _ hc ihv ih =>
    rw [List.map_append, List.map_cons, List.map_cons, List.map_append]
    exact .listed ihv (hg.eq hi) (hg.eq ho) ih (hg.eq hc)
  | loosen _ ih => exact .loosen ih
  | expression _ ih => exact .expression ih
  | star h =>
    rw [Kind.moved, Item.moved, ResultColumn.moved, ← hg.start]
    exact .star (hg.eq h)
  | qualifiedStar hn hd hs =>
    rw [Kind.moved, Item.moved, ResultColumn.moved, ← hg.start]
    exact .qualifiedStar (hg.name hn) (hg.eq hd) (hg.eq hs)
  | computed _ ha ih =>
    rw [Kind.moved, Item.moved, ResultColumn.moved, ← hg.start, ← hg.tokens, List.map_append]
    exact .computed ih (hg.label ha)
  | term _ hd ih =>
    rw [Kind.moved, Item.moved, OrderingTerm.moved, ← hg.start, List.map_append]
    exact .term ih (hg.direction hd)
  | @one i _ _ _ ih => cases i <;> exact .one ih
  | @more i _ _ _ _ _ _ hc _ ih ihs =>
    rw [List.map_append]
    cases i <;> exact .more ih (hg.eq hc) ihs
  | absent => exact .absent
  | present hl _ ih => exact .present (hg.eq hl) ih
  | unsorted => exact .unsorted
  | sorted ho hb _ ih => exact .sorted (hg.eq ho) (hg.eq hb) ih
  | unlimited => exact .unlimited
  | count hw _ ih =>
    rw [Kind.moved, movedLimit?, ← hg.start]
    exact .count (hg.eq hw) ih
  | countOffset hw _ ho _ ih ihf =>
    rw [Kind.moved, movedLimit?, ← hg.start, List.map_cons, List.map_append]
    exact .countOffset (hg.eq hw) ih (hg.eq ho) ihf
  | offsetCount hw _ hc _ ih ihf =>
    rw [Kind.moved, movedLimit?, ← hg.start, List.map_cons, List.map_append]
    exact .offsetCount (hg.eq hw) ih (hg.eq hc) ihf
  | statement h ho _ hf _ _ _ _ ihc ihw ihh ihb ihm =>
    simp only [List.map_cons, List.map_append]
    exact .statement (hg.eq h) (hg.option ho) ihc (hg.source hf) ihw ihh ihb ihm

end Grammar

end RecordQuery
