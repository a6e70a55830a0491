import RecordQuery.Program.Basic
import RecordQuery.Proofs.Compile.Compiled
import RecordQuery.Proofs.Plan.Columns
import RecordQuery.Proofs.Query.Parameters

/-! # The parts of a program

A statement is compiled part by part, each part from what the parts before it have given out
(`compile_eq`). A program that comes out is put together from what its parts were compiled to
(`CompiledFrom`). -/

namespace RecordQuery

/-! ### Result columns -/

/-- The expression of a column: a string literal names a field. -/
def Expr.asColumn : Expr → Expr
  | .literal (.string name) => .column (.bare name)
  | e => e

namespace Projection

theorem expr_column (e : Expr) (label : Option String) (text : String) :
    (column e label text).expr = e.asColumn := by
  cases e with
  | literal v => cases v <;> rfl
  | _ => rfl

/-- The expressions of columns are those of the entries they are made from. -/
theorem exprs_columnsOf {cols : List ResultColumn} {cs : List Column} (h : columnsOf cols = .ok cs) :
    cs.map Column.expr = (cols.filterMap ResultColumn.expr?).map Expr.asColumn := by
  replace h := columnsOf_eq_ok.mp h
  induction h with
  | nil => rfl
  | cons hc _ ih =>
    cases hc
    rw [List.map_cons, expr_column, ih]
    rfl

/-- The expressions of the columns of a projection. -/
def exprs : Projection → List Expr
  | all => []
  | columns cs => cs.map Column.expr

theorem exprs_ofColumns {cols : List ResultColumn} {p : Projection} (h : ofColumns cols = .ok p) :
    p.exprs = (cols.filterMap ResultColumn.expr?).map Expr.asColumn := by
  cases of_ofColumns h with
  | all hstar =>
    obtain ⟨position, rfl⟩ := hstar
    rfl
  | columns _ hcs => exact exprs_columnsOf hcs

end Projection

/-- The expressions of a statement that are compiled, in the order in which they are. -/
def Statement.exprs (st : Statement) : List Expr :=
  st.condition.toList ++ (st.columns.filterMap ResultColumn.expr?).map Expr.asColumn

/-! ### Programs -/

namespace Program

open Compile (Compiled compiled_of_run)

/-- Compiles the condition of a statement. -/
def conditionOf : Option Expr → Compile (Option Filter)
  | none => pure none
  | some e => some <$> Compile.expr e

/-- Compiles the columns of a projection. -/
def rowOf : Projection → Compile (Option (List (String × Filter)))
  | .all => pure none
  | .columns cs => some <$> entries cs

theorem compile_eq (st : Statement) : compile st = (do
    let projection ← planned (Projection.ofColumns st.columns)
    let condition ← conditionOf st.condition
    let row ← rowOf projection
    let order ← planned (RowOrder.ofTerms projection st.orderBy)
    let slice ← ofExcept (Slice.ofLimit st.limit)
    let names ← get
    return {
      helpers := names.neededHelpers, condition, projection := row, distinct := st.isDistinct,
      order, slice, columns := projection.labels, parameters := names.parameters }) := by
  unfold compile
  congr
  funext projection
  rcases st.condition with _ | e <;> rcases projection with _ | cs <;> rfl

/-- What the parts of a program are compiled from. -/
structure CompiledFrom (st : Statement) (p : Program) (projection : Projection) (s s' : Names) :
    Prop where
  columns : Projection.ofColumns st.columns = .ok projection
  condition : (conditionOf st.condition).run {} = .ok p.condition s
  row : (rowOf projection).run s = .ok p.projection s'
  order : RowOrder.ofTerms projection st.orderBy = .ok p.order
  slice : Slice.ofLimit st.limit = .ok p.slice
  distinct : p.distinct = st.isDistinct
  helpers : p.helpers = s'.neededHelpers

theorem run_ofExcept {α : Type} {x : Except (Stop CompileError) α} {a : α} {s s' : Names}
    (h : (ofExcept x : Compile α).run s = .ok a s') : x = .ok a ∧ s' = s := by
  rcases x with stop | b
  · cases h
  · cases h
    exact ⟨rfl, rfl⟩

theorem run_planned {α : Type} {x : Except CompileError α} {a : α} {s s' : Names}
    (h : (planned x).run s = .ok a s') : x = .ok a ∧ s' = s := by
  rcases x with error | b
  · cases h
  · cases h
    exact ⟨rfl, rfl⟩

theorem planned_ok_bind {α β : Type} (a : α) (k : α → Compile β) :
    planned (.ok a) >>= k = k a := rfl

/-- The first column of a row is compiled before the others. -/
theorem ok_of_entries_cons {c : Column} {cs : List Column} {es : List (String × Filter)}
    {s s' : Names} (h : (entries (c :: cs)).run s = .ok es s') :
    ∃ f s₁ rest, (Compile.expr c.expr).run s = .ok f s₁ ∧ (entries cs).run s₁ = .ok rest s' ∧
      es = (c.label, f) :: rest := by
  obtain ⟨f, s₁, hf, hrun⟩ := bind_ok h
  obtain ⟨rest, s₂, hrest, hrun₁⟩ := bind_ok hrun
  cases hrun₁
  exact ⟨f, s₁, rest, hf, hrest, rfl⟩

theorem compiled_entries {cs : List Column} {es : List (String × Filter)} {s s' : Names}
    (h : (entries cs).run s = .ok es s') :
    Compiled (.exprs (cs.map Column.expr) (es.map Prod.snd)) s s' := by
  induction cs generalizing es s with
  | nil =>
    cases h
    exact .none _
  | cons c cs ih =>
    obtain ⟨f, s₁, rest, hf, hrest, rfl⟩ := ok_of_entries_cons h
    exact .more (compiled_of_run c.expr f s s₁ hf) (ih hrest)

theorem run_of_ok {st : Statement} {p : Program} (h : ofStatement st = .ok p) :
    ∃ s', (compile st).run {} = .ok p s' := by
  unfold ofStatement at h
  split at h
  · next q s' hrun =>
    cases h
    exact ⟨s', hrun⟩
  · cases h

/-- The parts of a program, and what the names behind them say. -/
theorem compiledFrom_names {st : Statement} {p : Program} (h : ofStatement st = .ok p) :
    ∃ projection s s', CompiledFrom st p projection s s' ∧ p.columns = projection.labels ∧
      p.parameters = s'.parameters := by
  obtain ⟨s', hrun⟩ := run_of_ok h
  rw [compile_eq] at hrun
  obtain ⟨projection, s₀, hprojection, hrun₁⟩ := bind_ok hrun
  obtain ⟨hcolumns, rfl⟩ := run_planned hprojection
  obtain ⟨condition, s₁, hcondition, hrun₂⟩ := bind_ok hrun₁
  obtain ⟨row, s₂, hrow, hrun₃⟩ := bind_ok hrun₂
  obtain ⟨order, s₃, horder, hrun₄⟩ := bind_ok hrun₃
  obtain ⟨slice, s₄, hslice, hrun₅⟩ := bind_ok hrun₄
  obtain ⟨hterms, rfl⟩ := run_planned horder
  obtain ⟨hlimit, rfl⟩ := run_ofExcept hslice
  cases hrun₅
  exact ⟨projection, s₁, _, ⟨hcolumns, hcondition, hrow, hterms, hlimit, rfl, rfl⟩, rfl, rfl⟩

theorem ofText_of_statement {q : String} {st : Statement} (h : Statement.ofText q = .ok st) :
    ofText q = ofStatement st := by
  rw [ofText, h]

/-- A query that has a program has a statement. -/
theorem ofStatement_of_ofText {q : String} {p : Program} (h : ofText q = .ok p) :
    ∃ st, Statement.ofText q = .ok st ∧ ofStatement st = .ok p := by
  unfold ofText at h
  split at h
  · cases h
  · next st hst => exact ⟨st, hst, h⟩

theorem compiledFrom_ofStatement {st : Statement} {p : Program} (h : ofStatement st = .ok p) :
    ∃ projection s s', CompiledFrom st p projection s s' := by
  obtain ⟨projection, s, s', hparts, -⟩ := compiledFrom_names h
  exact ⟨projection, s, s', hparts⟩

/-- The filters that the expressions of the query were compiled to. -/
def parts (p : Program) : List Filter := p.condition.toList ++ (p.projection.getD []).map Prod.snd

theorem compiled_rowOf {projection : Projection} {row : Option (List (String × Filter))}
    {s s' : Names} (h : (rowOf projection).run s = .ok row s') :
    Compiled (.exprs projection.exprs ((row.getD []).map Prod.snd)) s s' := by
  cases projection with
  | all =>
    cases h
    exact .none _
  | columns cs =>
    obtain ⟨es, hes, rfl⟩ := map_ok h
    exact compiled_entries hes

/-- The condition and the columns of a statement are compiled one after another. -/
theorem compiled_parts {st : Statement} {p : Program} {projection : Projection} {s s' : Names}
    (h : CompiledFrom st p projection s s') : Compiled (.exprs st.exprs p.parts) {} s' := by
  have hrow := compiled_rowOf h.row
  have hcondition := h.condition
  rw [Projection.exprs_ofColumns h.columns] at hrow
  unfold parts Statement.exprs
  cases hc : st.condition with
  | none =>
    rw [hc] at hcondition
    obtain ⟨hnone, rfl⟩ := EStateM.Result.ok.inj hcondition
    rw [← hnone]
    exact hrow
  | some e =>
    rw [hc] at hcondition
    obtain ⟨f, hf, hsome⟩ := map_ok hcondition
    rw [hsome]
    exact .more (compiled_of_run e f {} s hf) hrow

end Program

end RecordQuery
