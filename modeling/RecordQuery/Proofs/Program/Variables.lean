import RecordQuery.Proofs.Compile.Variables
import RecordQuery.Proofs.Program.Markers

/-! # Variables of the markers in a query

The markers of a query share a variable if they stand for the same parameter. They also do if one
has the name that the number of the other one gives, since the variables of numbered parameters are
named like those of named ones: `:p1` and the first `?` are both `$p1` (`Program.variables_shared`,
`Program.variables_not_apart`). -/

namespace RecordQuery

/-- The markers behind `WHERE`, and those of the result columns behind them: in this order they are
compiled. -/
def Statement.markers (st : Statement) : List (Parameter × Position) :=
  st.conditionParameters ++ st.columnParameters

namespace Program

open RecordQuery.Compile

variable {q : String} {st : Statement} {p : Program}

theorem parametersOf_exprs (st : Statement) : parametersOf st.exprs = st.markers := by
  rw [Statement.exprs, parametersOf_append, parametersOf_asColumn]
  rfl

/-- **Markers share a variable** if and only if they stand for the same parameter, or one has the
name that the number of the other one gives. The variable of a marker is the one it is compiled to:
with a marker of that name in its place, which is compiled to just that variable anywhere, the
query has the same condition and the same columns. -/
theorem variables_shared (hst : Statement.ofText q = .ok st) (hp : ofText q = .ok p) :
    (∃ s, (Compile.exprs (allResolved 0 st.exprs)).run {} = .ok p.parts s) ∧
      (parametersOf (allResolved 0 st.exprs)).map Prod.fst =
        (variablesFrom 0 st.markers).map (.named '$') ∧
      (∀ name ∈ variablesFrom 0 st.markers, ∀ place s, ∃ s',
        (Compile.expr (.parameter (.named '$' name) place)).run s =
          .ok (.variable (.named name)) s') ∧
      ∀ (i j : Nat) (a b : Identity), (identitiesFrom 0 st.markers)[i]? = some a →
        (identitiesFrom 0 st.markers)[j]? = some b →
        ((variablesFrom 0 st.markers)[i]? = (variablesFrom 0 st.markers)[j]? ↔
          a = b ∨ a.Collides b) := by
  have hcompiled : ofStatement st = .ok p := (ofText_of_statement hst).symm.trans hp
  obtain ⟨projection, s, s', hfrom⟩ := compiledFrom_ofStatement hcompiled
  have hparts := compiled_parts hfrom
  have hmarkers := parametersOf_exprs st
  refine ⟨⟨_, (hparts.resolved 0).runs⟩, ?_, fun name hname place t => ?_, fun i j a b ha hb => ?_⟩
  · rw [← hmarkers]
    exact parametersOf_resolved st.exprs 0
  · rw [← hmarkers] at hname
    exact ⟨_, run_variable hparts hname place t⟩
  · have hnames : ∀ {k : Nat} {c : Identity}, (identitiesFrom 0 st.markers)[k]? = some c →
        (variablesFrom 0 st.markers)[k]? = some c.variable := by
      intro k c hc
      rw [variablesFrom, List.getElem?_map, hc, Option.map_some]
    rw [hnames ha, hnames hb, Option.some_inj]
    exact a.variable_eq_iff b

/-- A name in two spellings is one parameter, and so is a number that a bare marker is given. -/
theorem variables_shared_twice : let q := "SELECT :a, ? WHERE @A = ?2 AND b = ?3"
    ∃ st p, Statement.ofText q = .ok st ∧ ofText q = .ok p ∧
      identitiesFrom 0 st.markers =
        [.named "a", .positional 2, .positional 3, .named "a", .positional 4] ∧
      variablesFrom 0 st.markers = ["a", "p2", "p3", "a", "p4"] ∧
      ∀ (i j : Nat) (a b : Identity), (identitiesFrom 0 st.markers)[i]? = some a →
        (identitiesFrom 0 st.markers)[j]? = some b →
        ((variablesFrom 0 st.markers)[i]? = (variablesFrom 0 st.markers)[j]? ↔
          a = b ∨ a.Collides b) := by
  intro q
  obtain ⟨st, hst, hmarkers⟩ := ok_of_any (r := Statement.ofText q)
    (p := fun st => decide (identitiesFrom 0 st.markers =
        [.named "a", .positional 2, .positional 3, .named "a", .positional 4] ∧
      variablesFrom 0 st.markers = ["a", "p2", "p3", "a", "p4"])) (by decide +kernel)
  obtain ⟨p, hp, -⟩ := ok_of_any (r := ofText q) (p := fun _ => true) (by decide +kernel)
  obtain ⟨hidentities, hvariables⟩ := of_decide_eq_true hmarkers
  obtain ⟨-, -, -, hshared⟩ := variables_shared hst hp
  exact ⟨st, p, hst, hp, hidentities, hvariables, hshared⟩

/-- Markers of a parameter with a name and of one with a number can share a variable. -/
theorem variables_not_apart :
    ¬ ∀ (q : String) (st : Statement) (p : Program), Statement.ofText q = .ok st →
      ofText q = .ok p →
      ∀ (i j : Nat) (a b : Identity), (identitiesFrom 0 st.markers)[i]? = some a →
        (identitiesFrom 0 st.markers)[j]? = some b →
        ((variablesFrom 0 st.markers)[i]? = (variablesFrom 0 st.markers)[j]? ↔ a = b) := by
  intro h
  let q := "SELECT * WHERE a = :p1 AND b = ?"
  obtain ⟨st, hst, hmarkers⟩ := ok_of_any (r := Statement.ofText q)
    (p := fun st => decide (identitiesFrom 0 st.markers = [.named "p1", .positional 1] ∧
      variablesFrom 0 st.markers = ["p1", "p1"])) (by decide +kernel)
  obtain ⟨p, hp, -⟩ := ok_of_any (r := ofText q)
    (p := fun p => p.text = "[.[] | select(((.[\"a\"] == $p1) and (.[\"b\"] == $p1)))]")
    (by decide +kernel)
  obtain ⟨hidentities, hvariables⟩ := of_decide_eq_true hmarkers
  have hsame := (h q st p hst hp 0 1 _ _ (by rw [hidentities]; rfl) (by rw [hidentities]; rfl)).mp
    (by rw [hvariables]; rfl)
  cases hsame

end Program

end RecordQuery
