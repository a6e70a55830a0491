import RecordQuery.Proofs.Compile.Numbers
import RecordQuery.Proofs.Plan.Faults

/-! # Which statements compile

A statement that was read has a program exactly if it is compilable (`Statement.Compilable`), which
is a condition on its tree, and the counter fits its markers (`CounterFits`). The compiler checks it
in stages, of which the first one that fails is the one whose error comes out (`Blamed`): the list
behind `SELECT`, the condition, the columns from left to right, the terms of `ORDER BY`, the limit
(`Statement.checks`).

* `Meets` says of a step that it fails only where one of some checks does, and with the error of the
  first of them; steps behind one another meet their checks one after another (`Meets.bind`).
* `Program.handles_compile`: compiling a statement panics only at a marker that the counter does not
  fit.
* `Program.compiles_iff` says it of whole statements. What the clauses `FROM` and `HAVING` say has
  no part in it, and the labels of columns have it only in what `ORDER BY` can name. -/

namespace RecordQuery

/-! ### Checks -/

/-- A condition on a statement, and the errors of the statements that break it. -/
structure CompileCheck where
  Holds : Prop
  Blames : CompileError → Prop
  exclusive : ∀ {error}, Blames error → ¬ Holds

/-- **An error that is due to the first check that fails.** -/
inductive Blamed : List CompileCheck → CompileError → Prop
  | here {c : CompileCheck} {cs : List CompileCheck} {error : CompileError} (h : c.Blames error) :
      Blamed (c :: cs) error
  | later {c : CompileCheck} {cs : List CompileCheck} {error : CompileError} (hc : c.Holds)
      (h : Blamed cs error) : Blamed (c :: cs) error

namespace Blamed

variable {cs ds : List CompileCheck} {error : CompileError}

theorem not_all (h : Blamed cs error) : ¬ ∀ c ∈ cs, c.Holds := by
  intro hall
  induction h with
  | @here c cs error h => exact c.exclusive h (hall c List.mem_cons_self)
  | later _ _ ih => exact ih (List.forall_mem_cons.mp hall).2

theorem append_right (h : Blamed cs error) (ds : List CompileCheck) : Blamed (cs ++ ds) error := by
  induction h with
  | here h => exact .here h
  | later hc _ ih => exact .later hc ih

theorem behind (hcs : ∀ c ∈ cs, c.Holds) (h : Blamed ds error) : Blamed (cs ++ ds) error := by
  induction cs with
  | nil => exact h
  | cons c cs ih =>
    obtain ⟨hc, hrest⟩ := List.forall_mem_cons.mp hcs
    exact .later hc (ih hrest)

end Blamed

/-- **A step that checks some conditions**: it succeeds only if all of them hold, and its error is
that of the first one that does not. -/
structure Meets {α : Type} (cs : List CompileCheck) (x : Compile α) : Prop where
  holds : ∀ {s a s'}, x.run s = .ok a s' → ∀ c ∈ cs, c.Holds
  blames : ∀ {s error s'}, x.run s = .error (.fault error) s' → Blamed cs error

namespace Meets

variable {α β : Type} {cs ds : List CompileCheck} {c : CompileCheck} {x : Compile α}

theorem one (hok : ∀ {s a s'}, x.run s = .ok a s' → c.Holds)
    (herror : ∀ {s error s'}, x.run s = .error (.fault error) s' → c.Blames error) : Meets [c] x :=
  ⟨fun h => List.forall_mem_singleton.mpr (hok h), fun h => .here (herror h)⟩

theorem pure (a : α) : Meets [] (pure a : Compile α) := ⟨fun _ => nofun, nofun⟩

theorem bind {f : α → Compile β} (h : Meets cs x)
    (hf : ∀ {s a s'}, x.run s = .ok a s' → Meets ds (f a)) : Meets (cs ++ ds) (x >>= f) := by
  constructor
  · intro s b s' hrun
    obtain ⟨a, s₁, hx, hrest⟩ := bind_ok hrun
    exact List.forall_mem_append.mpr ⟨h.holds hx, (hf hx).holds hrest⟩
  · intro s error s' hrun
    rcases bind_error hrun with hx | ⟨a, s₁, hx, hrest⟩
    · exact (h.blames hx).append_right ds
    · exact .behind (h.holds hx) ((hf hx).blames hrest)

theorem bind_pure {f : α → β} (h : Meets cs x) :
    Meets cs (x >>= fun a => Pure.pure (f a)) := by
  rw [← List.append_nil cs]
  exact h.bind fun _ => .pure _

theorem map {f : α → β} (h : Meets cs x) : Meets cs (f <$> x) := by
  rw [map_eq_pure_bind]
  exact h.bind_pure

theorem ofExcept {r : Except (Stop CompileError) α} (hok : ∀ {a}, r = .ok a → c.Holds)
    (herror : ∀ {error}, r = .error (.fault error) → c.Blames error) :
    Meets [c] (ofExcept r : Compile α) := by
  rcases r with stop | a
  · exact .one nofun fun h => by cases h; exact herror rfl
  · exact .one (fun _ => hok rfl) nofun

theorem planned {r : Except CompileError α} (hok : ∀ {a}, r = .ok a → c.Holds)
    (herror : ∀ {error}, r = .error error → c.Blames error) : Meets [c] (Program.planned r) := by
  rcases r with error | a
  · exact .one nofun fun h => by cases h; exact herror rfl
  · exact .one (fun _ => hok rfl) nofun

end Meets

/-! ### The checks of a statement -/

/-- **A statement that a program can express.** -/
structure Statement.Compilable (st : Statement) : Prop where
  columns : StarsAlone st.columns
  exprs : ∀ e ∈ st.exprs, ∀ n ∈ e.nodes, n.Supported
  order : ∃ d, ∀ t ∈ st.orderBy, t.sense = d ∧ t.Resolves st.columns
  limit : ∀ l ∈ st.limit, ∀ e ∈ l.operands, e.IsInteger

theorem ResultColumn.Faulty.expr?_eq_none {c : ResultColumn} {error : CompileError}
    (h : c.Faulty error) : c.expr? = none := by
  cases h <;> rfl

/-- The check of the list behind `SELECT`. -/
def columnsCheck (cols : List ResultColumn) : CompileCheck where
  Holds := StarsAlone cols
  Blames error := ¬ IsStar cols ∧ ∃ c ∈ cols, c.Faulty error
  exclusive := by
    rintro error ⟨hstar, c, hc, hfaulty⟩ (h | hall)
    · exact hstar h
    · have hsome := hall c hc
      rw [hfaulty.expr?_eq_none] at hsome
      cases hsome

/-- The check of the condition or a column. -/
def exprCheck (e : Expr) : CompileCheck where
  Holds := ∀ n ∈ e.nodes, n.Supported
  Blames error := ∃ n ∈ e.nodes, n.Faulty error
  exclusive := fun ⟨n, hn, hfaulty⟩ hall => hfaulty.not_supported (hall n hn)

/-- The check of the terms of `ORDER BY`. -/
def orderCheck (cols : List ResultColumn) (terms : List OrderingTerm) : CompileCheck where
  Holds := ∃ d, ∀ t ∈ terms, t.sense = d ∧ t.Resolves cols
  Blames error := ∃ t ∈ terms,
    (error = .mixedDirections t.position ∧ ∃ u ∈ terms, t.sense ≠ u.sense) ∨ t.Faulty cols error
  exclusive := by
    rintro error ⟨t, ht, ⟨-, u, hu, hne⟩ | hfaulty⟩ ⟨d, hall⟩
    · exact hne ((hall t ht).1.trans (hall u hu).1.symm)
    · exact hfaulty.not_resolves (hall t ht).2

/-- The check of a limit. -/
def limitCheck (limit : Option LimitClause) : CompileCheck where
  Holds := ∀ l ∈ limit, ∀ e ∈ l.operands, e.IsInteger
  Blames error := ∃ l ∈ limit, (∃ e ∈ l.operands, ¬ e.IsInteger) ∧
    ∃ what, error = .invalidLimit what l.position
  exclusive := fun ⟨l, hl, ⟨e, he, hnot⟩, _⟩ hall => hnot (hall l hl e he)

/-- **The checks of a statement**, in their order. -/
def Statement.checks (st : Statement) : List CompileCheck :=
  columnsCheck st.columns ::
    (st.exprs.map exprCheck ++ [orderCheck st.columns st.orderBy, limitCheck st.limit])

theorem Statement.compilable_iff (st : Statement) :
    st.Compilable ↔ ∀ c ∈ st.checks, c.Holds := by
  rw [checks, List.forall_mem_cons, List.forall_mem_append, List.forall_mem_map,
    List.forall_mem_cons, List.forall_mem_singleton]
  exact ⟨fun ⟨hcolumns, hexprs, horder, hlimit⟩ => ⟨hcolumns, hexprs, horder, hlimit⟩,
    fun ⟨hcolumns, hexprs, horder, hlimit⟩ => ⟨hcolumns, hexprs, horder, hlimit⟩⟩

theorem Statement.checks_eq (st : Statement) :
    st.checks = [columnsCheck st.columns] ++ (st.condition.toList.map exprCheck ++
      (((st.columns.filterMap ResultColumn.expr?).map Expr.asColumn).map exprCheck ++
        ([orderCheck st.columns st.orderBy] ++ [limitCheck st.limit]))) := by
  rw [checks, exprs, List.map_append, List.append_assoc]
  rfl

/-! ### Statements that were read -/

theorem Expr.AllGrammatical.asColumn {e : Expr} (h : e.AllGrammatical) :
    e.asColumn.AllGrammatical := by
  unfold Expr.asColumn
  split
  · intro n hn
    obtain rfl := List.mem_singleton.mp hn
    trivial
  · exact h

theorem Statement.AllGrammatical.exprs {st : Statement} (h : st.AllGrammatical) :
    ∀ e ∈ st.exprs, e.AllGrammatical := by
  unfold Statement.exprs
  refine List.forall_mem_append.mpr ⟨fun e he => h.condition e (Option.mem_toList.mp he), ?_⟩
  rw [List.forall_mem_map]
  intro e he
  obtain ⟨c, hc, hexpr⟩ := List.mem_filterMap.mp he
  exact (h.columns c hc e hexpr).asColumn

namespace Program

open Compile

theorem meets_expr {e : Expr} (he : e.AllGrammatical) : Meets [exprCheck e] (Compile.expr e) :=
  .one (fun h => (compiled_of_run _ _ _ _ h).supported) fun h => faulty_of_fault he h

theorem meets_conditionOf {condition : Option Expr}
    (h : ∀ e ∈ condition.toList, e.AllGrammatical) :
    Meets (condition.toList.map exprCheck) (conditionOf condition) := by
  cases condition with
  | none => exact .pure none
  | some e => exact (meets_expr (h e List.mem_cons_self)).map

theorem meets_entries {cs : List Column} (h : ∀ e ∈ cs.map Column.expr, e.AllGrammatical) :
    Meets ((cs.map Column.expr).map exprCheck) (entries cs) := by
  induction cs with
  | nil => exact .pure []
  | cons c cs ih =>
    obtain ⟨hc, hcs⟩ := List.forall_mem_cons.mp h
    exact (meets_expr hc).bind fun _ => (ih hcs).bind_pure

theorem meets_rowOf {projection : Projection} (h : ∀ e ∈ projection.exprs, e.AllGrammatical) :
    Meets (projection.exprs.map exprCheck) (rowOf projection) := by
  cases projection with
  | all => exact .pure none
  | columns cs => exact (meets_entries h).map

/-- **Compiling a statement** checks it from the list behind `SELECT` to the limit. -/
theorem meets_compile {st : Statement} (h : ∀ e ∈ st.exprs, e.AllGrammatical) :
    Meets st.checks (compile st) := by
  obtain ⟨hcondition, hcolumns⟩ := List.forall_mem_append.mp h
  rw [Statement.checks_eq, compile_eq]
  refine .bind (.planned (fun hp => ?_) Projection.ofColumns_error) fun hrun => ?_
  · exact (Projection.of_ofColumns hp).starsAlone
  · obtain ⟨hprojection, rfl⟩ := run_planned hrun
    have hp := Projection.of_ofColumns hprojection
    rw [← Projection.exprs_ofColumns hprojection] at hcolumns ⊢
    refine (meets_conditionOf hcondition).bind fun _ => (meets_rowOf hcolumns).bind fun _ => ?_
    refine .bind (.planned (RowOrder.ofTerms_ok hp) (RowOrder.ofTerms_error hp)) fun _ => ?_
    have hlimit : Meets [limitCheck st.limit] (ofExcept (Slice.ofLimit st.limit)) :=
      .ofExcept Slice.isInteger_of_ok Slice.ofLimit_fault
    rw [← List.append_nil [limitCheck st.limit]]
    exact hlimit.bind fun _ => ⟨fun _ => nofun, nofun⟩

/-! ### Statements that panic -/

theorem handles_conditionOf (condition : Option Expr) :
    Handles (parametersOf condition.toList) (conditionOf condition) := by
  cases condition with
  | none => exact handles_pure _
  | some e =>
    rw [Option.toList_some, parametersOf, parametersOf, List.append_nil]
    exact (handles_expr e).map

theorem handles_entries (cs : List Column) :
    Handles (parametersOf (cs.map Column.expr)) (entries cs) := by
  induction cs with
  | nil => exact handles_pure _
  | cons c cs ih => exact (handles_expr c.expr).bind fun _ => ih.before fun _ => handles_pure _

theorem handles_rowOf (projection : Projection) :
    Handles (parametersOf projection.exprs) (rowOf projection) := by
  cases projection with
  | all => exact handles_pure _
  | columns cs => exact (handles_entries cs).map

theorem handles_ofExcept {α : Type} {r : Except (Stop CompileError) α} (h : r ≠ .error .panic) :
    Handles [] (ofExcept r : Compile α) := by
  rcases r with (error | _) | a
  · exact handles_fault error
  · exact (h rfl).elim
  · exact handles_pure a

theorem handles_planned {α : Type} (r : Except CompileError α) : Handles [] (planned r) :=
  handles_ofExcept (by cases r <;> nofun)

/-- **Compiling a statement** handles its markers, those of the condition first. It panics only at
one of them, if its limit does not. -/
theorem handles_compile {st : Statement} (h : Slice.ofLimit st.limit ≠ .error .panic) :
    Handles (parametersOf st.exprs) (compile st) := by
  rw [compile_eq]
  cases hprojection : Projection.ofColumns st.columns with
  | error error => exact handles_fault error
  | ok projection =>
    rw [Statement.exprs, parametersOf_append, ← Projection.exprs_ofColumns hprojection,
      planned_ok_bind]
    exact (handles_conditionOf _).bind fun _ => (handles_rowOf projection).before fun _ =>
      (handles_planned _).behind fun _ => (handles_ofExcept h).behind fun _ =>
        handles_none (fun _ => ⟨rfl, rfl⟩) nofun

variable {st : Statement}

theorem run_of_error {stop : Stop CompileError} (h : ofStatement st = .error stop) :
    ∃ s', (compile st).run {} = .error stop s' := by
  unfold ofStatement at h
  split at h
  · cases h
  · next f s' hrun =>
    cases h
    exact ⟨s', hrun⟩

theorem blamed_of_fault (hst : ∀ e ∈ st.exprs, e.AllGrammatical) {error : CompileError}
    (h : ofStatement st = .error (.fault error)) : Blamed st.checks error := by
  obtain ⟨s', hrun⟩ := run_of_error h
  exact (meets_compile hst).blames hrun

theorem not_counterFits_of_panic (hlimit : Slice.ofLimit st.limit ≠ .error .panic)
    (h : ofStatement st = .error .panic) : ¬ CounterFits 0 (parametersOf st.exprs) := by
  obtain ⟨s', hrun⟩ := run_of_error h
  obtain ⟨hs, hhandled⟩ := handles_compile hlimit {}
  obtain ⟨place, rest, hsplit, hend⟩ := hhandled.stuck s' hrun
  rw [hsplit]
  exact not_counterFits hend

/-- **A query panics** only at a marker that the counter does not fit: its limit never does. -/
theorem ofText_panic {q : String} (h : ofText q = .error .panic) :
    ∃ st, Statement.ofText q = .ok st ∧ ¬ CounterFits 0 (parametersOf st.exprs) := by
  unfold ofText at h
  split at h
  · cases h
  · next st hst =>
    have hlimit := Slice.ofLimit_ne_panic (Statement.ofText_written hst).operands
    exact ⟨st, hst, not_counterFits_of_panic hlimit h⟩

theorem ofStatement_iff (hst : ∀ e ∈ st.exprs, e.AllGrammatical)
    (hlimit : Slice.ofLimit st.limit ≠ .error .panic) :
    (∃ p, ofStatement st = .ok p) ↔ st.Compilable ∧ CounterFits 0 (parametersOf st.exprs) := by
  rw [st.compilable_iff]
  constructor
  · rintro ⟨p, hp⟩
    obtain ⟨s', hrun⟩ := run_of_ok hp
    obtain ⟨hs, hhandled⟩ := handles_compile hlimit {}
    obtain rfl := hhandled.all p s' hrun
    exact ⟨(meets_compile hst).holds hrun, hhandled.fits⟩
  · rintro ⟨hall, hfits⟩
    rcases h : ofStatement st with (error | _) | p
    · exact ((blamed_of_fault hst h).not_all hall).elim
    · exact (not_counterFits_of_panic hlimit h hfits).elim
    · exact ⟨p, rfl⟩

end Program

/-! ### What has no part in it -/

/-- A result column without its label. -/
def ResultColumn.unlabelled : ResultColumn → ResultColumn
  | .expr e _ text position => .expr e none text position
  | c => c

/-- Statements that differ in the word behind `SELECT`, in the labels of columns, in `FROM` and in
`HAVING` at most. -/
structure Statement.Resembles (st' st : Statement) : Prop where
  columns : st'.columns.map ResultColumn.unlabelled = st.columns.map ResultColumn.unlabelled
  condition : st'.condition = st.condition
  orderBy : st'.orderBy = st.orderBy
  limit : st'.limit = st.limit

theorem ResultColumn.unlabelled_unlabelled (c : ResultColumn) :
    c.unlabelled.unlabelled = c.unlabelled := by
  cases c <;> rfl

theorem ResultColumn.expr?_unlabelled (c : ResultColumn) : c.unlabelled.expr? = c.expr? := by
  cases c <;> rfl

theorem filterMap_expr?_unlabelled (cols : List ResultColumn) :
    (cols.map ResultColumn.unlabelled).filterMap ResultColumn.expr? =
      cols.filterMap ResultColumn.expr? := by
  rw [List.filterMap_map]
  congr 1
  funext c
  exact c.expr?_unlabelled

theorem starsAlone_unlabelled (cols : List ResultColumn) :
    StarsAlone (cols.map ResultColumn.unlabelled) ↔ StarsAlone cols := by
  refine or_congr ⟨?_, ?_⟩ ?_
  · rintro ⟨position, h⟩
    obtain ⟨c, rfl, hc⟩ := List.map_eq_singleton_iff.mp h
    cases c with
    | star => exact ⟨_, rfl⟩
    | qualifiedStar | expr => cases hc
  · rintro ⟨position, rfl⟩
    exact ⟨position, rfl⟩
  · simp only [List.forall_mem_map, ResultColumn.expr?_unlabelled]

namespace Statement.Resembles

variable {st st' : Statement}

theorem symm (h : st'.Resembles st) : st.Resembles st' :=
  ⟨h.columns.symm, h.condition.symm, h.orderBy.symm, h.limit.symm⟩

theorem exprs (h : st'.Resembles st) : st'.exprs = st.exprs := by
  unfold Statement.exprs
  rw [h.condition, ← filterMap_expr?_unlabelled st'.columns, h.columns,
    filterMap_expr?_unlabelled]

theorem compilable (h : st'.Resembles st)
    (hterms : ∀ t ∈ st.orderBy, t.Resolves st.columns → t.Resolves st'.columns)
    (hst : st.Compilable) : st'.Compilable where
  columns := by
    rw [← starsAlone_unlabelled, h.columns, starsAlone_unlabelled]
    exact hst.columns
  exprs := h.exprs ▸ hst.exprs
  order := by
    obtain ⟨d, hall⟩ := hst.order
    rw [h.orderBy]
    exact ⟨d, fun t ht => ⟨(hall t ht).1, hterms t ht (hall t ht).2⟩⟩
  limit := h.limit ▸ hst.limit

end Statement.Resembles

namespace Program

/-- **Which statements compile.** A statement that was read has a program exactly if it is
compilable and the counter fits its markers. Else the error is that of the first check that fails,
or compiling panics at a marker that the counter does not fit. What is behind `FROM` and `HAVING`
does not decide it, nor do labels, as long as the same terms of `ORDER BY` resolve. -/
theorem compiles_iff {text : String} {st : Statement} (h : Statement.ofText text = .ok st) :
    ((∃ p, ofStatement st = .ok p) ↔
        st.Compilable ∧ CounterFits 0 (parametersOf st.exprs)) ∧
      (∀ error, ofStatement st = .error (.fault error) → Blamed st.checks error) ∧
      (ofStatement st = .error .panic → ¬ CounterFits 0 (parametersOf st.exprs)) ∧
      ∀ st' : Statement, st'.Resembles st →
        (∀ t ∈ st.orderBy, t.Resolves st'.columns ↔ t.Resolves st.columns) →
          ((∃ p, ofStatement st' = .ok p) ↔ ∃ p, ofStatement st = .ok p) := by
  have hst := (Statement.ofText_grammatical h).exprs
  have hlimit := Slice.ofLimit_ne_panic (Statement.ofText_written h).operands
  refine ⟨ofStatement_iff hst hlimit, fun error => blamed_of_fault hst,
    not_counterFits_of_panic hlimit, fun st' halike hterms => ?_⟩
  rw [ofStatement_iff hst hlimit, ofStatement_iff (halike.exprs ▸ hst) (halike.limit ▸ hlimit),
    halike.exprs]
  refine and_congr_left fun _ => ⟨?_, ?_⟩
  · refine halike.symm.compilable fun t ht => (hterms t ?_).mp
    exact halike.orderBy ▸ ht
  · exact halike.compilable fun t ht => (hterms t ht).mpr

/-- A statement with a label that `ORDER BY` names and one that it does not, and a clause `HAVING`
that no program could express. The latter label, `FROM` and `HAVING` can be left out. -/
theorem compiles_iff_having :
    let text :=
      "SELECT LENGTH(:c) AS b, a AS d FROM t HAVING EXISTS (SELECT 1) ORDER BY b LIMIT +-3"
    ∃ st, Statement.ofText text = .ok st ∧ st.groupCondition.isSome = true ∧ st.Compilable ∧
      ∃ c d, st.columns = [c, d] ∧ outputNames [c, d] = ["b", "d"] ∧
        outputNames [c, d.unlabelled] = ["b", "a"] ∧
        ∃ p, ofStatement { st with
          columns := [c, d.unlabelled], source := none, groupCondition := none } = .ok p := by
  intro text
  obtain ⟨st, hst, hdecided⟩ := ok_of_any (r := Statement.ofText text)
    (p := fun st =>
      let relabelled := st.columns.take 1 ++ (st.columns.drop 1).map ResultColumn.unlabelled
      decide (st.groupCondition.isSome = true ∧ st.columns.length = 2 ∧
        outputNames st.columns = ["b", "d"] ∧ outputNames relabelled = ["b", "a"] ∧
        (ofStatement st).toOption.any (fun _ => true) = true ∧
        ∀ t ∈ st.orderBy, t.Resolves relabelled ∧ t.Resolves st.columns))
    (by decide +kernel)
  obtain ⟨hgroup, hlength, hnames, hnames', hcompiled, hterms⟩ := of_decide_eq_true hdecided
  obtain ⟨c, d, hcolumns⟩ := List.length_eq_two.mp hlength
  rw [hcolumns] at hnames hnames' hterms
  obtain ⟨p, hp, -⟩ := ok_of_any hcompiled
  obtain ⟨hiff, -, -, halike⟩ := compiles_iff hst
  refine ⟨st, hst, hgroup, (hiff.mp ⟨p, hp⟩).1, c, d, hcolumns, hnames, hnames', ?_⟩
  have hcolumns' : [c, d.unlabelled].map ResultColumn.unlabelled =
      st.columns.map ResultColumn.unlabelled := by
    rw [hcolumns, List.map_cons, List.map_singleton, d.unlabelled_unlabelled]
    rfl
  refine (halike { st with columns := [c, d.unlabelled], source := none, groupCondition := none }
    ⟨hcolumns', rfl, rfl, rfl⟩ fun t ht => ?_).mpr ⟨p, hp⟩
  obtain ⟨hrelabelled, hlabelled⟩ := hterms t ht
  rw [hcolumns]
  exact iff_of_true hrelabelled hlabelled

end Program

end RecordQuery
