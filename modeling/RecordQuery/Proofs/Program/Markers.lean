import RecordQuery.Proofs.Compile.Markers
import RecordQuery.Proofs.Plan.Mapped
import RecordQuery.Proofs.Program.Parts

/-! # Bare markers in a query

The bare markers of a query are numbered clause by clause, and the condition is compiled before the
result columns. So the markers behind `WHERE` have the first numbers, although those behind `SELECT`
stand in front of them in the text; inside of either clause the numbers follow the text
(`Program.markers_numbered`). -/

namespace RecordQuery

variable {f : Position → UInt32}

/-! ### Statements -/

/-- A result column with its bare markers numbered. -/
def ResultColumn.numberedBy (f : Position → UInt32) : ResultColumn → ResultColumn
  | .expr e label text place => .expr (e.numberedBy f) label text place
  | c => c

/-- A statement with the bare markers of its columns and its condition numbered. -/
def Statement.numberedBy (f : Position → UInt32) (st : Statement) : Statement :=
  { st with
    columns := st.columns.map (ResultColumn.numberedBy f)
    condition := st.condition.map (Expr.numberedBy f) }

/-- A column of a projection with its bare markers numbered. -/
def Column.numberedBy (f : Position → UInt32) (c : Column) : Column :=
  { c with expr := c.expr.numberedBy f }

namespace Projection

/-- A projection with its bare markers numbered. -/
def numberedBy (f : Position → UInt32) : Projection → Projection
  | all => all
  | columns cs => columns (cs.map (Column.numberedBy f))

theorem numberedBy_eq (p : Projection) : p.numberedBy f = p.mapExpr (Expr.numberedBy f) := by
  cases p <;> rfl

end Projection

theorem ResultColumn.numberedBy_eq :
    ResultColumn.numberedBy f = ResultColumn.mapExpr (Expr.numberedBy f) := by
  funext c
  cases c <;> rfl

theorem keepsNames_numberedBy : KeepsNames (Expr.numberedBy f) := by
  intro e label text
  cases e with
  | literal v => cases v <;> rfl
  | parameter p place => cases p <;> rfl
  | _ => rfl

theorem Projection.ofColumns_numberedBy (cs : List ResultColumn) :
    ofColumns (cs.map (ResultColumn.numberedBy f)) = (ofColumns cs).map (numberedBy f) := by
  rw [ResultColumn.numberedBy_eq, ofColumns_mapExpr keepsNames_numberedBy,
    ← funext (numberedBy_eq (f := f))]

/-! ### Programs -/

namespace Program

open RecordQuery.Compile

variable {n : UInt32}

theorem repeats_conditionOf (o : Option Expr) (h : Assigns f n (parametersOf o.toList)) :
    Repeats n (conditionOf (o.map (Expr.numberedBy f))) (conditionOf o) := by
  cases o with
  | none => exact .refl _
  | some e =>
    unfold conditionOf
    rw [Option.map_some]
    dsimp only
    rw [map_eq_pure_bind, map_eq_pure_bind]
    exact (repeats_numberedBy e n (assigns_append.mp h).1).bindSame _

theorem leads_conditionOf (o : Option Expr) :
    Leads n (countedBy n (parametersOf o.toList)) (conditionOf o) := by
  rintro s c s' rfl h
  cases o with
  | none =>
    cases h
    rfl
  | some e =>
    obtain ⟨g, hg, -⟩ := map_ok h
    change _ = countedBy _ (e.parameters ++ [])
    rw [List.append_nil, ← counted_parameters]
    exact (compiled_of_run e g s s' hg).counted

theorem repeats_entries (cs : List Column) (h : Assigns f n (parametersOf (cs.map Column.expr))) :
    Repeats n (entries (cs.map (Column.numberedBy f))) (entries cs) := by
  induction cs generalizing n with
  | nil => exact .refl _
  | cons c cs ih =>
    obtain ⟨hc, hcs⟩ := assigns_append.mp h
    rw [← counted_parameters] at hcs
    exact (repeats_numberedBy c.expr n hc).bind (leads_expr _) fun _ => (ih hcs).bindSame _

theorem parametersOf_asColumn (es : List Expr) :
    parametersOf (es.map Expr.asColumn) = parametersOf es := by
  have hexpr : ∀ e : Expr, e.asColumn.parameters = e.parameters := by
    intro e
    unfold Expr.asColumn
    split <;> rfl
  induction es with
  | nil => rfl
  | cons e es ih => rw [List.map_cons, parametersOf, parametersOf, hexpr, ih]

theorem allFlat_asColumn (es : List Expr) : AllFlat (es.map Expr.asColumn) ↔ AllFlat es := by
  have hexpr : ∀ e : Expr, e.asColumn.Flat ↔ e.Flat := by
    intro e
    unfold Expr.asColumn
    split <;> rfl
  induction es with
  | nil => rfl
  | cons e es ih => exact and_congr (hexpr e) ih

theorem repeats_rowOf {projection : Projection} (h : Assigns f n (parametersOf projection.exprs)) :
    Repeats n (rowOf (projection.numberedBy f)) (rowOf projection) := by
  cases projection with
  | all => exact .refl _
  | columns cs =>
    unfold rowOf Projection.numberedBy
    dsimp only
    rw [map_eq_pure_bind, map_eq_pure_bind]
    exact (repeats_entries cs h).bindSame _

/-- Numbering the bare markers of a statement by the numbers they are given, those of the condition
first, gives the same program. -/
theorem ofStatement_numberedBy {st : Statement} {p : Program} (hp : ofStatement st = .ok p)
    (h : Assigns f 0 (st.conditionParameters ++ st.columnParameters)) :
    ofStatement (st.numberedBy f) = .ok p := by
  obtain ⟨hcondition, hcolumns⟩ := assigns_append.mp h
  have hrepeats : Repeats 0 (compile (st.numberedBy f)) (compile st) := by
    rw [compile_eq, compile_eq]
    change Repeats 0 (planned (Projection.ofColumns (st.columns.map _)) >>= _) _
    rw [Projection.ofColumns_numberedBy]
    cases hprojection : Projection.ofColumns st.columns with
    | error e => exact repeats_throw (.fault e) _
    | ok projection =>
      change Repeats 0 (conditionOf (st.condition.map _) >>= fun _ =>
        rowOf (projection.numberedBy f) >>= fun _ => _) _
      rw [Projection.numberedBy_eq, RowOrder.ofTerms_mapExpr, Projection.labels_mapExpr,
        ← Projection.numberedBy_eq]
      have hrow : Assigns f (countedBy 0 (parametersOf st.condition.toList))
          (parametersOf projection.exprs) := by
        rw [Projection.exprs_ofColumns hprojection, parametersOf_asColumn]
        exact hcolumns
      exact (repeats_conditionOf _ hcondition).bind (leads_conditionOf _) fun _ =>
        (repeats_rowOf hrow).bindSame _
  obtain ⟨s, hrun⟩ := run_of_ok hp
  unfold ofStatement
  rw [hrepeats {} p s rfl hrun]

/-- What is compiled of a statement holds no nested one. -/
theorem flat_ofStatement {st : Statement} {p : Program} (hp : ofStatement st = .ok p) :
    AllFlat st.condition.toList ∧ AllFlat (st.columns.filterMap ResultColumn.expr?) := by
  obtain ⟨projection, s, s', hfrom⟩ := compiledFrom_ofStatement hp
  have hflat : AllFlat st.exprs := (compiled_parts hfrom).flat
  rw [← allFlat_asColumn (st.columns.filterMap _)]
  exact allFlat_append.mp hflat

/-- The number of the `k`-th of the bare markers of a query, counted from zero, where `m` of them
stand in the result columns and `n` in the condition. -/
def numberOf (m n k : Nat) : Nat := if k < m then n + k + 1 else k - m + 1

theorem nodup_bareMarkers {q : String} {ls : List Lexeme} (h : tokenize q = .ok ls) :
    (bareMarkers (parametersIn ls)).Nodup := by
  have hsub := (bareMarkers_sublist (parametersIn ls)).trans (places_sublist ls)
  refine ((increasing_of_tokenize h).sublist hsub).imp fun {a b} hab heq => ?_
  rw [heq] at hab
  exact Nat.lt_irrefl _ hab

theorem idxOf_of_lead {front places : List Position} {place : Position} {i : Nat}
    (hlead : front <+: places) (hnodup : places.Nodup) (hi : front[i]? = some place) :
    places.idxOf place = i := by
  obtain ⟨hlt, rfl⟩ := List.getElem?_eq_some_iff.mp hi
  rw [← hlead.idxOf_eq_of_mem (List.getElem_mem hlt)]
  exact (hnodup.sublist hlead.sublist).idxOf_getElem i hlt

/-- Where the places of the bare markers begin with those of the columns and of the condition, the
numbers by place are those that the condition gives out, and the columns behind it. -/
theorem assigns_numberOf {columns condition : List (Parameter × Position)} {places : List Position}
    (hlead : bareMarkers columns ++ bareMarkers condition <+: places) (hnodup : places.Nodup)
    (hlt : places.length < 2 ^ 32) (hnone : ∀ x ∈ columns ++ condition, ∀ n, x.1 ≠ .numbered n) :
    Assigns (fun place => .ofNat (numberOf (bareMarkers columns).length
      (bareMarkers condition).length (places.idxOf place))) 0 (condition ++ columns) := by
  have hlength := hlead.length_le
  rw [List.length_append] at hlength
  have hbehind (i : Nat) (place : Position) (h : (bareMarkers condition)[i]? = some place) :
      numberOf (bareMarkers columns).length (bareMarkers condition).length (places.idxOf place) =
        0 + i + 1 := by
    have hi : (bareMarkers columns ++ bareMarkers condition)[(bareMarkers columns).length + i]? =
        some place := by
      rw [List.getElem?_append_right (Nat.le_add_right _ _), Nat.add_sub_cancel_left, h]
    rw [idxOf_of_lead hlead hnodup hi, numberOf, if_neg (Nat.not_lt.mpr (Nat.le_add_right _ _))]
    omega
  have hfront (i : Nat) (place : Position) (h : (bareMarkers columns)[i]? = some place) :
      numberOf (bareMarkers columns).length (bareMarkers condition).length (places.idxOf place) =
        0 + (bareMarkers condition).length + i + 1 := by
    have hi := (List.getElem?_eq_some_iff.mp h).1
    rw [idxOf_of_lead hlead hnodup (by rw [List.getElem?_append_left hi, h]), numberOf, if_pos hi]
    omega
  obtain ⟨hcondition, hcounted⟩ := assigns_of_bare
    (fun x hx => hnone x (List.mem_append_right _ hx)) (show 0 + _ < 2 ^ 32 by omega)
    fun i place h => congrArg UInt32.ofNat (hbehind i place h)
  refine assigns_append.mpr ⟨hcondition, ?_⟩
  rw [show countedBy 0 condition = _ from hcounted]
  exact (assigns_of_bare (fun x hx => hnone x (List.mem_append_left _ hx)) (by omega)
    fun i place h => congrArg UInt32.ofNat (hfront i place h)).1

/-- **Bare markers** are numbered clause by clause: those of the condition have the first numbers,
and those of the result columns, which stand in front of them in the text, have the numbers behind.
A query is compiled as if it gave each bare marker its number. -/
theorem markers_numbered {q : String} {st : Statement} {p : Program} {ls : List Lexeme}
    (hst : Statement.ofText q = .ok st) (hp : ofText q = .ok p) (hls : tokenize q = .ok ls)
    (hnone : ∀ l ∈ ls, ∀ n, l.token ≠ .parameter (.numbered n))
    (hlt : (bareMarkers (parametersIn ls)).length < 2 ^ 32) :
    let places := bareMarkers (parametersIn ls)
    let columns := bareMarkers st.columnParameters
    let condition := bareMarkers st.conditionParameters
    columns ++ condition <+: places ∧
      ofStatement (st.numberedBy fun place =>
        .ofNat (numberOf columns.length condition.length (places.idxOf place))) = .ok p ∧
      ∀ (n : UInt32) (place : Position) (s : Names), ∃ s',
        (expr (.parameter (.numbered n) place)).run s =
          .ok (.variable (.named ("p" ++ toString n.toNat))) s' := by
  intro places columns condition
  have hcompiled : ofStatement st = .ok p := (ofText_of_statement hst).symm.trans hp
  obtain ⟨hcondition, hcolumns⟩ := flat_ofStatement hcompiled
  have hparameters := parameters_of_text hst hls hcolumns hcondition
  have hlead : columns ++ condition <+: places := by
    obtain ⟨rest, hrest⟩ := hparameters
    refine ⟨bareMarkers rest, ?_⟩
    rw [← bareMarkers_append, ← bareMarkers_append, hrest]
  have hbare : ∀ x ∈ st.columnParameters ++ st.conditionParameters, ∀ n, x.1 ≠ .numbered n := by
    intro x hx n hn
    obtain ⟨l, hl, hx⟩ := token_of_mem_parametersIn (hparameters.subset hx)
    exact hnone l hl n (hx.trans (congrArg Token.parameter hn))
  exact ⟨hlead, ofStatement_numberedBy hcompiled
    (assigns_numberOf hlead (nodup_bareMarkers hls) hlt hbare), fun _ _ _ => ⟨_, rfl⟩⟩

/-- The tokens of a query with a marker in either clause. -/
def twoMarkers : List Lexeme :=
  [⟨.keyword .SELECT, ⟨0, 1, 1⟩, 6⟩, ⟨.parameter .next, ⟨7, 1, 8⟩, 8⟩, ⟨.keyword .AS, ⟨9, 1, 10⟩, 11⟩,
    ⟨.identifier "a", ⟨12, 1, 13⟩, 13⟩, ⟨.keyword .WHERE, ⟨14, 1, 15⟩, 19⟩,
    ⟨.identifier "b", ⟨20, 1, 21⟩, 21⟩, ⟨.symbol .equal, ⟨22, 1, 23⟩, 23⟩,
    ⟨.parameter .next, ⟨24, 1, 25⟩, 25⟩, ⟨.endOfInput, ⟨25, 1, 26⟩, 25⟩]

theorem twoMarkers_bare : ∀ l ∈ twoMarkers, ∀ n, l.token ≠ .parameter (.numbered n) := by
  simp [twoMarkers]

theorem twoMarkers_program : ∃ st p, Statement.ofText "SELECT ? AS a WHERE b = ?" = .ok st ∧
    ofText "SELECT ? AS a WHERE b = ?" = .ok p ∧
    p.text = "[.[] | select((.[\"b\"] == $p1)) | \x7b\"a\": ($p2)\x7d]" ∧
    bareMarkers (parametersIn twoMarkers) =
      bareMarkers st.columnParameters ++ bareMarkers st.conditionParameters ∧
    (ofStatement (st.numberedBy fun place =>
      .ofNat ((bareMarkers (parametersIn twoMarkers)).idxOf place + 1))).toOption.map text =
        some "[.[] | select((.[\"b\"] == $p2)) | \x7b\"a\": ($p1)\x7d]" := by
  obtain ⟨st, hst, hstatement⟩ := ok_of_any (r := Statement.ofText "SELECT ? AS a WHERE b = ?")
    (p := fun st => decide (
      bareMarkers (parametersIn twoMarkers) =
        bareMarkers st.columnParameters ++ bareMarkers st.conditionParameters ∧
      (ofStatement (st.numberedBy fun place =>
        .ofNat ((bareMarkers (parametersIn twoMarkers)).idxOf place + 1))).toOption.map text =
          some "[.[] | select((.[\"b\"] == $p2)) | \x7b\"a\": ($p1)\x7d]"))
    (by decide +kernel)
  obtain ⟨p, hp, htext⟩ := ok_of_any (r := ofText "SELECT ? AS a WHERE b = ?")
    (p := fun p => decide (p.text = "[.[] | select((.[\"b\"] == $p1)) | \x7b\"a\": ($p2)\x7d]"))
    (by decide +kernel)
  obtain ⟨hmarkers, hswapped⟩ := of_decide_eq_true hstatement
  exact ⟨st, p, hst, hp, of_decide_eq_true htext, hmarkers, hswapped⟩

theorem markers_numbered_swapped : ∃ st p, Statement.ofText "SELECT ? AS a WHERE b = ?" = .ok st ∧
    ofText "SELECT ? AS a WHERE b = ?" = .ok p ∧
    p.text = "[.[] | select((.[\"b\"] == $p1)) | \x7b\"a\": ($p2)\x7d]" ∧
    bareMarkers st.columnParameters ++ bareMarkers st.conditionParameters <+:
      bareMarkers (parametersIn twoMarkers) ∧
    ofStatement (st.numberedBy fun place =>
      .ofNat (numberOf (bareMarkers st.columnParameters).length
        (bareMarkers st.conditionParameters).length
        ((bareMarkers (parametersIn twoMarkers)).idxOf place))) = .ok p := by
  obtain ⟨st, p, hst, hp, htext, -⟩ := twoMarkers_program
  obtain ⟨hfront, hnumbered, -⟩ := markers_numbered hst hp
    (show tokenize _ = .ok twoMarkers by decide +kernel) twoMarkers_bare (by decide)
  exact ⟨st, p, hst, hp, htext, hfront, hnumbered⟩

/-- The numbers do not follow the text where both clauses have markers. -/
theorem markers_not_in_text_order :
    ¬ ∀ (q : String) (st : Statement) (p : Program) (ls : List Lexeme),
      Statement.ofText q = .ok st → ofText q = .ok p → tokenize q = .ok ls →
      (∀ l ∈ ls, ∀ n, l.token ≠ .parameter (.numbered n)) →
      bareMarkers (parametersIn ls) =
        bareMarkers st.columnParameters ++ bareMarkers st.conditionParameters →
      ofStatement (st.numberedBy fun place =>
        .ofNat ((bareMarkers (parametersIn ls)).idxOf place + 1)) = .ok p := by
  intro h
  obtain ⟨st, p, hst, hp, htext, hmarkers, hclaimed⟩ := twoMarkers_program
  have heq := h _ st p twoMarkers hst hp (by decide +kernel) twoMarkers_bare hmarkers
  rw [heq] at hclaimed
  have hsame := Option.some.inj hclaimed
  rw [htext] at hsame
  exact absurd hsame (by decide)

end Program

end RecordQuery
