import RecordQuery.Proofs.Plan.Order
import RecordQuery.Proofs.Program.Parts

/-! # Which clauses have a plan

The list behind `SELECT`, the terms of `ORDER BY` and the limit have a plan under conditions on the
tree alone: no star among other columns, terms that resolve with one direction
(`OrderingTerm.Resolves`), operands that are integers (`Expr.IsInteger`). For each of them there is
one lemma for a plan that comes out, and one for an error. -/

namespace RecordQuery

/-! ### Result columns -/

/-- **A list that has a plan**: a single star, or expressions only. -/
def StarsAlone (cols : List ResultColumn) : Prop :=
  IsStar cols ∨ ∀ c ∈ cols, c.expr?.isSome = true

/-- A result column that cannot stand in a list, and its error. -/
inductive ResultColumn.Faulty : ResultColumn → CompileError → Prop
  | star {position : Position} : Faulty (.star position) (.unsupported .starAmongColumns position)
  | qualifiedStar {table : String} {position : Position} :
      Faulty (.qualifiedStar table position) (.unsupported (.qualifiedStar table) position)

/-- The names of the columns that are put out: the label, and else the field that is read or the
text of the column. -/
def outputNames (cols : List ResultColumn) : List String :=
  (cols.filterMap ResultColumn.keyed?).map Prod.fst

namespace Projection

variable {cols : List ResultColumn} {cs : List Column} {p : Projection} {error : CompileError}

/-- Every entry of a list that is laid out is an expression. -/
theorem isSome_columnsOf (h : columnsOf cols = .ok cs) : ∀ c ∈ cols, c.expr?.isSome = true := by
  have hgives : List.Forall₂ (fun c (_ : Column) => c.expr?.isSome = true ∧ True) cols cs :=
    (columnsOf_eq_ok.mp h).imp fun c d hc => ⟨by cases hc; rfl, trivial⟩
  exact ((List.forall₂_and_left _ _).mp hgives).1

/-- The labels of columns are the names that their entries put out. -/
theorem labels_columnsOf (h : columnsOf cols = .ok cs) :
    cs.map Column.label = outputNames cols := by
  unfold outputNames
  replace h := columnsOf_eq_ok.mp h
  induction h with
  | nil => rfl
  | cons hc _ ih =>
    cases hc
    rw [List.filterMap_cons_some (keyed?_column _ _ _ _), List.map_cons, List.map_cons, ih]

theorem Of.starsAlone (h : Of cols p) : StarsAlone cols := by
  cases h with
  | all h => exact .inl h
  | columns _ hcs => exact .inr (isSome_columnsOf hcs)

theorem columnsOf_error (h : columnsOf cols = .error error) : ∃ c ∈ cols, c.Faulty error := by
  induction cols with
  | nil => cases h
  | cons c cols ih =>
    cases c with
    | star position =>
      cases h
      exact ⟨_, List.mem_cons_self, .star⟩
    | qualifiedStar table position =>
      cases h
      exact ⟨_, List.mem_cons_self, .qualifiedStar⟩
    | expr e label text position =>
      obtain ⟨d, hd, hfaulty⟩ := ih (error_of_map h)
      exact ⟨d, List.mem_cons_of_mem _ hd, hfaulty⟩

theorem ofColumns_error (h : ofColumns cols = .error error) :
    ¬ IsStar cols ∧ ∃ c ∈ cols, c.Faulty error := by
  unfold ofColumns at h
  split at h
  · cases h
  · next hstar =>
    exact ⟨fun ⟨position, heq⟩ => hstar position heq, columnsOf_error (error_of_map h)⟩

end Projection

/-! ### Order -/

/-- **A term of `ORDER BY` that resolves**: the name of a column that is put out, any name under
`SELECT *`, or the number of a column. -/
def OrderingTerm.Resolves (cols : List ResultColumn) (t : OrderingTerm) : Prop :=
  match t.expr with
  | .column ref => IsStar cols ∨ ref.column ∈ outputNames cols
  | .literal (.number (.integer n)) => ¬ IsStar cols ∧ 1 ≤ n.toInt ∧ n.toInt ≤ cols.length
  | _ => False

instance (cols : List ResultColumn) (t : OrderingTerm) : Decidable (t.Resolves cols) := by
  unfold OrderingTerm.Resolves
  split <;> infer_instance

/-- The error of a term that does not resolve. -/
inductive OrderingTerm.Faulty (cols : List ResultColumn) (t : OrderingTerm) : CompileError → Prop
  | unknown {ref : ColumnRef} (h : t.expr = .column ref) (hs : ¬ IsStar cols)
      (hn : ref.column ∉ outputNames cols) :
      Faulty cols t (.unknownOrderTerm ref.column t.position)
  | underStar {n : Int64} (h : t.expr = .literal (.number (.integer n))) (hs : IsStar cols) :
      Faulty cols t (.unsupported (.orderPosition n) t.position)
  | outOfRange {n : Int64} (h : t.expr = .literal (.number (.integer n))) (hs : ¬ IsStar cols)
      (hn : n.toInt < 1 ∨ cols.length < n.toInt) :
      Faulty cols t (.orderIndexOutOfRange n cols.length t.position)
  | other (hc : ∀ ref, t.expr ≠ .column ref)
      (hn : ∀ n, t.expr ≠ .literal (.number (.integer n))) :
      Faulty cols t (.unsupported .orderTerm t.position)

theorem OrderingTerm.Faulty.not_resolves {cols : List ResultColumn} {t : OrderingTerm}
    {error : CompileError} (h : t.Faulty cols error) : ¬ t.Resolves cols := by
  unfold OrderingTerm.Resolves
  intro hr
  cases h with
  | unknown ht hs hn =>
    rw [ht] at hr
    exact hr.elim hs hn
  | underStar ht hs =>
    rw [ht] at hr
    exact hr.1 hs
  | outOfRange ht hs hn =>
    rw [ht] at hr
    have := hr.2
    omega
  | other hc hn =>
    split at hr
    · next ref ht => exact hc ref ht
    · next n ht => exact hn n ht
    · exact hr

namespace RowOrder

variable {cols : List ResultColumn} {p : Projection} {t : OrderingTerm} {terms : List OrderingTerm}
  {d : Direction} {k : String} {error : CompileError}

/-- A term that names a key resolves. -/
theorem resolves_of_names (hp : p.Of cols) (h : p.Names t k) : t.Resolves cols := by
  unfold OrderingTerm.Resolves
  cases h with
  | field ht =>
    rw [ht]
    cases hp with
    | all hs => exact .inl hs
  | label ht hlabel =>
    rw [ht]
    cases hp with
    | columns hs hcs =>
      obtain ⟨c, hc, hlabel⟩ := hlabel
      have hmem := List.mem_map_of_mem (f := Column.label) hc
      rw [Projection.labels_columnsOf hcs, hlabel] at hmem
      exact .inr hmem
  | number ht hsplit hn =>
    rw [ht]
    cases hp with
    | columns hs hcs =>
      have hlength := Projection.length_columnsOf hcs
      rw [hsplit, List.length_append, List.length_cons] at hlength
      exact ⟨hs, by omega, by omega⟩

/-- A term that is refused is at fault. -/
theorem faulty_of_refuses (hp : p.Of cols) (h : p.Refuses t error) : t.Faulty cols error := by
  cases h with
  | unknown ht hlabel =>
    cases hp with
    | columns hs hcs =>
      refine .unknown ht hs fun hmem => ?_
      rw [← Projection.labels_columnsOf hcs] at hmem
      obtain ⟨c, hc, heq⟩ := List.mem_map.mp hmem
      exact hlabel c hc heq
  | outOfRange ht hn =>
    cases hp with
    | columns hs hcs =>
      have hlength := Projection.length_columnsOf hcs
      rw [hlength] at hn ⊢
      exact .outOfRange ht hs hn
  | numberOfRecord ht =>
    cases hp with
    | all hs => exact .underStar ht hs
  | other hcolumn hnumber => exact .other hcolumn hnumber

theorem keysOf_ok {ks : List String} (hp : p.Of cols) (h : keysOf p d terms = .ok ks) :
    ∀ t ∈ terms, t.sense = d ∧ t.Resolves cols := by
  have hresolve : List.Forall₂ (fun t (_ : String) => (t.sense = d ∧ t.Resolves cols) ∧ True)
      terms ks :=
    (keysOf_eq_ok.mp h).imp fun t k hk => ⟨⟨hk.1, resolves_of_names hp hk.2⟩, trivial⟩
  exact ((List.forall₂_and_left _ _).mp hresolve).1

theorem keysOf_error (hp : p.Of cols) (h : keysOf p d terms = .error error) :
    ∃ t ∈ terms, (t.sense ≠ d ∧ error = .mixedDirections t.position) ∨
      t.Faulty cols error := by
  obtain ⟨before, t, after, rfl, -, ht⟩ := keysOf_eq_error.mp h
  refine ⟨t, List.mem_append_right before List.mem_cons_self, ?_⟩
  cases ht with
  | mixed hd => exact .inl ⟨hd, rfl⟩
  | refused _ he => exact .inr (faulty_of_refuses hp he)

theorem ofTerms_ok {order : Option RowOrder} (hp : p.Of cols) (h : ofTerms p terms = .ok order) :
    ∃ d, ∀ t ∈ terms, t.sense = d ∧ t.Resolves cols := by
  unfold ofTerms at h
  rcases terms with _ | ⟨first, terms⟩
  · exact ⟨.ascending, nofun⟩
  · obtain ⟨ks, hks, -⟩ := ok_of_map h
    exact ⟨first.sense, keysOf_ok hp hks⟩

/-- A term that is at fault does not resolve, or differs in direction from another one. -/
theorem ofTerms_error (hp : p.Of cols) (h : ofTerms p terms = .error error) :
    ∃ t ∈ terms, (error = .mixedDirections t.position ∧ ∃ u ∈ terms, t.sense ≠ u.sense) ∨
      t.Faulty cols error := by
  unfold ofTerms at h
  rcases terms with _ | ⟨first, terms⟩
  · cases h
  · obtain ⟨t, ht, ⟨hsense, rfl⟩ | hfaulty⟩ := keysOf_error hp (error_of_map h)
    · exact ⟨t, ht, .inl ⟨rfl, first, List.mem_cons_self, hsense⟩⟩
    · exact ⟨t, ht, .inr hfaulty⟩

end RowOrder

/-! ### Limits -/

/-- **An operand of a limit that is an integer**: a literal behind any number of plus signs and then
at most one minus sign. -/
inductive Expr.IsInteger : Expr → Prop
  | literal (n : Int64) : IsInteger (.literal (.number (.integer n)))
  | negated (n : Int64) : IsInteger (.unary .negate (.literal (.number (.integer n))))
  | plus {e : Expr} (h : e.IsInteger) : IsInteger (.unary .plus e)

theorem Expr.isInteger_iff (e : Expr) : e.IsInteger ↔ ∃ i, e.integer? = some i := by
  constructor
  · intro h
    induction h with
    | literal n | negated n => exact ⟨_, rfl⟩
    | plus _ ih => exact ih
  · fun_induction Expr.integer? e with
    | case1 n => exact fun _ => .literal n
    | case2 n => exact fun _ => .negated n
    | case3 e ih => exact fun h => .plus (ih h)
    | case4 =>
      rintro ⟨i, hi⟩
      cases hi

namespace Slice

variable {l : LimitClause} {limit : Option LimitClause} {e : Expr}

theorem isInteger_of_says {count offset : Int} (h : l.Says count offset) :
    ∀ e ∈ l.operands, e.IsInteger := by
  obtain ⟨hcount, hoffset⟩ := h
  refine List.forall_mem_cons.mpr ⟨l.count.isInteger_iff.mpr ⟨count, hcount⟩, fun e he => ?_⟩
  rw [Option.mem_toList.mp he] at hoffset
  exact e.isInteger_iff.mpr ⟨offset, hoffset⟩

theorem isInteger_of_ok {slice : Option Slice} (h : ofLimit limit = .ok slice) :
    ∀ l ∈ limit, ∀ e ∈ l.operands, e.IsInteger := by
  rintro l rfl
  obtain ⟨count, offset, hsays, -⟩ := ofLimit_ok h
  exact isInteger_of_says hsays

/-- A limit is at fault at an operand that is no integer, and says where. -/
theorem ofLimit_fault {error : CompileError} (h : ofLimit limit = .error (.fault error)) :
    ∃ l ∈ limit, (∃ e ∈ l.operands, ¬ e.IsInteger) ∧
      ∃ what, error = .invalidLimit what l.position := by
  rcases limit with _ | l
  · cases h
  · obtain ⟨e, he, hstop⟩ := (ofLimit_error h).exists_mem
    obtain ⟨hnone, hwhat⟩ := operand_fault hstop
    refine ⟨l, rfl, ⟨e, he, fun hinteger => ?_⟩, hwhat⟩
    obtain ⟨i, hi⟩ := e.isInteger_iff.mp hinteger
    rw [hnone] at hi
    cases hi

/-- A limit with operands that a text can write does not panic. -/
theorem ofLimit_ne_panic (h : ∀ l ∈ limit, ∀ e ∈ l.operands, e.Written) :
    ofLimit limit ≠ .error .panic := by
  intro hpanic
  rcases limit with _ | l
  · cases hpanic
  · obtain ⟨e, he, hstop⟩ := (ofLimit_error hpanic).exists_mem
    have hlt := (h l rfl e he).integer?_lt (operand_panic hstop)
    omega

end Slice

end RecordQuery
