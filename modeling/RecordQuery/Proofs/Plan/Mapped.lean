import RecordQuery.Plan.RowOrder

/-! # Columns with other expressions

A change of expressions that keeps what columns are named after (`KeepsNames`) can be made before
the result columns are laid out or behind it (`Projection.ofColumns_mapExpr`), and the keys of rows
and their order do not depend on it (`Projection.labels_mapExpr`, `RowOrder.ofTerms_mapExpr`). -/

namespace RecordQuery

variable {g : Expr → Expr}

/-- A result column with its expression changed. -/
def ResultColumn.mapExpr (g : Expr → Expr) : ResultColumn → ResultColumn
  | .expr e label text place => .expr (g e) label text place
  | c => c

/-- A column with its expression changed. -/
def Column.mapExpr (g : Expr → Expr) (c : Column) : Column := { c with expr := g c.expr }

/-- A projection with the expressions of its columns changed. -/
def Projection.mapExpr (g : Expr → Expr) : Projection → Projection
  | all => all
  | columns cs => columns (cs.map (Column.mapExpr g))

/-- A change that keeps the field or the text that a column is named after. -/
def KeepsNames (g : Expr → Expr) : Prop :=
  ∀ (e : Expr) (label : Option String) (text : String),
    Projection.column (g e) label text = (Projection.column e label text).mapExpr g

namespace Projection

theorem columnsOf_mapExpr (hg : KeepsNames g) (cs : List ResultColumn) :
    columnsOf (cs.map (ResultColumn.mapExpr g)) =
      (columnsOf cs).map (List.map (Column.mapExpr g)) := by
  induction cs with
  | nil => rfl
  | cons c cs ih =>
    rcases c with place | ⟨table, place⟩ | ⟨e, label, text, place⟩
    · rfl
    · rfl
    · change (columnsOf (cs.map _)).map (column (g e) label text :: ·) = _
      rw [ih, hg, columnsOf]
      rcases columnsOf cs with error | done <;> rfl

theorem ofColumns_mapExpr (hg : KeepsNames g) (cs : List ResultColumn) :
    ofColumns (cs.map (ResultColumn.mapExpr g)) = (ofColumns cs).map (mapExpr g) := by
  have hcolumns : (columnsOf (cs.map (ResultColumn.mapExpr g))).map columns =
      ((columnsOf cs).map columns).map (mapExpr g) := by
    rw [columnsOf_mapExpr hg]
    rcases columnsOf cs with error | done <;> rfl
  match cs with
  | [.star _] => rfl
  | [] | .star _ :: _ :: _ | .qualifiedStar _ _ :: _ | .expr _ _ _ _ :: _ => exact hcolumns

@[simp] theorem labels_mapExpr (p : Projection) : (p.mapExpr g).labels = p.labels := by
  rcases p with _ | cs
  · rfl
  · simp only [mapExpr, labels, List.map_map]
    rfl

end Projection

namespace RowOrder

theorem key_mapExpr (p : Projection) (t : OrderingTerm) : key (p.mapExpr g) t = key p t := by
  rcases p with _ | cs
  · rfl
  · have hany (name : String) : (cs.map (Column.mapExpr g)).any (·.label == name) =
        cs.any (·.label == name) := by
      rw [List.any_map]
      rfl
    unfold key
    generalize t.expr = e
    cases e with
    | column ref =>
      change (if (cs.map (Column.mapExpr g)).any (·.label == ref.column) then _ else _) = _
      rw [hany]
    | literal v =>
      cases v with
      | number n =>
        cases n with
        | integer n =>
          unfold Projection.mapExpr
          dsimp only
          rw [List.length_map, List.getElem?_map]
          cases cs[n.toInt.toNat - 1]? <;> rfl
        | _ => rfl
      | _ => rfl
    | _ => rfl

theorem ofTerms_mapExpr (p : Projection) (terms : List OrderingTerm) :
    ofTerms (p.mapExpr g) terms = ofTerms p terms := by
  have hkeys (d : Direction) (terms : List OrderingTerm) :
      keysOf (p.mapExpr g) d terms = keysOf p d terms := by
    induction terms with
    | nil => rfl
    | cons t terms ih => rw [keysOf, keysOf, key_mapExpr, ih]
  unfold ofTerms
  simp only [hkeys]

end RowOrder

end RecordQuery
