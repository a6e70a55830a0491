import RecordQuery.Plan.Projection
import RecordQuery.Proofs.Runs

/-! # Result columns that are laid out

A list behind `SELECT` is a single star, or it is laid out as one column for each of its entries
(`Projection.of_ofColumns`), in their order (`Projection.columnsOf_eq_ok`). What is known of an
entry is known of its column (`ResultColumn.Gives`), wherever in the list the two stand. -/

namespace RecordQuery

/-- The column that an entry gives if it is an expression. A star gives none. -/
inductive ResultColumn.Gives : ResultColumn → Column → Prop
  | expr {e : Expr} {label : Option String} {text : String} {position : Position} :
      Gives (.expr e label text position) (Projection.column e label text)

/-- A list behind `SELECT` that is a single star. -/
def IsStar (cols : List ResultColumn) : Prop := ∃ position, cols = [.star position]

instance : DecidablePred IsStar
  | [.star position] => .isTrue ⟨position, rfl⟩
  | [] | [.qualifiedStar _ _] | [.expr _ _ _ _] | _ :: _ :: _ => .isFalse nofun

/-- A projection as it comes from a list behind `SELECT`. -/
inductive Projection.Of (cols : List ResultColumn) : Projection → Prop
  | all (h : IsStar cols) : Of cols .all
  | columns {cs : List Column} (h : ¬ IsStar cols) (hcs : columnsOf cols = .ok cs) :
      Of cols (.columns cs)

namespace Projection

variable {cols : List ResultColumn} {cs : List Column} {p : Projection} {i : Nat}

/-- **Entries and columns** correspond one to one. -/
theorem columnsOf_eq_ok : columnsOf cols = .ok cs ↔ List.Forall₂ ResultColumn.Gives cols cs := by
  constructor
  · intro h
    induction cols generalizing cs with
    | nil =>
      cases h
      exact .nil
    | cons c cols ih =>
      cases c with
      | star | qualifiedStar => cases h
      | expr e label text position =>
        obtain ⟨rest, hrest, rfl⟩ := ok_of_map h
        exact .cons .expr (ih hrest)
  · intro h
    induction h with
    | nil => rfl
    | cons hc _ ih =>
      cases hc
      rw [columnsOf, ih]
      rfl

theorem length_columnsOf (h : columnsOf cols = .ok cs) : cs.length = cols.length :=
  (columnsOf_eq_ok.mp h).length_eq.symm

theorem columnsOf_take (h : columnsOf cols = .ok cs) (i : Nat) :
    columnsOf (cols.take i) = .ok (cs.take i) :=
  columnsOf_eq_ok.mpr (List.forall₂_take i (columnsOf_eq_ok.mp h))

theorem columnsOf_getElem? (h : columnsOf cols = .ok cs) {e : Expr} {label : Option String}
    {text : String} {place : Position} (hi : cols[i]? = some (.expr e label text place)) :
    cs[i]? = some (column e label text) := by
  replace h := columnsOf_eq_ok.mp h
  induction h generalizing i with
  | nil => cases hi
  | cons hc _ ih =>
    cases i with
    | zero =>
      cases hi
      cases hc
      rfl
    | succ i => exact ih hi

theorem of_ofColumns (h : ofColumns cols = .ok p) : Of cols p := by
  unfold ofColumns at h
  split at h
  · next position =>
    cases h
    exact .all ⟨position, rfl⟩
  · next hstar =>
    obtain ⟨cs, hcs, rfl⟩ := ok_of_map h
    exact .columns (fun ⟨position, heq⟩ => hstar position heq) hcs

end Projection

end RecordQuery
