import Mathlib.Data.List.Forall2
import RecordQuery.Proofs.Filter.Mark

/-! # Filters side by side

Two filters match if their marks are related, one by one (`Filter.Matched`). Where every mark is
related to itself, filters that are put together in one way from parts that match do match. Filters
are alike up to a relation of variables if they match in this sense: their texts are the same, mark
by mark, apart from variables that are related (`Filter.Like`). -/

namespace RecordQuery

/-! ### Runs of marks -/

/-- Runs of marks that are related, one by one. -/
abbrev MarksMatched (R : Mark → Mark → Prop) : List Mark → List Mark → Prop := List.Forall₂ R

namespace MarksMatched

variable {R : Mark → Mark → Prop} {ms ms' ns ns' : List Mark}

theorem append (h : MarksMatched R ms ms') (h' : MarksMatched R ns ns') :
    MarksMatched R (ms ++ ns) (ms' ++ ns') := List.rel_append h h'

variable [Std.Refl R]

theorem refl (ms : List Mark) : MarksMatched R ms ms := List.forall₂_same.mpr fun m _ => refl_of R m

theorem push (m : Mark) (h : MarksMatched R ms ms') : MarksMatched R (m :: ms) (m :: ms') :=
  List.Forall₂.cons (refl_of R m) h

theorem inside (b : Bracket) (h : MarksMatched R ms ms') :
    MarksMatched R (Mark.inside b ms) (Mark.inside b ms') := push _ (h.append (.refl _))

end MarksMatched

variable {V : Variable → Variable → Prop}

/-- Marks with one text, or related variables. -/
inductive Mark.Like (V : Variable → Variable → Prop) : Mark → Mark → Prop
  | same {m n : Mark} (h : m.text = n.text) : Like V m n
  | variable {v w : Variable} (h : V v w) : Like V (.variable v) (.variable w)

instance : Std.Refl (Mark.Like V) := ⟨fun _ => .same rfl⟩

/-- Runs of marks that are alike, one by one. -/
abbrev MarksLike (V : Variable → Variable → Prop) : List Mark → List Mark → Prop :=
  List.Forall₂ (Mark.Like V)

/-! ### Filters -/

namespace Filter

/-- **Filters that match**: their marks are related, one by one. -/
def Matched (R : Mark → Mark → Prop) (f g : Filter) : Prop := MarksMatched R f.marks g.marks

variable {R : Mark → Mark → Prop} {f f' g g' t t' : Filter} {v w : Variable} {fs gs : List Filter}

theorem matched_variable (h : R (.variable v) (.variable w)) :
    (Filter.variable v).Matched R (.variable w) := List.Forall₂.cons h .nil

section

variable [Std.Refl R]

theorem Matched.refl (f : Filter) : f.Matched R f := MarksMatched.refl _

theorem Matched.group (hf : f.Matched R f') : (group f).Matched R (group f') :=
  MarksMatched.inside _ hf

theorem Matched.array (hf : f.Matched R f') : (array f).Matched R (array f') :=
  MarksMatched.inside _ hf

theorem Matched.negate (hf : f.Matched R f') : (negate f).Matched R (negate f') :=
  MarksMatched.push _ hf

theorem Matched.pipe (hf : f.Matched R f') (hg : g.Matched R g') :
    (pipe f g).Matched R (pipe f' g') :=
  MarksMatched.append hf (MarksMatched.push _ (MarksMatched.push _ (MarksMatched.push _ hg)))

theorem Matched.operation (op : Operator) (hf : f.Matched R f') (hg : g.Matched R g') :
    (operation op f g).Matched R (operation op f' g') :=
  MarksMatched.append hf (MarksMatched.push _ (MarksMatched.push _ (MarksMatched.push _ hg)))

theorem Matched.helper (h : Helper) (hf : f.Matched R f') (hg : g.Matched R g') :
    (helper h f g).Matched R (helper h f' g') :=
  MarksMatched.push _ (MarksMatched.inside _ (MarksMatched.append hf
    (MarksMatched.push _ (MarksMatched.push _ hg))))

theorem Matched.bind (hf : f.Matched R f') (hv : R (.variable v) (.variable w))
    (hg : g.Matched R g') : (bind f v g).Matched R (bind f' w g') :=
  MarksMatched.append hf ((MarksMatched.refl _).append
    (List.Forall₂.cons hv (MarksMatched.push _ (MarksMatched.push _ (MarksMatched.push _ hg)))))

theorem Matched.cond (ht : t.Matched R t') (hf : f.Matched R f') (hg : g.Matched R g') :
    (cond t f (.otherwise g)).Matched R (cond t' f' (.otherwise g')) :=
  MarksMatched.push _ (MarksMatched.push _ (MarksMatched.append ht ((MarksMatched.refl _).append
    (MarksMatched.append hf (((MarksMatched.refl _).append hg).append (.refl _))))))

theorem Matched.slice {low low' high high' : Option Filter}
    (hlow : MarksMatched R (boundMarks low) (boundMarks low'))
    (hhigh : MarksMatched R (boundMarks high) (boundMarks high')) :
    (slice low high).Matched R (slice low' high') :=
  MarksMatched.push _ ((hlow.append (hhigh.push _)).inside _)

theorem matched_joined (between : List Mark) (h : List.Forall₂ (Matched R) fs gs) :
    MarksMatched R (joinedMarks between fs) (joinedMarks between gs) := by
  induction h with
  | nil => exact .nil
  | cons hf hs ih =>
    cases hs with
    | nil => exact hf
    | cons => exact MarksMatched.append hf ((MarksMatched.refl between).append ih)

theorem matched_sequence (h : List.Forall₂ (Matched R) fs gs) :
    (sequence fs).Matched R (sequence gs) := matched_joined _ h

theorem Matched.call (b : Builtin) (hf : f.Matched R f') (h : List.Forall₂ (Matched R) fs gs) :
    (call b (f :: fs)).Matched R (call b (f' :: gs)) :=
  MarksMatched.push _ ((matched_joined _ (.cons hf h)).inside _)

end

/-- **Filters that are alike**: their texts are the same up to related variables. -/
def Like (V : Variable → Variable → Prop) (f g : Filter) : Prop := MarksLike V f.marks g.marks

theorem Like.refl (f : Filter) : f.Like V f := Matched.refl f

theorem like_variable (h : V v w) : (Filter.variable v).Like V (.variable w) :=
  matched_variable (.variable h)

theorem like_number {m n : Number} (h : m.text = n.text) : (number m).Like V (number n) :=
  List.Forall₂.cons (.same h) .nil

end Filter

end RecordQuery
