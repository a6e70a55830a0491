import RecordQuery.Proofs.Compile.Compiled
import RecordQuery.Proofs.Filter.Likeness

/-! # Compiled filters side by side

What the compiler makes of filters that match does match, one lemma for each form that it puts
together, and the bodies of functions (`matched_body`). The variables that are bound on the way may
differ if they are related. -/

namespace RecordQuery.Compile

open RecordQuery.Filter

variable {R : Mark → Mark → Prop} [Std.Refl R] {f f' g g' x x' : Filter} {v w : Variable}
  {fs fs' : List Filter}

/-! ### Operators -/

theorem matched_unary (op : UnaryOp) (h : f.Matched R f') :
    (unary op f).Matched R (unary op f') := by
  cases op with
  | negate => exact h.group.negate.group
  | plus => exact h
  | bitNot => exact (h.group.negate.operation _ (.refl _)).group
  | not => exact (h.pipe (.refl _)).group
  | isNull | notNull => exact (h.operation _ (.refl _)).group

theorem matched_negatedIf (negated : Bool) (h : f.Matched R f') :
    (negatedIf negated f).Matched R (negatedIf negated f') := by
  cases negated with
  | false => exact h
  | true => exact h.pipe (.refl _)

theorem matched_binding (hv : R (.variable v) (.variable w)) (h : f.Matched R f')
    (hg : g.Matched R g') : (binding f v g).Matched R (binding f' w g') :=
  (h.group.bind hv hg).group

theorem matched_tested (negated : Bool) (hv : R (.variable v) (.variable w)) (h : f.Matched R f')
    (hg : g.Matched R g') : (tested f g negated v).Matched R (tested f' g' negated w) := by
  have hvar : (Filter.variable v).Matched R (.variable w) := matched_variable hv
  have htest := matched_negatedIf negated (hg.call .test (.cons (.refl (.string matchFlags)) .nil))
  have hmatch := (hvar.pipe ((Matched.refl (apply .tostring)).pipe htest)).group
  exact matched_binding hv h (.cond (hvar.operation _ (.refl _)) (.refl _) hmatch)

theorem matched_oneOf (negated : Bool) (hv : R (.variable v) (.variable w)) (h : f.Matched R f')
    (hs : List.Forall₂ (Matched R) fs fs') :
    (oneOf negated f fs v).Matched R (oneOf negated f' fs' w) :=
  have hvar : (Filter.variable v).Matched R (.variable w) := matched_variable hv
  matched_binding hv h (matched_negatedIf negated ((matched_sequence hs).call .any
    (.cons ((Matched.refl _).operation _ hvar) .nil)))

theorem matched_inRange (negated : Bool) (hv : R (.variable v) (.variable w))
    (hx : x.Matched R x') (hf : f.Matched R f') (hg : g.Matched R g') :
    (inRange negated x f g v).Matched R (inRange negated x' f' g' w) := by
  have hvar : (Filter.variable v).Matched R (.variable w) := matched_variable hv
  refine matched_binding hv hx (Matched.group ?_)
  cases negated with
  | false => exact (hvar.operation _ hf).operation _ (hvar.operation _ hg)
  | true => exact (hvar.operation _ hf).operation _ (hvar.operation _ hg)

theorem matched_joinedBy {op : BinaryOp} {join : Filter → Filter → Filter}
    (ho : rule op = .joined join) (hf : f.Matched R f') (hg : g.Matched R g') :
    (join f g).Matched R (join f' g') := by
  have hpower : (powerOfTwo g).Matched R (powerOfTwo g') :=
    (Matched.refl _).call .pow (.cons hg .nil)
  cases op <;> cases ho
  case concat =>
    have hpair := matched_sequence (.cons hf (.cons hg .nil))
    exact (hpair.array.pipe (.refl _)).group
  case shiftLeft => exact (hf.operation _ hpower).group
  case shiftRight => exact ((hf.operation _ hpower).group.pipe (.refl _)).group

/-! ### Functions -/

theorem matched_firstPresent (h : List.Forall₂ (Matched R) fs fs') :
    (QueryFunction.firstPresent fs).Matched R (QueryFunction.firstPresent fs') :=
  ((matched_sequence h).group.pipe (.refl _)).array.pipe (.refl _)

theorem matched_unlessNull (h : f.Matched R f') (hg : g.Matched R g') :
    (QueryFunction.unlessNull f g).Matched R (QueryFunction.unlessNull f' g') :=
  h.pipe (.cond (.refl _) (.refl _) hg)

theorem matched_roundTo (h : f.Matched R f') (hg : g.Matched R g') :
    (QueryFunction.roundTo f g).Matched R (QueryFunction.roundTo f' g') := by
  have hscale := (Matched.refl (R := R) (digit 10)).call .pow (.cons hg .nil)
  have hscaled := (Matched.refl .identity).operation .multiply hscale
  exact matched_unlessNull h ((hscaled.pipe (.refl _)).group.operation _ hscale)

theorem matched_placeOf (h : f.Matched R f') (hg : g.Matched R g') :
    (QueryFunction.placeOf f g).Matched R (QueryFunction.placeOf f' g') := by
  have hnull := (h.operation .equal (.refl .null)).operation .or (hg.operation .equal (.refl .null))
  have hpart := hg.pipe (.refl (apply .tostring))
  have hfound := (h.pipe ((Matched.refl (apply .tostring)).pipe (hpart.call .index .nil))).group
  exact .cond hnull (.refl _) (hfound.bind (refl_of R _) (.refl _))

/-- **The body of a function** on arguments that match. -/
theorem matched_body (q : QueryFunction) (ha : q.arity.admits fs.length = true)
    (h : List.Forall₂ (Matched R) fs fs') : (q.body fs).Matched R (q.body fs') := by
  refine QueryFunction.admits_elim
    (P := fun q fs => ∀ fs', List.Forall₂ (Matched R) fs fs' → (q.body fs).Matched R (q.body fs'))
    ?_ ?_ ?_ ?_ q fs ha fs' h
  · rintro q a ha _ (_ | ⟨hf, _ | _⟩)
    -- A function of one argument hands it to a filter of its own.
    cases q <;> cases ha <;> exact hf.pipe (.refl _)
  · rintro q a b ha _ (_ | ⟨hf, _ | ⟨hg, _ | _⟩⟩)
    cases q with
    | round => exact matched_roundTo hf hg
    | coalesce | ifnull => exact matched_firstPresent (.cons hf (.cons hg .nil))
    | nullif => exact .cond (hf.operation _ hg) (.refl _) hf
    | substr =>
      have hbefore := (hg.operation .subtract (.refl (digit 1))).group
      exact matched_unlessNull hf ((Matched.refl _).pipe (.slice hbefore (.refl _)))
    | instr => exact matched_placeOf hf hg
    | _ => cases ha
  · rintro a b c _ (_ | ⟨hf, _ | ⟨hg, _ | ⟨hx, _ | _⟩⟩⟩)
    have hbefore := hg.operation .subtract (.refl (digit 1))
    exact matched_unlessNull hf ((Matched.refl _).pipe
      (.slice hbefore.group (hbefore.operation .add hx).group))
  · exact fun fs fs' h => matched_firstPresent h

/-- Arguments that match, bound to related variables. -/
def MatchedArgument (R : Mark → Mark → Prop) (a b : Filter × Variable) : Prop :=
  a.1.Matched R b.1 ∧ R (.variable a.2) (.variable b.2)

/-- A call on arguments that match, if its bodies do. -/
theorem matched_callFilter (q : QueryFunction) {bs bs' : List (Filter × Variable)}
    (h : List.Forall₂ (MatchedArgument R) bs bs')
    (hbody : (q.body (bs.map fun b => .variable b.2)).Matched R
      (q.body (bs'.map fun b => .variable b.2))) :
    (callFilter q bs).Matched R (callFilter q bs') := by
  rw [callFilter_eq, callFilter_eq]
  refine Matched.group ?_
  generalize q.body _ = body at hbody ⊢
  generalize q.body _ = body' at hbody ⊢
  induction h with
  | nil => exact hbody
  | cons hb _ ih => exact hb.1.group.bind hb.2 ih

end RecordQuery.Compile
