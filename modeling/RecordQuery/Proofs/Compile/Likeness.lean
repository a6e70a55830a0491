import RecordQuery.Proofs.Compile.Matching
import RecordQuery.Proofs.Compile.Numbers
import RecordQuery.Proofs.Grammar.Respelling

/-! # One expression compiled twice

An expression that stands in a query twice is compiled twice, from different names: its variables
get other numbers each time, and so do its bare markers. The two filters are alike up to that
(`Compiled.twice`): a numbered variable of one becomes the one at the same distance from the first,
and the variable of a bare marker becomes that of the same marker (`Renumbered`). The values of
numbers with one text, and places, make no difference. -/

namespace RecordQuery

/-- The variables of the bare markers among parameters, behind two greatest numbers, side by side.
-/
def barePairs (n m : UInt32) : List (Parameter × Position) → List (String × String)
  | [] => []
  | p :: ps =>
    (if p.1 = .next then [(Compile.positionalName (n + 1), Compile.positionalName (m + 1))]
      else []) ++ barePairs (p.1.count n) (p.1.count m) ps

/-- **Variables that stand for one another** where an expression is compiled from two counts of
variables, `b` and `c`, given the variables of its bare markers side by side. -/
inductive Renumbered (b c : Nat) (markers : List (String × String)) : Variable → Variable → Prop
  | bound {m n : Nat} (h : m + c = n + b) : Renumbered b c markers (.bound m) (.bound n)
  | marker {x y : String} (h : (x, y) ∈ markers) : Renumbered b c markers (.named x) (.named y)

theorem barePairs_append (n m : UInt32) (ps qs : List (Parameter × Position)) :
    barePairs n m (ps ++ qs) =
      barePairs n m ps ++ barePairs (countedBy n ps) (countedBy m ps) qs := by
  induction ps generalizing n m with
  | nil => rfl
  | cons p ps ih =>
    rw [List.cons_append, barePairs, barePairs, ih, List.append_assoc]
    rfl

/-! ### Expressions that are the same -/

mutual

/-- Expressions that are the same have the same markers, up to places. -/
theorem Expr.Same.markers : ∀ {e f : Expr}, e.Same f →
    e.parameters.map Prod.fst = f.parameters.map Prod.fst
  | _, _, .literal _ | _, _, .number _ | _, _, .column _ | _, _, .parameter _ _ _ => rfl
  | _, _, .callStar _ _ _ => rfl
  | _, _, .unary _ h => h.markers
  | _, _, .binary _ hl hr => by
    simp only [Expr.parameters, List.map_append, hl.markers, hr.markers]
  | _, _, .between _ hv hl hh => by
    simp only [Expr.parameters, List.map_append, hv.markers, hl.markers, hh.markers]
  | _, _, .listed _ hv hs => by
    simp only [Expr.parameters, List.map_append, hv.markers, hs.markers]
  | _, _, .call _ _ _ hs => hs.markers

theorem AllSame.markers : ∀ {es fs : List Expr}, AllSame es fs →
    (parametersOf es).map Prod.fst = (parametersOf fs).map Prod.fst
  | _, _, .nil => rfl
  | _, _, .cons h hs => by simp only [parametersOf, List.map_append, h.markers, hs.markers]

end

section

variable {ps qs : List (Parameter × Position)}

theorem countedBy_congr (h : ps.map Prod.fst = qs.map Prod.fst) (n : UInt32) :
    countedBy n ps = countedBy n qs := by
  have hfold : ∀ ps, countedBy n ps = (ps.map Prod.fst).foldl (fun n p => p.count n) n := fun ps =>
    List.foldl_map.symm
  rw [hfold, hfold, h]

theorem CounterFits.congr {n : UInt32} (hp : CounterFits n ps)
    (h : ps.map Prod.fst = qs.map Prod.fst) : CounterFits n qs := by
  induction ps generalizing n qs with
  | nil =>
    obtain rfl := List.map_eq_nil_iff.mp h.symm
    trivial
  | cons p ps ih =>
    obtain ⟨q, qs, rfl, hpq, hrest⟩ := List.map_eq_cons_iff.mp h.symm
    rw [CounterFits, ← hpq] at hp
    exact ⟨hp.1, ih hp.2 hrest.symm⟩

end

theorem AllSame.length_eq {es fs : List Expr} (h : AllSame es fs) : fs.length = es.length := by
  induction es generalizing fs with
  | nil => cases h; rfl
  | cons e es ih =>
    cases h with
    | cons _ hs => rw [List.length_cons, ih hs, List.length_cons]

theorem Expr.Same.pattern? {e f : Expr} (h : e.Same f) :
    Compile.pattern? f = Compile.pattern? e := by
  cases h <;> rfl

namespace Compile

open RecordQuery.Filter

variable {V : Variable → Variable → Prop} {f f' g g' : Filter}

/-! ### Calls -/

/-- Arguments that are alike, bound to related variables. -/
def LikeArgument (V : Variable → Variable → Prop) (a b : Filter × Variable) : Prop :=
  a.1.Like V b.1 ∧ V a.2 b.2

theorem like_callFilter (q : QueryFunction) {bs bs' : List (Filter × Variable)}
    (ha : q.arity.admits bs.length = true) (h : List.Forall₂ (LikeArgument V) bs bs') :
    (callFilter q bs).Like V (callFilter q bs') := by
  have hvariables : List.Forall₂ (Matched (Mark.Like V)) (bs.map fun b => .variable b.2)
      (bs'.map fun b => .variable b.2) :=
    List.rel_map (fun _ _ hb => matched_variable (.variable hb.2)) h
  exact matched_callFilter q (h.imp fun _ _ hb => ⟨hb.1, .variable hb.2⟩)
    (matched_body q (by rw [List.length_map]; exact ha) hvariables)

/-! ### Runs from other names -/

/-- Markers that the counter fits behind the second of two greatest numbers, and of which the bare
ones have related variables behind both. -/
structure Marks (V : Variable → Variable → Prop) (n m : UInt32) (ps : List (Parameter × Position)) :
    Prop where
  fits : CounterFits m ps
  related : ∀ x ∈ barePairs n m ps, V (.named x.1) (.named x.2)

theorem marks_append {n m : UInt32} {ps qs : List (Parameter × Position)}
    (h : Marks V n m (ps ++ qs)) :
    Marks V n m ps ∧ Marks V (countedBy n ps) (countedBy m ps) qs := by
  obtain ⟨hfits, hrelated⟩ := h
  rw [barePairs_append, List.forall_mem_append] at hrelated
  obtain ⟨hps, hqs⟩ := counterFits_append.mp hfits
  exact ⟨⟨hps, hrelated.1⟩, hqs, hrelated.2⟩

/-- The name of a parameter at another place, behind other names. -/
theorem run_parameterName {s s' t : Names} {p : Parameter} {q r : Position} {name : String}
    (h : (parameterName p q).run s = .ok name s')
    (hm : Marks V s.positional t.positional [(p, q)]) :
    ∃ name' t', (parameterName p r).run t = .ok name' t' ∧
      (Filter.variable (.named name)).Like V (.variable (.named name')) ∧
      s'.bindings = s.bindings ∧ t'.bindings = t.bindings := by
  cases p with
  | next =>
    cases named_of_run h
    exact ⟨_, _, (run_next t r).trans (if_neg (hm.fits.1 rfl)),
      like_variable (hm.related _ List.mem_cons_self), rfl, rfl⟩
  | numbered n =>
    cases h
    exact ⟨_, _, rfl, .refl _, rfl, rfl⟩
  | named sigil given =>
    rw [run_named] at h ⊢
    split_ifs at h ⊢ with hbad
    cases h
    exact ⟨_, t, rfl, .refl _, rfl, rfl⟩

variable {b c : Nat}

/-- What becomes of an expression that is the same, compiled from other names. -/
def Follows (V : Variable → Variable → Prop) (b c : Nat) (e : Expr) (f : Filter) (s s' : Names) :
    Prop :=
  ∀ e' t, e.Same e' → Marks V s.positional t.positional e.parameters →
    t.bindings + b = s.bindings + c → ∃ f' t', Compiled (.expr e' f') t t' ∧ f.Like V f' ∧
      t'.bindings + b = s'.bindings + c

/-- What becomes of a job of which the expressions are the same. -/
def Job.Follows (V : Variable → Variable → Prop) (b c : Nat) (s s' : Names) : Job → Prop
  | .expr e f => Compile.Follows V b c e f s s'
  | .exprs es fs => ∀ es' t, AllSame es es' →
      Marks V s.positional t.positional (parametersOf es) → t.bindings + b = s.bindings + c →
      ∃ fs' t', Compiled (.exprs es' fs') t t' ∧ List.Forall₂ (Filter.Like V) fs fs' ∧
        t'.bindings + b = s'.bindings + c
  | .arguments es bs => ∀ es' t, AllSame es es' →
      Marks V s.positional t.positional (parametersOf es) → t.bindings + b = s.bindings + c →
      ∃ bs' t', Compiled (.arguments es' bs') t t' ∧ List.Forall₂ (LikeArgument V) bs bs' ∧
        t'.bindings + b = s'.bindings + c

variable {s s' s₁ s₂ t t₁ : Names} {e e' l l' r r' : Expr}

/-- The markers behind an expression are compiled from the greatest numbers behind it. -/
theorem Marks.behind {ps : List (Parameter × Position)}
    (hm : Marks V s.positional t.positional (e.parameters ++ ps)) (he : e.Same e')
    (h : Compiled (.expr e f) s s₁) (h' : Compiled (.expr e' f') t t₁) :
    Marks V s₁.positional t₁.positional ps := by
  have hs : s₁.positional = e.counted s.positional := h.counted
  have ht : t₁.positional = e'.counted t.positional := h'.counted
  rw [hs, ht, counted_parameters, counted_parameters, ← countedBy_congr he.markers]
  exact (marks_append hm).2

/-- Two expressions, one after the other. -/
theorem Follows.pair (ihl : Follows V b c l f s s₁) (hf : Compiled (.expr l f) s s₁)
    (ihr : Follows V b c r g s₁ s₂) (hl : l.Same l') (hr : r.Same r')
    (hm : Marks V s.positional t.positional (l.parameters ++ r.parameters))
    (ht : t.bindings + b = s.bindings + c) :
    ∃ f' g' t₁ t₂, Compiled (.expr l' f') t t₁ ∧ Compiled (.expr r' g') t₁ t₂ ∧ f.Like V f' ∧
      g.Like V g' ∧ t₂.bindings + b = s₂.bindings + c := by
  obtain ⟨f', t₁, hf', hlike, ht₁⟩ := ihl l' t hl (marks_append hm).1 ht
  obtain ⟨g', t₂, hg', hlike', ht₂⟩ := ihr r' t₁ hr (hm.behind hl hf hf') ht₁
  exact ⟨f', g', t₁, t₂, hf', hg', hlike, hlike', ht₂⟩

/-- **Compiled again** from other names, expressions that are the same give filters that are alike.
-/
theorem Compiled.follows {j : Job} (h : Compiled j s s')
    (hV : ∀ m n, m + c = n + b → V (.bound m) (.bound n)) : j.Follows V b c s s' := by
  have hnext : ∀ {s t : Names}, t.bindings + b = s.bindings + c → V s.next t.next := by
    intro s t ht
    exact hV _ _ (by omega)
  have hfresh : ∀ {s t : Names}, t.bindings + b = s.bindings + c →
      t.fresh.bindings + b = s.fresh.bindings + c := by
    intro s t ht
    simp only [Names.bindings_fresh]
    omega
  induction h with
  | literal v s =>
    rintro e' t (_ | h) - ht
    · exact ⟨_, t, .literal v t, .refl _, ht⟩
    · exact ⟨_, t, .literal _ t, like_number h, ht⟩
  | column ref s =>
    rintro e' t (_ | _) - ht
    exact ⟨_, t, .column ref t, .refl _, ht⟩
  | parameter h =>
    rintro e' t (_ | _) hm ht
    obtain ⟨name, t', hrun, hlike, hs', ht'⟩ := run_parameterName h hm
    exact ⟨_, _, .parameter hrun, hlike, by rw [Names.bindings_use, Names.bindings_use]; omega⟩
  | unary _ ih =>
    rintro e' t (_ | _) hm ht
    next h =>
      obtain ⟨f', t', hf', hlike, ht'⟩ := ih _ t h hm ht
      exact ⟨_, t', .unary hf', matched_unary _ hlike, ht'⟩
  | operator ho hl _ ihl ihr =>
    rintro e' t (_ | _) hm ht
    next hl' hr' =>
      obtain ⟨f', g', t₁, t₂, hf', hg', hf, hg, ht₂⟩ := ihl.pair hl ihr hl' hr' hm ht
      exact ⟨_, t₂, .operator ho hf' hg', (Matched.operation _ hf hg).group, ht₂⟩
  | joined ho hl _ ihl ihr =>
    rintro e' t (_ | _) hm ht
    next hl' hr' =>
      obtain ⟨f', g', t₁, t₂, hf', hg', hf, hg, ht₂⟩ := ihl.pair hl ihr hl' hr' hm ht
      exact ⟨_, t₂, .joined ho hf' hg', matched_joinedBy ho hf hg, ht₂⟩
  | @helper op d l r f g s s₁ s₂ ho hl _ ihl ihr =>
    rintro e' t (_ | _) hm ht
    next hl' hr' =>
      obtain ⟨f', g', t₁, t₂, hf', hg', hf, hg, ht₂⟩ :=
        ihl.pair hl ihr hl' hr' (t := t.need d) hm ht
      exact ⟨_, t₂, .helper ho hf' hg', Matched.helper _ hf hg, ht₂⟩
  | like ho hp _ ihl =>
    rintro e' t (_ | _) hm ht
    next hl' hr' =>
      obtain ⟨f', t₁, hf', hf, ht₁⟩ := ihl _ t hl' (marks_append hm).1 ht
      exact ⟨_, _, .like ho (hr'.pattern?.trans hp) hf',
        matched_tested _ (.variable (hnext ht₁)) hf (.refl _), hfresh ht₁⟩
  | regexp ho hp _ ihl =>
    rintro e' t (_ | _) hm ht
    next hl' hr' =>
      obtain ⟨f', t₁, hf', hf, ht₁⟩ := ihl _ t hl' (marks_append hm).1 ht
      exact ⟨_, _, .regexp ho (hr'.pattern?.trans hp) hf',
        matched_tested _ (.variable (hnext ht₁)) hf (.refl _), hfresh ht₁⟩
  | computedRegexp ho hp hl _ ihl ihr =>
    rintro e' t (_ | _) hm ht
    next hl' hr' =>
      obtain ⟨f', g', t₁, t₂, hf', hg', hf, hg, ht₂⟩ := ihl.pair hl ihr hl' hr' hm ht
      exact ⟨_, _, .computedRegexp ho (hr'.pattern?.trans hp) hf' hg',
        matched_binding (.variable (hnext ht₂)) hg (matched_tested _
          (.variable (hnext (hfresh ht₂))) hf (like_variable (hnext ht₂))), hfresh (hfresh ht₂)⟩
  | member ho hl _ ihl ihr =>
    rintro e' t (_ | _) hm ht
    next hl' hr' =>
      obtain ⟨f', g', t₁, t₂, hf', hg', hf, hg, ht₂⟩ := ihl.pair hl ihr hl' hr' hm ht
      exact ⟨_, _, .member ho hf' hg', matched_oneOf _ (.variable (hnext ht₂)) hf (.cons hg .nil),
        hfresh ht₂⟩
  | between hx hf _ ihx ihf ihg =>
    rintro e' t (_ | _) hm ht
    next hv hl hh =>
      obtain ⟨x', t₁, hx', hlike, ht₁⟩ := ihx _ t hv (marks_append hm).1 ht
      obtain ⟨f', g', t₂, t₃, hf', hg', hlow, hhigh, ht₃⟩ :=
        ihf.pair hf ihg hl hh (hm.behind hv hx hx') ht₁
      exact ⟨_, _, .between hx' hf' hg',
        matched_inRange _ (.variable (hnext ht₃)) hlike hlow hhigh, hfresh ht₃⟩
  | listed hx _ ihx ihs =>
    rintro e' t (_ | _) hm ht
    next hv hs =>
      obtain ⟨x', t₁, hx', hlike, ht₁⟩ := ihx _ t hv (marks_append hm).1 ht
      obtain ⟨fs', t₂, hfs', hlikes, ht₂⟩ := ihs _ t₁ hs (hm.behind hv hx hx') ht₁
      exact ⟨_, _, .listed hx' hfs', matched_oneOf _ (.variable (hnext ht₂)) hlike hlikes,
        hfresh ht₂⟩
  | call hq ha hs ih =>
    rintro e' t (_ | _) hm ht
    next hsame =>
      obtain ⟨bs', t', hbs', hlikes, ht'⟩ := ih _ t hsame hm ht
      refine ⟨_, t', .call hq (by rw [hsame.length_eq]; exact ha) hbs', ?_, ht'⟩
      exact like_callFilter _ (by rw [hs.bindsArguments.1]; exact ha) hlikes
  | none s =>
    rintro es' t (_ | _) - ht
    exact ⟨[], t, .none t, .nil, ht⟩
  | more h _ ih ihs =>
    rintro es' t (_ | _) hm ht
    next he hes =>
      obtain ⟨f', t₁, hf', hlike, ht₁⟩ := ih _ t he (marks_append hm).1 ht
      obtain ⟨fs', t₂, hfs', hlikes, ht₂⟩ := ihs _ t₁ hes (hm.behind he h hf') ht₁
      exact ⟨f' :: fs', t₂, .more hf' hfs', .cons hlike hlikes, ht₂⟩
  | noArgument s =>
    rintro es' t (_ | _) - ht
    exact ⟨[], t, .noArgument t, .nil, ht⟩
  | argument h _ ih ihs =>
    rintro es' t (_ | _) hm ht
    next he hes =>
      obtain ⟨f', t₁, hf', hlike, ht₁⟩ := ih _ t he (marks_append hm).1 ht
      have hrest := hm.behind he h hf'
      obtain ⟨bs', t₂, hbs', hlikes, ht₂⟩ := ihs _ t₁.fresh hes hrest (hfresh ht₁)
      exact ⟨_, t₂, .argument hf' hbs', .cons ⟨hlike, hnext ht₁⟩ hlikes, ht₂⟩

/-- **An expression compiled twice** gives filters that are alike, up to the numbers of variables
and bare markers. -/
theorem Compiled.twice (he : e.Same e') (h : Compiled (.expr e f) s s')
    (h' : Compiled (.expr e' f') t t₁) :
    f.Like (Renumbered s.bindings t.bindings (barePairs s.positional t.positional e.parameters))
      f' := by
  have hfits := (counterFits_of_run h'.runs).congr he.markers.symm
  obtain ⟨f'', t', hf'', hlike, -⟩ := h.follows (fun _ _ => Renumbered.bound) e' t he
    ⟨hfits, fun _ => Renumbered.marker⟩ (Nat.add_comm _ _)
  obtain ⟨rfl, -⟩ := EStateM.Result.ok.inj (h'.runs.symm.trans hf''.runs)
  exact hlike

end Compile

end RecordQuery
