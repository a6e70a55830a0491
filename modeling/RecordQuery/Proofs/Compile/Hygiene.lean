import RecordQuery.Proofs.Compile.Steps
import RecordQuery.Proofs.Filter.Scope

/-! # Variables of compiled expressions

Expressions compiled one after another share their names. Each number that is given out on the way
is bound once in the filters that come out, every use of a numbered variable lies in the scope of
its binder, and no parameter is caught by a binder (`variables_hygienic`). A run keeps account of
the numbers: what `Names` has given out behind a step is what it had given out before, and what the
filter binds. -/

namespace RecordQuery

namespace Occurrence

/-- A proper occurrence: binders are not of parameters, numbered variables and the place are used in
the scope of a binder, and parameters outside the scopes of variables that have their name. -/
def Proper : Occurrence → Prop
  | binder v => ∀ name, v ≠ .named name
  | use (.named name) scope => Compile.isReserved name = false ∧ ∀ v ∈ scope, v.name ≠ name
  | use v scope => v ∈ scope

end Occurrence

/-- How often a number has been given out. -/
def Names.given (s : Names) (n : Nat) : Nat := if 0 < n ∧ n ≤ s.bindings then 1 else 0

theorem Names.given_le (s : Names) (n : Nat) : s.given n ≤ 1 := by
  unfold given
  split <;> omega

theorem Names.given_fresh (s : Names) (n : Nat) :
    s.fresh.given n = s.given n + [Occurrence.binder s.next].count (.binder (.bound n)) := by
  unfold given next
  rw [List.count_singleton, bindings_fresh]
  by_cases hn : n = s.bindings + 1
  · subst hn
    simp
  · have hne : (Occurrence.binder (.bound (s.bindings + 1)) == .binder (.bound n)) = false := by
      simp only [beq_eq_false_iff_ne, ne_eq, Occurrence.binder.injEq, Variable.bound.injEq]
      omega
    rw [hne]
    split <;> split <;> simp <;> omega

/-- Proper occurrences that bind the numbers given out from some names to others. -/
structure Hygienic (os : List Occurrence) (s s' : Names) : Prop where
  proper : ∀ o ∈ os, o.Proper
  given : ∀ n, s'.given n = s.given n + os.count (.binder (.bound n))

namespace Hygienic

variable {os ps : List Occurrence} {s s₁ s₂ : Names} {v : Variable} {Γ : List Variable}

theorem nil (s : Names) : Hygienic [] s s := ⟨fun _ ho => absurd ho List.not_mem_nil, fun _ => rfl⟩

/-- Occurrences of which the first ones were compiled first. -/
theorem append (h : Hygienic os s s₁) (h' : Hygienic ps s₁ s₂) : Hygienic (os ++ ps) s s₂ where
  proper o ho := by
    obtain ho | ho := List.mem_append.mp ho
    · exact h.proper o ho
    · exact h'.proper o ho
  given n := by
    have hn := h.given n
    have hn' := h'.given n
    rw [List.count_append]
    omega

theorem perm (h : Hygienic os s s₁) (hp : os.Perm ps) : Hygienic ps s s₁ where
  proper o ho := h.proper o (hp.mem_iff.mpr ho)
  given n := by rw [← hp.count_eq, h.given n]

theorem fresh (s : Names) : Hygienic [.binder s.next] s s.fresh where
  proper o ho := by
    obtain rfl := List.mem_singleton.mp ho
    exact nofun
  given := s.given_fresh

/-- A use of a variable that is in scope and no parameter. -/
theorem use (hv : v ∈ Γ) (hn : ∀ name, v ≠ .named name) (s : Names) :
    Hygienic [.use v Γ] s s where
  proper o ho := by
    obtain rfl := List.mem_singleton.mp ho
    cases v with
    | named name => exact absurd rfl (hn name)
    | _ => exact hv
  given n := rfl

/-- Occurrences of which the last ones were compiled first. -/
theorem swap (h : Hygienic ps s s₁) (h' : Hygienic os s₁ s₂) : Hygienic (os ++ ps) s s₂ :=
  (h.append h').perm List.perm_append_comm

end Hygienic

namespace Filter

variable {v : Variable} {f g h : Filter} {negated : Bool} {fs : List Filter}

theorem occurrences_binding (Γ : List Variable) : (Compile.binding f v g).occurrences Γ =
    f.occurrences Γ ++ ([.binder v] ++ g.occurrences (v :: Γ)) := rfl

theorem occurrences_tested (Γ : List Variable) : (Compile.tested f g negated v).occurrences Γ =
    f.occurrences Γ ++ ([.binder v] ++
      ([.use v (v :: Γ)] ++ ([.use v (v :: Γ)] ++ g.occurrences (v :: Γ)))) := by
  cases negated <;> simp [Compile.tested, occurrences_binding, Compile.negatedIf, occurrences,
    branchOccurrences, argumentOccurrences, leftOpen, apply]

theorem occurrences_oneOf (Γ : List Variable) : (Compile.oneOf negated f fs v).occurrences Γ =
    f.occurrences Γ ++ ([.binder v] ++
      (sequenceOccurrences (v :: Γ) fs ++ [.use v (v :: Γ)])) := by
  cases negated <;> simp [Compile.oneOf, occurrences_binding, Compile.negatedIf, occurrences,
    argumentOccurrences, leftOpen, apply]

theorem occurrences_inRange (Γ : List Variable) (hg : g.leftOpen = []) :
    (Compile.inRange negated f g h v).occurrences Γ = f.occurrences Γ ++ ([.binder v] ++
      ([.use v (v :: Γ)] ++ (g.occurrences (v :: Γ) ++
        ([.use v (v :: Γ)] ++ h.occurrences (v :: Γ))))) := by
  cases negated <;> simp [Compile.inRange, occurrences_binding, occurrences, leftOpen, hg]

end Filter

/-! ### Functions -/

/-- Proper occurrences that bind no number. -/
def Quiet (os : List Occurrence) : Prop := ∀ o ∈ os, o.Proper ∧ ∀ n, o ≠ .binder (.bound n)

theorem Quiet.hygienic {os : List Occurrence} (h : Quiet os) (s : Names) : Hygienic os s s where
  proper o ho := (h o ho).1
  given n := by
    have hzero : os.count (.binder (.bound n)) = 0 :=
      List.count_eq_zero.mpr fun hmem => (h _ hmem).2 n rfl
    rw [hzero, Nat.add_zero]

/-- A filter that uses a numbered variable that is in scope. -/
def InScope (Γ : List Variable) (f : Filter) : Prop := ∃ n, .bound n ∈ Γ ∧ f = .variable (.bound n)

namespace QueryFunction

open RecordQuery.Filter

variable {Γ : List Variable} {vs : List Filter} {f g h : Filter}

theorem quiet_use {n : Nat} (hn : .bound n ∈ Γ) :
    (Occurrence.use (.bound n) Γ).Proper ∧ ∀ m, Occurrence.use (.bound n) Γ ≠ .binder (.bound m) :=
  ⟨hn, fun _ => nofun⟩

theorem quiet_sequence (hv : ∀ v ∈ vs, InScope Γ v) : Quiet (sequenceOccurrences Γ vs) := by
  induction vs with
  | nil => exact fun _ ho => absurd ho List.not_mem_nil
  | cons v vs ih =>
    obtain ⟨n, hn, rfl⟩ := hv v List.mem_cons_self
    intro o ho
    obtain rfl | ho := List.mem_cons.mp ho
    · exact quiet_use hn
    · exact ih (fun w hw => hv w (List.mem_cons_of_mem _ hw)) o ho

theorem quiet_firstPresent (hv : ∀ v ∈ vs, InScope Γ v) :
    Quiet ((firstPresent vs).occurrences Γ) := by
  have hall := quiet_sequence hv
  have heq : (firstPresent vs).occurrences Γ = sequenceOccurrences Γ vs := by
    simp [firstPresent, occurrences, argumentOccurrences]
  rw [heq]
  exact hall

theorem quiet_placeOf (hf : InScope Γ f) (hg : InScope Γ g) :
    Quiet ((placeOf f g).occurrences Γ) := by
  obtain ⟨m, hm, rfl⟩ := hf
  obtain ⟨n, hn, rfl⟩ := hg
  simp [Quiet, placeOf, occurrences, branchOccurrences, argumentOccurrences, leftOpen, apply, digit,
    hm, hn, Occurrence.Proper]

/-- **The body of a function** uses its arguments, and binds no number. -/
theorem quiet_body (q : QueryFunction) (ha : q.arity.admits vs.length = true)
    (hv : ∀ v ∈ vs, InScope Γ v) : Quiet ((q.body vs).occurrences Γ) := by
  refine admits_elim (P := fun q vs => (∀ v ∈ vs, InScope Γ v) → Quiet ((q.body vs).occurrences Γ))
    ?_ ?_ ?_ ?_ q vs ha hv
  · intro q a ha hv
    obtain ⟨n, hn, rfl⟩ := hv a List.mem_cons_self
    have hquiet := quiet_use hn
    cases q with
    | coalesce | ifnull | nullif | substr | instr => cases ha
    | _ =>
      simp [Quiet, body, onText, unlessNull, isNull, removing, kindName, occurrences,
        branchOccurrences, argumentOccurrences, apply, digit, hquiet]
  · intro q a b ha hv
    have hfirst := hv a List.mem_cons_self
    have hsecond := hv b (List.mem_cons_of_mem _ List.mem_cons_self)
    cases q with
    | coalesce | ifnull => exact quiet_firstPresent hv
    | instr => exact quiet_placeOf hfirst hsecond
    | lower | upper | length | abs | trim | ltrim | rtrim | typeof => cases ha
    | _ =>
      obtain ⟨m, hm, rfl⟩ := hfirst
      obtain ⟨n, hn, rfl⟩ := hsecond
      simp [Quiet, body, roundTo, onText, unlessNull, isNull, occurrences, branchOccurrences,
        argumentOccurrences, leftOpen, apply, digit, quiet_use hm, quiet_use hn]
  · intro a b c hv
    obtain ⟨l, hl, rfl⟩ := hv a (by simp)
    obtain ⟨m, hm, rfl⟩ := hv b (by simp)
    obtain ⟨n, hn, rfl⟩ := hv c (by simp)
    simp [Quiet, body, onText, unlessNull, isNull, occurrences, branchOccurrences,
      argumentOccurrences, leftOpen, apply, digit, quiet_use hl, quiet_use hm, quiet_use hn]
  · intro vs hv
    exact quiet_firstPresent hv

end QueryFunction

namespace Compile

open RecordQuery.Filter

/-! ### Runs -/

/-- Variables with numbers. -/
def Numbered (Γ : List Variable) : Prop := ∀ v ∈ Γ, ∃ n, v = .bound n

variable {Γ : List Variable} {s s' s₁ s₂ s₃ : Names} {x f g : Filter}

theorem Numbered.cons (h : Numbered Γ) (s : Names) : Numbered (s.next :: Γ) := by
  intro v hv
  obtain rfl | hv := List.mem_cons.mp hv
  · exact ⟨_, rfl⟩
  · exact h v hv

theorem hygienic_next (Γ : List Variable) (s s₁ : Names) : Hygienic [.use s.next (s.next :: Γ)] s₁ s₁ :=
  .use List.mem_cons_self (fun _ h => Variable.noConfusion h) s₁

/-- A filter that leaves no scope open, and has proper variables wherever numbered ones are in
scope. -/
structure Sealed (f : Filter) (s s' : Names) : Prop where
  leftOpen : f.leftOpen = []
  hygienic : ∀ Γ, Numbered Γ → Hygienic (f.occurrences Γ) s s'

/-- What holds of the variables of a job. -/
def Job.Sealed (s s' : Names) : Job → Prop
  | .expr _ f => Compile.Sealed f s s'
  | .exprs _ fs => Compile.Sealed (.sequence fs) s s'
  | .arguments es bs => bs.length = es.length ∧ ∀ (body : Filter) (Γ : List Variable), Numbered Γ →
      (∀ Γ', Γ ⊆ Γ' → (∀ b ∈ bs, InScope Γ' (.variable b.2)) → Quiet (body.occurrences Γ')) →
      Hygienic ((bs.foldr (fun b body => Filter.bind (.group b.1) b.2 body) body).occurrences Γ)
        s s'

theorem isReserved_positionalName (n : UInt32) : isReserved (positionalName n) = false := by
  unfold isReserved positionalName
  rw [String.toList_append]
  rfl

theorem parameterName_unreserved {p : Parameter} {position : Position} {name : String}
    (h : (parameterName p position).run s = .ok name s') :
    isReserved name = false ∧ s'.bindings = s.bindings := by
  cases named_of_run h with
  | next | numbered => exact ⟨isReserved_positionalName _, rfl⟩
  | named _ hreserved => exact ⟨hreserved, rfl⟩

theorem name_bound_ne {name : String} (h : isReserved name = false) (n : Nat) :
    (Variable.bound n).name ≠ name := by
  rintro rfl
  unfold isReserved Variable.name at h
  rw [String.toList_append] at h
  have hstem : Variable.stem.toList.isPrefixOf (Variable.stem.toList ++ (toString n).toList) =
      true := List.isPrefixOf_iff_prefix.mpr (List.prefix_append _ _)
  rw [hstem] at h
  cases h

theorem sealed_literal (v : Literal) : Sealed (literal v) s s := by
  have hnil : ∀ Γ, (literal v).occurrences Γ = [] := by
    cases v <;> exact fun _ => rfl
  refine ⟨by cases v <;> rfl, fun Γ _ => ?_⟩
  rw [hnil]
  exact .nil s

theorem Sealed.unary (op : UnaryOp) (h : Sealed f s s') : Sealed (unary op f) s s' := by
  have heq : ∀ Γ, (Compile.unary op f).occurrences Γ = f.occurrences Γ := by
    cases op <;> simp [Compile.unary, occurrences, argumentOccurrences, apply, digit]
  refine ⟨?_, fun Γ hΓ => ?_⟩
  · cases op
    case plus => exact h.leftOpen
    all_goals rfl
  · rw [heq]
    exact h.hygienic Γ hΓ

/-- A filter made of two parts, that binds nothing besides. -/
theorem Sealed.pair (hf : Sealed f s s₁) (hg : Sealed g s₁ s₂) (hx : x.leftOpen = [])
    (heq : ∀ Γ, x.occurrences Γ = f.occurrences Γ ++ g.occurrences (f.leftOpen ++ Γ)) :
    Sealed x s s₂ := by
  refine ⟨hx, fun Γ hΓ => ?_⟩
  rw [heq, hf.leftOpen]
  exact (hf.hygienic Γ hΓ).append (hg.hygienic Γ hΓ)

theorem sealed_joined {op : BinaryOp} {join : Filter → Filter → Filter}
    (ho : rule op = .joined join) (hf : Sealed f s s₁) (hg : Sealed g s₁ s₂) :
    Sealed (join f g) s s₂ := by
  cases op <;> cases ho
  case concat =>
    refine hf.pair hg rfl fun Γ => ?_
    simp [concat, occurrences, sequenceOccurrences, argumentOccurrences, branchOccurrences, apply]
  case shiftLeft =>
    refine hf.pair hg rfl fun Γ => ?_
    simp [occurrences, powerOfTwo, digit, argumentOccurrences]
  case shiftRight =>
    refine hf.pair hg rfl fun Γ => ?_
    simp [occurrences, powerOfTwo, digit, argumentOccurrences, apply]

theorem sealed_parameter {p : Parameter} {position : Position} {name : String}
    (h : (parameterName p position).run s = .ok name s') :
    Sealed (.variable (.named name)) s (s'.use name) := by
  obtain ⟨hname, hs⟩ := parameterName_unreserved h
  refine ⟨rfl, fun Γ hΓ => ⟨fun o ho => ?_, fun n => ?_⟩⟩
  · obtain rfl := List.mem_singleton.mp ho
    refine ⟨hname, fun v hv => ?_⟩
    obtain ⟨n, rfl⟩ := hΓ v hv
    exact name_bound_ne hname n
  · unfold Names.given
    rw [Names.bindings_use, hs]
    rfl

theorem sealed_tested {negated : Bool} {pattern : String} (hf : Sealed f s s₁) :
    Sealed (tested f (.string pattern) negated s₁.next) s s₁.fresh := by
  refine ⟨rfl, fun Γ hΓ => ?_⟩
  rw [occurrences_tested]
  have huse := hygienic_next Γ s₁ s₁.fresh
  exact (hf.hygienic Γ hΓ).append ((Hygienic.fresh s₁).append (huse.append (huse.append (.nil _))))

theorem sealed_computed {negated : Bool} (hf : Sealed f s s₁) (hg : Sealed g s₁ s₂) :
    Sealed (binding g s₂.next (tested f (.variable s₂.next) negated s₂.fresh.next))
      s s₂.fresh.fresh := by
  refine ⟨rfl, fun Γ hΓ => ?_⟩
  rw [occurrences_binding, occurrences_tested]
  have hfirst := (hf.hygienic _ (hΓ.cons s₂)).append
    ((hg.hygienic Γ hΓ).append (Hygienic.fresh s₂))
  have huse := hygienic_next (s₂.next :: Γ) s₂.fresh s₂.fresh.fresh
  have hpattern : Hygienic [.use s₂.next (s₂.fresh.next :: s₂.next :: Γ)] s₂.fresh.fresh
      s₂.fresh.fresh :=
    .use (List.mem_cons_of_mem _ List.mem_cons_self) (fun _ h => Variable.noConfusion h) _
  have hall := hfirst.append
    ((Hygienic.fresh s₂.fresh).append (huse.append (huse.append hpattern)))
  refine hall.perm ?_
  rw [List.append_assoc]
  refine (List.perm_append_comm_assoc _ _ _).trans ?_
  rw [List.append_assoc]
  rfl

theorem sealed_oneOf {negated : Bool} {fs : List Filter} (hx : Sealed x s s₁)
    (hs : Sealed (.sequence fs) s₁ s₂) : Sealed (oneOf negated x fs s₂.next) s s₂.fresh := by
  refine ⟨rfl, fun Γ hΓ => ?_⟩
  rw [occurrences_oneOf]
  have hitems := (hs.hygienic _ (hΓ.cons s₂)).append (hygienic_next Γ s₂ s₂)
  exact (hx.hygienic Γ hΓ).append (hitems.swap (Hygienic.fresh s₂))

theorem sealed_inRange {negated : Bool} (hx : Sealed x s s₁) (hf : Sealed f s₁ s₂)
    (hg : Sealed g s₂ s₃) : Sealed (inRange negated x f g s₃.next) s s₃.fresh := by
  refine ⟨rfl, fun Γ hΓ => ?_⟩
  rw [occurrences_inRange Γ hf.leftOpen]
  have hlow := (hygienic_next Γ s₃ s₁).append (hf.hygienic _ (hΓ.cons s₃))
  have hhigh := (hygienic_next Γ s₃ s₂).append (hg.hygienic _ (hΓ.cons s₃))
  have hbounds := hlow.append hhigh
  rw [List.append_assoc] at hbounds
  exact (hx.hygienic Γ hΓ).append (hbounds.swap (Hygienic.fresh s₃))

theorem sealed_cons {fs : List Filter} (hf : Sealed f s s₁) (hs : Sealed (.sequence fs) s₁ s₂) :
    Sealed (.sequence (f :: fs)) s s₂ := by
  refine ⟨?_, fun Γ hΓ => ?_⟩
  · have hrest := hs.leftOpen
    rw [Filter.leftOpen] at hrest
    rw [Filter.leftOpen, leftOpenAll, hrest, hf.leftOpen]
    rfl
  · rw [occurrences, sequenceOccurrences, hf.leftOpen]
    exact (hf.hygienic Γ hΓ).append (hs.hygienic Γ hΓ)

/-- **The variables of a compiled expression** are proper, and it binds the numbers that compiling
it gives out. -/
theorem Compiled.sealed {j : Job} (h : Compiled j s s') : j.Sealed s s' := by
  induction h with
  | literal v s => exact sealed_literal v
  | column ref s => exact ⟨rfl, fun Γ _ => .nil s⟩
  | parameter h => exact sealed_parameter h
  | unary _ ih => exact ih.unary _
  | operator _ _ _ ihl ihr => exact ihl.pair ihr rfl fun _ => rfl
  | joined ho _ _ ihl ihr => exact sealed_joined ho ihl ihr
  | helper _ _ _ ihl ihr =>
    refine ⟨rfl, fun Γ hΓ => ?_⟩
    have hboth := (ihl.hygienic Γ hΓ).append (ihr.hygienic Γ hΓ)
    exact ⟨hboth.proper, hboth.given⟩
  | like _ _ _ ihl => exact sealed_tested ihl
  | regexp _ _ _ ihl => exact sealed_tested ihl
  | computedRegexp _ _ _ _ ihl ihr => exact sealed_computed ihl ihr
  | member _ _ _ ihl ihr =>
    exact sealed_oneOf ihl (sealed_cons ihr ⟨rfl, fun Γ _ => .nil _⟩)
  | between _ _ _ ihx ihf ihg => exact sealed_inRange ihx ihf ihg
  | listed _ _ ihx ihs => exact sealed_oneOf ihx ihs
  | call hq ha _ ih =>
    obtain ⟨hlen, ih⟩ := ih
    refine ⟨rfl, fun Γ hΓ => ih _ Γ hΓ fun Γ' _ hbs => QueryFunction.quiet_body _ ?_ ?_⟩
    · rw [List.length_map, hlen]
      exact ha
    · intro v hv
      obtain ⟨b, hb, rfl⟩ := List.mem_map.mp hv
      exact hbs b hb
  | none s => exact ⟨rfl, fun Γ _ => .nil s⟩
  | more _ _ ih ihs => exact sealed_cons ih ihs
  | noArgument s =>
    refine ⟨rfl, fun body Γ _ hbody => (hbody Γ (fun _ hv => hv) ?_).hygienic s⟩
    exact fun b hb => absurd hb List.not_mem_nil
  | @argument e es f bs s s₁ s₂ _ _ ih ihs =>
    obtain ⟨hlen, ihs⟩ := ihs
    refine ⟨by rw [List.length_cons, hlen, List.length_cons], fun body Γ hΓ hbody => ?_⟩
    have hrest := ihs body (s₁.next :: Γ) (hΓ.cons s₁) fun Γ' hsub hbs => by
      refine hbody Γ' (fun v hv => hsub (List.mem_cons_of_mem _ hv)) fun b hb => ?_
      obtain rfl | hb := List.mem_cons.mp hb
      · exact ⟨_, hsub List.mem_cons_self, rfl⟩
      · exact hbs b hb
    exact (ih.hygienic Γ hΓ).append ((Hygienic.fresh s₁).append hrest)

/-! ### Runs that may fail -/

/-- A step that takes back no number, also where it fails. -/
def Grows {α : Type} (x : Compile α) : Prop :=
  ∀ s, match x.run s with
    | .ok _ s' | .error _ s' => s.bindings ≤ s'.bindings

/-- **No run takes back** a number. -/
theorem grows_expr (e : Expr) : Grows (expr e) := by
  intro s
  have hsteps := (stepwise_expr e s).bindings_le
  cases hrun : (expr e).run s <;> rw [hrun] at hsteps <;> exact hsteps

/-! ### Expressions one after another -/

/-- The filters of the expressions that can be compiled, one after another. What gives out names
and then fails has given them out. -/
def fragments : Names → List Expr → List Filter
  | _, [] => []
  | s, e :: es =>
    match (expr e).run s with
    | .ok f s' => f :: fragments s' es
    | .error _ s' => fragments s' es

/-- The occurrences of variables in the texts of filters. -/
def occurrencesIn (fs : List Filter) : List Occurrence :=
  fs.flatMap fun f => Scope.occurrences {} f.marks

theorem occurrences_marks (f : Filter) : Scope.occurrences {} f.marks = f.occurrences [] :=
  (reads_marks f [] []).1

theorem fragments_hygienic (s : Names) (es : List Expr) :
    (∀ o ∈ occurrencesIn (fragments s es), o.Proper) ∧
      ∀ n, s.given n + (occurrencesIn (fragments s es)).count (.binder (.bound n)) ≤ 1 := by
  induction es generalizing s with
  | nil => exact ⟨fun _ ho => absurd ho List.not_mem_nil, fun n => s.given_le n⟩
  | cons e es ih =>
    unfold fragments
    cases he : (expr e).run s with
    | ok f s' =>
      obtain ⟨hproper, hcount⟩ := ih s'
      have hf := (compiled_of_run e f s s' he).sealed.hygienic [] nofun
      dsimp only
      rw [occurrencesIn, List.flatMap_cons, occurrences_marks, ← occurrencesIn]
      refine ⟨fun o ho => ?_, fun n => ?_⟩
      · obtain ho | ho := List.mem_append.mp ho
        · exact hf.proper o ho
        · exact hproper o ho
      · have hgiven := hf.given n
        have hrest := hcount n
        rw [List.count_append]
        omega
    | error c s' =>
      obtain ⟨hproper, hcount⟩ := ih s'
      refine ⟨hproper, fun n => ?_⟩
      have hgrows := grows_expr e s
      rw [he] at hgrows
      have hgiven : s.given n ≤ s'.given n := by
        unfold Names.given
        dsimp only at hgrows
        split <;> split <;> omega
      have hrest := hcount n
      dsimp only
      omega

theorem name_bound_injective {m n : Nat} (h : (Variable.bound m).name = (Variable.bound n).name) :
    m = n := by
  unfold Variable.name at h
  have hlist := congrArg String.toList h
  rw [String.toList_append, String.toList_append] at hlist
  have hdigits : Nat.toDigits 10 m = Nat.toDigits 10 n := by
    rw [← Nat.toList_repr, ← Nat.toList_repr]
    exact List.append_cancel_left hlist
  rw [← Nat.ofDigitChars_ten_toDigits (n := m), hdigits, Nat.ofDigitChars_ten_toDigits]

theorem subject_eq {o : Occurrence} {n : Nat} (ho : o.Proper)
    (hn : o.subject.name = (Variable.bound n).name) : o.subject = .bound n := by
  have hplace : isReserved Variable.place.name = false := by decide
  obtain v | ⟨v, Γ⟩ := o
  · obtain m | _ | name := v
    · exact congrArg Variable.bound (name_bound_injective hn)
    · exact absurd hn.symm (name_bound_ne hplace n)
    · exact absurd rfl (ho name)
  · obtain m | _ | name := v
    · exact congrArg Variable.bound (name_bound_injective hn)
    · exact absurd hn.symm (name_bound_ne hplace n)
    · exact absurd hn.symm (name_bound_ne ho.1 n)

theorem binder_of_use {fs : List Filter} {v w : Variable} {Γ : List Variable}
    (h : .use v Γ ∈ occurrencesIn fs) (hw : w ∈ Γ) : .binder w ∈ occurrencesIn fs := by
  obtain ⟨f, hf, h⟩ := List.mem_flatMap.mp h
  obtain hk | hb := Scope.bound_of_use h hw
  · obtain hk | ⟨_, hk, -⟩ | hk := hk
    · exact absurd hk List.not_mem_nil
    · exact absurd hk List.not_mem_nil
    · cases hk
  · exact List.mem_flatMap.mpr ⟨f, hf, hb⟩

/-- **Variables are hygienic** in the texts that expressions are compiled to, one after another:
what has the name of a numbered variable is that variable, and it is bound once; the variables of
the compiler are used in the scopes of their binders; and the parameters are used outside the scopes
of variables that have their names. -/
theorem variables_hygienic (s : Names) (es : List Expr) :
    (∀ n, ∀ o ∈ occurrencesIn (fragments s es), o.subject.name = (Variable.bound n).name →
      o.subject = .bound n ∧
        (occurrencesIn (fragments s es)).count (.binder (.bound n)) = 1) ∧
    (∀ v Γ, .use v Γ ∈ occurrencesIn (fragments s es) → (∀ name, v ≠ .named name) → v ∈ Γ) ∧
    ∀ name Γ, .use (.named name) Γ ∈ occurrencesIn (fragments s es) → ∀ v ∈ Γ, v.name ≠ name := by
  obtain ⟨hproper, hcount⟩ := fragments_hygienic s es
  have hscope : ∀ v Γ, .use v Γ ∈ occurrencesIn (fragments s es) → (∀ name, v ≠ .named name) →
      v ∈ Γ := by
    intro v Γ h hv
    have hp := hproper _ h
    obtain _ | _ | name := v
    · exact hp
    · exact hp
    · exact absurd rfl (hv name)
  refine ⟨fun n o ho hn => ?_, hscope, fun name Γ h => (hproper _ h).2⟩
  have hsubject := subject_eq (hproper o ho) hn
  refine ⟨hsubject, ?_⟩
  have hmem : .binder (.bound n) ∈ occurrencesIn (fragments s es) := by
    cases o with
    | binder v =>
      obtain rfl : v = .bound n := hsubject
      exact ho
    | use v Γ =>
      obtain rfl : v = .bound n := hsubject
      exact binder_of_use ho (hscope _ Γ ho (fun _ => nofun))
  have hpos := List.count_pos_iff.mpr hmem
  have hle := hcount n
  omega

theorem variables_hygienic_instr :
    let place : Expr := .parameter (.named ':' "__mql_i") .start
    let es : List Expr := [.callStar "count" .start, .call "instr" [.column (.bare "a"), place] .start]
    .use (.named "__mql_i") [.bound 1] ∈ occurrencesIn (fragments {} es) ∧
      .binder .place ∈ occurrencesIn (fragments {} es) ∧
      ∀ Γ, .use (.named "__mql_i") Γ ∈ occurrencesIn (fragments {} es) →
        ∀ v ∈ Γ, v.name ≠ "__mql_i" := by
  intro place es
  refine ⟨?_, ?_, (variables_hygienic {} es).2.2 "__mql_i"⟩
  · decide
  · decide

end Compile

end RecordQuery
