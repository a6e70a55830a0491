import RecordQuery.Plan.Projection
import RecordQuery.Proofs.Compile.Meaning
import RecordQuery.Proofs.Filter.Asks

/-! # What a compiled expression asks for

A query asks for values of its parameters and for the defined functions that its bit operators need
(`Expr.asks`), which can be told from the expression alone. Compiling it puts the parameters behind
those met so far, each once, notes the functions, and makes a filter that asks for the same things
(`Compiled.asked`). The filter may ask in another order: it looks at a computed pattern before the
text it is matched against. -/

namespace RecordQuery

/-! ### Lists without repetitions -/

namespace Projection

variable {done ls ms : List String} {a : String}

theorem distinctFrom_append (done ls ms : List String) :
    distinctFrom done (ls ++ ms) = distinctFrom (distinctFrom done ls) ms := by
  induction ls generalizing done with
  | nil => rfl
  | cons l ls ih => exact ih _

theorem mem_distinctFrom : a ∈ distinctFrom done ls ↔ a ∈ done ∨ a ∈ ls := by
  induction ls generalizing done with
  | nil => simp [distinctFrom]
  | cons l ls ih =>
    rw [distinctFrom, ih]
    split
    · next h =>
      constructor
      · exact Or.imp_right (List.mem_cons_of_mem l)
      · rintro (ha | ha)
        · exact .inl ha
        · obtain rfl | ha := List.mem_cons.mp ha
          · exact .inl h
          · exact .inr ha
    · simp [or_assoc]

end Projection

/-! ### Expressions -/

/-- The defined function that an operator needs. -/
def BinaryOp.helper? : BinaryOp → Option Helper
  | bitAnd => some .bitAnd
  | bitOr => some .bitOr
  | _ => none

/-- The name of a parameter; `n` is the greatest number in front of it. -/
def Parameter.nameAt (n : UInt32) : Parameter → String
  | next => Compile.positionalName (n + 1)
  | numbered m => Compile.positionalName m
  | named _ name => name

mutual

/-- What an expression asks for, from left to right; `n` is the greatest number of a positional
parameter in front of it. -/
def Expr.asks (n : UInt32) : Expr → List Ask
  | .parameter p _ => [.parameter (p.nameAt n)]
  | .unary _ e => e.asks n
  | .binary op l r => op.helper?.toList.map .helper ++ (l.asks n ++ r.asks (l.counted n))
  | .between _ value low high =>
    value.asks n ++ (low.asks (value.counted n) ++ high.asks (low.counted (value.counted n)))
  | .listed _ value items => value.asks n ++ asksOf (value.counted n) items
  | .call _ args _ => asksOf n args
  | _ => []

/-- What expressions ask for. -/
def asksOf (n : UInt32) : List Expr → List Ask
  | [] => []
  | e :: es => e.asks n ++ asksOf (e.counted n) es

end

/-- The parameter that is asked for. -/
def Ask.parameter? : Ask → Option String
  | parameter name => some name
  | helper _ => none

/-- The names of the parameters among what is asked for. -/
def Ask.names (as : List Ask) : List String := as.filterMap parameter?

theorem Ask.mem_names {as : List Ask} {name : String} : name ∈ names as ↔ .parameter name ∈ as := by
  refine List.mem_filterMap.trans ⟨?_, fun h => ⟨_, h, rfl⟩⟩
  rintro ⟨a, ha, hname⟩
  cases a <;> cases hname
  exact ha

/-- Names behind others, where some things were asked for on the way. -/
structure Names.Asked (s s' : Names) (as : List Ask) : Prop where
  parameters : s'.parameters = Projection.distinctFrom s.parameters (Ask.names as)
  helpers : ∀ h, h ∈ s'.helpers ↔ h ∈ s.helpers ∨ .helper h ∈ as

namespace Names

variable {s s' s₁ s₂ : Names} {as bs : List Ask}

theorem Asked.nil (s : Names) : Asked s s [] := ⟨rfl, by simp⟩

theorem Asked.append (h : Asked s s₁ as) (h' : Asked s₁ s₂ bs) : Asked s s₂ (as ++ bs) where
  parameters := by
    rw [h'.parameters, h.parameters, ← Projection.distinctFrom_append, Ask.names, Ask.names,
      Ask.names, List.filterMap_append]
  helpers d := by rw [h'.helpers, h.helpers, List.mem_append, or_assoc]

theorem Asked.fresh (h : Asked s s₁ as) : Asked s s₁.fresh as := ⟨h.parameters, h.helpers⟩

theorem asked_need (s : Names) (d : Helper) : Asked s (s.need d) [.helper d] where
  parameters := rfl
  helpers h := by
    change h ∈ (if d ∈ s.helpers then s.helpers else s.helpers ++ [d]) ↔ _
    split
    · next hd =>
      refine ⟨.inl, ?_⟩
      rintro (hh | hh)
      · exact hh
      · cases List.mem_singleton.mp hh
        exact hd
    · simp

end Names

namespace Compile

open RecordQuery.Filter

variable {s s' s₁ s₂ : Names} {f g x : Filter}

/-! ### Parts of compiled expressions -/

theorem asks_literal (v : Literal) : (literal v).asks = [] := by
  cases v <;> simp [literal, nowAs]

theorem asks_unary (op : UnaryOp) (f : Filter) : (unary op f).asks = f.asks := by
  cases op <;> simp [unary]

theorem asks_negatedIf (negated : Bool) (f : Filter) : (negatedIf negated f).asks = f.asks := by
  cases negated <;> simp [negatedIf]

theorem asks_binding (f g : Filter) (n : Nat) :
    (binding f (.bound n) g).asks = f.asks ++ g.asks := by
  simp [binding]

theorem asks_tested (f g : Filter) (negated : Bool) (s : Names) :
    (tested f g negated s.next).asks = f.asks ++ g.asks := by
  simp [tested, Names.next, asks_binding, asks_negatedIf]

theorem asks_oneOf (negated : Bool) (f : Filter) (fs : List Filter) (s : Names) :
    (oneOf negated f fs s.next).asks = f.asks ++ fs.flatMap Filter.asks := by
  simp [oneOf, Names.next, asks_binding, asks_negatedIf]

theorem asks_inRange (negated : Bool) (x f g : Filter) (s : Names) :
    (inRange negated x f g s.next).asks = x.asks ++ (f.asks ++ g.asks) := by
  cases negated <;> simp [inRange, Names.next, asks_binding]

theorem asks_joinedBy {op : BinaryOp} {join : Filter → Filter → Filter}
    (ho : rule op = .joined join) (f g : Filter) : (join f g).asks = f.asks ++ g.asks := by
  cases op <;> cases ho <;> simp [concat, powerOfTwo]

/-- A filter that is a variable of the compiler. -/
def IsBound (f : Filter) : Prop := ∃ n, f = .variable (.bound n)

/-- The body of a function asks for nothing. -/
theorem asks_body (q : QueryFunction) {vs : List Filter} (ha : q.arity.admits vs.length = true)
    (hv : ∀ v ∈ vs, IsBound v) : (q.body vs).asks = [] := by
  have hnil {v : Filter} (h : IsBound v) : v.asks = [] := by
    obtain ⟨n, rfl⟩ := h
    rfl
  refine QueryFunction.admits_elim
    (P := fun q vs => (∀ v ∈ vs, IsBound v) → (q.body vs).asks = []) ?_ ?_ ?_ ?_ q vs ha hv
  · intro q a ha hv
    have hfirst : a.asks = [] := hnil (hv a (by simp))
    cases q <;> cases ha <;> simp [hfirst, QueryFunction.body, QueryFunction.onText,
      QueryFunction.unlessNull, QueryFunction.isNull, QueryFunction.removing,
      QueryFunction.kindName]
  · intro q a b ha hv
    have hfirst : a.asks = [] := hnil (hv a (by simp))
    have hsecond : b.asks = [] := hnil (hv b (by simp))
    cases q <;> cases ha <;> simp [hfirst, hsecond, QueryFunction.body, QueryFunction.roundTo,
      QueryFunction.onText, QueryFunction.unlessNull, QueryFunction.isNull,
      QueryFunction.placeOf, QueryFunction.firstPresent]
  · intro a b c hv
    have hfirst : a.asks = [] := hnil (hv a (by simp))
    have hsecond : b.asks = [] := hnil (hv b (by simp))
    have hthird : c.asks = [] := hnil (hv c (by simp))
    simp [hfirst, hsecond, hthird, QueryFunction.body, QueryFunction.onText,
      QueryFunction.unlessNull, QueryFunction.isNull]
  · intro vs hv
    have hall : vs.flatMap Filter.asks = [] :=
      List.flatMap_eq_nil_iff.mpr fun v hmem => hnil (hv v hmem)
    simp [hall, QueryFunction.body, QueryFunction.firstPresent]

/-- Arguments that are bound to variables of the compiler. -/
theorem asks_callFilter (q : QueryFunction) {bs : List (Filter × Variable)}
    (ha : q.arity.admits bs.length = true) (hb : ∀ b ∈ bs, ∃ n, b.2 = .bound n) :
    (callFilter q bs).asks = bs.flatMap fun b => b.1.asks := by
  have hbody : (q.body (bs.map fun b => .variable b.2)).asks = [] := by
    refine asks_body q (by rw [List.length_map]; exact ha) fun v hv => ?_
    obtain ⟨b, hmem, rfl⟩ := List.mem_map.mp hv
    obtain ⟨n, hn⟩ := hb b hmem
    exact ⟨n, congrArg _ hn⟩
  have hfold : ∀ (body : Filter) (bs : List (Filter × Variable)), (∀ b ∈ bs, ∃ n, b.2 = .bound n) →
      (bs.foldr (fun b body => Filter.bind (.group b.1) b.2 body) body).asks =
        (bs.flatMap fun b => b.1.asks) ++ body.asks := by
    intro body bs hb
    induction bs with
    | nil => rfl
    | cons b bs ih =>
      obtain ⟨n, hn⟩ := hb b List.mem_cons_self
      rw [List.foldr_cons, asks_bind _ _ (by rw [hn]; rfl), asks_group,
        ih fun c hc => hb c (List.mem_cons_of_mem _ hc), List.flatMap_cons, List.append_assoc]
  rw [callFilter_eq, asks_group, hfold _ bs hb, hbody, List.append_nil]

/-! ### Runs -/

/-- What the expressions of a job ask for. -/
def Job.asks (n : UInt32) : Job → List Ask
  | .expr e _ => e.asks n
  | .exprs es _ | .arguments es _ => asksOf n es

/-- What the filters of a job ask for. -/
def Job.filterAsks : Job → List Ask
  | .expr _ f => f.asks
  | .exprs _ fs => fs.flatMap Filter.asks
  | .arguments _ bs => bs.flatMap fun b => b.1.asks

/-- The arguments of a job are bound to variables of the compiler. -/
def Job.BindsArguments : Job → Prop
  | .arguments es bs => bs.length = es.length ∧ ∀ b ∈ bs, ∃ n, b.2 = .bound n
  | _ => True

theorem asks_pattern {e : Expr} {pattern : String} (h : pattern? e = some pattern) (n : UInt32) :
    e.asks n = [] := by
  obtain rfl := pattern?_eq h
  rfl

theorem asked_parameter {p : Parameter} {position : Position} {name : String}
    (h : (parameterName p position).run s = .ok name s') :
    name = p.nameAt s.positional ∧ s'.parameters = s.parameters ∧ s'.helpers = s.helpers := by
  cases named_of_run h <;> exact ⟨rfl, rfl, rfl⟩

theorem helper?_of_rule {op : BinaryOp} :
    op.helper? = match rule op with
      | .helper h => some h
      | _ => none := by
  cases op <;> rfl

theorem Compiled.bindsArguments {j : Job} (h : Compiled j s s') : j.BindsArguments := by
  induction h with
  | noArgument => exact ⟨rfl, nofun⟩
  | argument _ _ _ ih =>
    refine ⟨by rw [List.length_cons, List.length_cons, ih.1], fun b hb => ?_⟩
    obtain rfl | hb := List.mem_cons.mp hb
    · exact ⟨_, rfl⟩
    · exact ih.2 b hb
  | _ => trivial

/-- A job has been done, and asks for what its filters ask for. -/
structure Job.Asked (j : Job) (s s' : Names) : Prop where
  names : Names.Asked s s' (j.asks s.positional)
  filters : j.filterAsks.Perm (j.asks s.positional)

theorem asks_binary {op : BinaryOp} (h : op.helper? = none) (l r : Expr) (n : UInt32) :
    (Expr.binary op l r).asks n = l.asks n ++ r.asks (l.counted n) := by
  rw [Expr.asks, h]
  rfl

/-- Two operands compiled one after the other. -/
theorem Job.Asked.pair {l r : Expr} (hl : (Job.expr l f).Asked s s₁)
    (hr : (Job.expr r g).Asked s₁ s₂) (hc : s₁.positional = l.counted s.positional) :
    Names.Asked s s₂ (l.asks s.positional ++ r.asks (l.counted s.positional)) ∧
      (f.asks ++ g.asks).Perm (l.asks s.positional ++ r.asks (l.counted s.positional)) := by
  have hnames := hr.names
  have hfilters := hr.filters
  rw [hc] at hnames hfilters
  exact ⟨hl.names.append hnames, hl.filters.append hfilters⟩

/-- An operator of two operands that asks for nothing of its own. -/
theorem Job.Asked.operands {op : BinaryOp} {l r : Expr} (hl : (Job.expr l f).Asked s s₁)
    (hr : (Job.expr r g).Asked s₁ s₂) (hc : s₁.positional = l.counted s.positional)
    (hop : op.helper? = none) (hx : x.asks.Perm (f.asks ++ g.asks)) :
    (Job.expr (.binary op l r) x).Asked s s₂ := by
  obtain ⟨hnames, hfilters⟩ := hl.pair hr hc
  rw [← asks_binary hop] at hnames hfilters
  exact ⟨hnames, hx.trans hfilters⟩

theorem Job.Asked.fresh {j : Job} (h : j.Asked s s₁) : j.Asked s s₁.fresh :=
  ⟨h.names.fresh, h.filters⟩

/-- A test of an operand against a text. -/
theorem Job.Asked.tested {op : BinaryOp} {l r : Expr} {pattern regex : String} {negated : Bool}
    (hl : (Job.expr l f).Asked s s₁) (hop : op.helper? = none) (hp : pattern? r = some pattern) :
    (Job.expr (.binary op l r) (tested f (.string regex) negated s₁.next)).Asked s s₁.fresh := by
  refine ⟨?_, ?_⟩
  · rw [Job.asks, asks_binary hop, asks_pattern hp, List.append_nil]
    exact hl.names.fresh
  · rw [Job.asks, asks_binary hop, asks_pattern hp, Job.filterAsks, asks_tested, asks_string]
    exact hl.filters.append .nil

/-- **Compiling** notes what an expression asks for, and makes a filter that asks for the same. -/
theorem Compiled.asked {j : Job} (h : Compiled j s s') : j.Asked s s' := by
  induction h with
  | literal v s => exact ⟨.nil s, by rw [Job.filterAsks, asks_literal]; exact .nil⟩
  | column | none | noArgument => exact ⟨.nil _, .nil⟩
  | @parameter p position name s s' h =>
    obtain ⟨rfl, hparameters, hhelpers⟩ := asked_parameter h
    refine ⟨⟨?_, fun d => ?_⟩, .refl _⟩
    · change (if _ ∈ s'.parameters then s'.parameters else s'.parameters ++ [_]) = _
      rw [hparameters]
      rfl
    · change d ∈ s'.helpers ↔ _
      rw [hhelpers]
      simp [Job.asks, Expr.asks]
  | unary _ ih =>
    refine ⟨ih.names, ?_⟩
    rw [Job.filterAsks, asks_unary]
    exact ih.filters
  | operator ho hl _ ihl ihr =>
    refine ihl.operands ihr hl.counted (helper?_of_rule.trans (by rw [ho])) ?_
    rw [asks_group, asks_operation]
  | joined ho hl _ ihl ihr =>
    refine ihl.operands ihr hl.counted (helper?_of_rule.trans (by rw [ho])) ?_
    rw [asks_joinedBy ho]
  | @helper op h l r f g s s₁ s₂ ho hl _ ihl ihr =>
    obtain ⟨hnames, hfilters⟩ := ihl.pair ihr hl.counted
    have hsome : op.helper? = some h := helper?_of_rule.trans (by rw [ho])
    have hasks : (Expr.binary op l r).asks s.positional =
        .helper h :: (l.asks s.positional ++ r.asks (l.counted s.positional)) := by
      rw [Expr.asks, hsome]
      rfl
    refine ⟨?_, ?_⟩
    · rw [Job.asks, hasks]
      exact (Names.asked_need s h).append hnames
    · rw [Job.asks, hasks, Job.filterAsks, asks_helper]
      exact hfilters.cons _
  | like ho hp _ ihl | regexp ho hp _ ihl =>
    exact ihl.tested (helper?_of_rule.trans (by rw [ho])) hp
  | @computedRegexp op negated l r f g s s₁ s₂ ho hp hl _ ihl ihr =>
    refine (ihl.operands ihr hl.counted (helper?_of_rule.trans (by rw [ho])) ?_).fresh.fresh
    rw [Names.next, asks_binding, asks_tested, asks_bound, List.append_nil]
    exact List.perm_append_comm
  | member ho hl _ ihl ihr =>
    refine (ihl.operands ihr hl.counted (helper?_of_rule.trans (by rw [ho])) ?_).fresh
    rw [asks_oneOf, List.flatMap_singleton]
  | between hx hf _ ihx ihf ihg =>
    have hlow : _ = Expr.counted _ _ := hx.counted
    obtain ⟨hnames, hfilters⟩ := ihf.pair ihg hf.counted
    rw [hlow] at hnames hfilters
    refine ⟨(ihx.names.append hnames).fresh, ?_⟩
    rw [Job.filterAsks, asks_inRange]
    exact ihx.filters.append hfilters
  | listed hx _ ihx ihs =>
    have hnames := ihs.names
    have hfilters := ihs.filters
    rw [show _ = Expr.counted _ _ from hx.counted] at hnames hfilters
    refine ⟨(ihx.names.append hnames).fresh, ?_⟩
    rw [Job.filterAsks, asks_oneOf]
    exact ihx.filters.append hfilters
  | call _ ha hs ih =>
    obtain ⟨hlength, hbound⟩ := hs.bindsArguments
    refine ⟨ih.names, ?_⟩
    rw [Job.filterAsks, asks_callFilter _ (by rw [hlength]; exact ha) hbound]
    exact ih.filters
  | more h _ ih ihs =>
    have hnames := ihs.names
    have hfilters := ihs.filters
    rw [show _ = Expr.counted _ _ from h.counted] at hnames hfilters
    exact ⟨ih.names.append hnames, ih.filters.append hfilters⟩
  | argument h _ ih ihs =>
    have hnames := ihs.names
    have hfilters := ihs.filters
    rw [Names.positional_fresh, show _ = Expr.counted _ _ from h.counted] at hnames hfilters
    exact ⟨ih.names.fresh.append hnames, ih.filters.append hfilters⟩

end Compile

end RecordQuery
