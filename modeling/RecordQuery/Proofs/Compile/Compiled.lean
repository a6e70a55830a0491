import RecordQuery.Compile.Expr
import RecordQuery.Proofs.Runs

/-! # What compiling an expression does

A successful run of the compiler as a relation (`Compiled`): one rule for each thing that can
happen, with the names given out before and after. `compiled_of_run` is the only place where the
compiler is unfolded for that; what holds of all compiled expressions is proved by induction on the
relation. -/

namespace RecordQuery

namespace Names

/-- The names behind one more variable. -/
def fresh (s : Names) : Names := { s with bindings := s.bindings + 1 }

/-- The variable that is given out next. -/
def next (s : Names) : Variable := .bound (s.bindings + 1)

/-- The names behind the need for a defined function. -/
def need (s : Names) (h : Helper) : Names :=
  { s with helpers := if h ∈ s.helpers then s.helpers else s.helpers ++ [h] }

/-- The names behind the use of a parameter. -/
def use (s : Names) (name : String) : Names :=
  { s with parameters := if name ∈ s.parameters then s.parameters else s.parameters ++ [name] }

@[simp] theorem bindings_fresh (s : Names) : s.fresh.bindings = s.bindings + 1 := rfl

@[simp] theorem bindings_need (s : Names) (h : Helper) : (s.need h).bindings = s.bindings := rfl

@[simp] theorem bindings_use (s : Names) (name : String) : (s.use name).bindings = s.bindings := rfl

end Names

theorem Arity.le_of_admits {a : Arity} {n m : Nat} (h : a.admits n = true)
    (hm : a.most = some m) : n ≤ m := by
  unfold admits at h
  rw [hm, Bool.and_eq_true] at h
  exact of_decide_eq_true h.2

namespace QueryFunction

/-- The numbers of arguments that functions take, one after another. -/
theorem admits_elim {P : QueryFunction → List Filter → Prop}
    (one : ∀ q a, q.arity.admits 1 = true → P q [a])
    (two : ∀ q a b, q.arity.admits 2 = true → P q [a, b])
    (three : ∀ a b c, P substr [a, b, c]) (many : ∀ vs, P coalesce vs) :
    ∀ (q : QueryFunction) (vs : List Filter), q.arity.admits vs.length = true → P q vs
  | q, [], h => by cases q <;> cases h
  | q, [a], h => one q a h
  | q, [a, b], h => two q a b h
  | q, [a, b, c], h => by
    cases q with
    | substr => exact three a b c
    | coalesce => exact many _
    | _ => cases h
  | q, a :: b :: c :: d :: vs, h => by
    cases q with
    | coalesce => exact many _
    | _ =>
      have hle := Arity.le_of_admits h rfl
      simp only [List.length_cons] at hle
      omega

end QueryFunction

namespace Compile

theorem callFilter_eq (q : QueryFunction) (bs : List (Filter × Variable)) :
    callFilter q bs = .group (bs.foldr (fun b body => .bind (.group b.1) b.2 body)
      (q.body (bs.map fun b => .variable b.2))) := rfl

/-! ### Filters around a fresh variable -/

/-- The filter of a pattern test, given its variable. -/
def tested (value pattern : Filter) (negated : Bool) (v : Variable) : Filter :=
  binding value v (.cond (.operation .equal (.variable v) .null) (.boolean false)
    (.otherwise (.group (.pipe (.variable v) (.pipe (Filter.apply .tostring)
      (negatedIf negated (.call .test [pattern, .string matchFlags])))))))

/-- The filter of a test for membership, given its variable. -/
def oneOf (negated : Bool) (value : Filter) (items : List Filter) (v : Variable) : Filter :=
  binding value v (negatedIf negated
    (.call .any [.sequence items, .operation .equal .identity (.variable v)]))

/-- The filter of a range test, given its variable. -/
def inRange (negated : Bool) (value low high : Filter) (v : Variable) : Filter :=
  binding value v (.group (
    if negated then
      .operation .or (.operation .less (.variable v) low) (.operation .greater (.variable v) high)
    else
      .operation .and (.operation .greaterEqual (.variable v) low)
        (.operation .lessEqual (.variable v) high)))

variable {s s' s₁ s₂ s₃ : Names}

theorem run_need {h : Helper} : (need h).run s = .ok () (s.need h) := rfl

theorem run_freshVariable : freshVariable.run s = .ok s.next s.fresh := rfl

theorem run_patternTest (value pattern : Filter) (negated : Bool) :
    (patternTest value pattern negated).run s =
      .ok (tested value pattern negated s.next) s.fresh := rfl

theorem run_membership (negated : Bool) (value : Filter) (items : List Filter) :
    (membership negated value items).run s = .ok (oneOf negated value items s.next) s.fresh := rfl

theorem run_range (negated : Bool) (value low high : Filter) :
    (range negated value low high).run s = .ok (inRange negated value low high s.next) s.fresh := rfl

theorem pattern?_eq {e : Expr} {p : String} (h : pattern? e = some p) :
    e = .literal (.string p) := by
  unfold pattern? at h
  split at h
  · cases h
    rfl
  · cases h

/-- A bare marker takes the number behind the counter, unless the counter is at its end. -/
theorem run_next (s : Names) (position : Position) : (parameterName .next position).run s =
    if s.positional = greatestNumber then .error .panic s
    else .ok (positionalName (s.positional + 1)) { s with positional := s.positional + 1 } := by
  change EStateM.run (if s.positional = greatestNumber then throw Stop.panic else _) s = _
  split_ifs <;> rfl

/-- A name is taken as it is, if it can be the name of a variable and is not reserved. -/
theorem run_named (s : Names) (sigil : Char) (name : String) (position : Position) :
    (parameterName (.named sigil name) position).run s =
      if !isVariableName name || isReserved name
      then .error (.fault (.unsupported (.parameterName sigil name) position)) s
      else .ok name s := by
  unfold parameterName
  dsimp only
  split_ifs <;> rfl

/-- **What naming a parameter does** to the names, with the name that it gives. -/
inductive Named (s : Names) : Parameter → String → Names → Prop
  | next (h : s.positional ≠ greatestNumber) :
      Named s .next (positionalName (s.positional + 1)) { s with positional := s.positional + 1 }
  | numbered (n : UInt32) :
      Named s (.numbered n) (positionalName n) { s with positional := max s.positional n }
  | named {sigil : Char} {name : String} (hname : isVariableName name = true)
      (hreserved : isReserved name = false) : Named s (.named sigil name) name s

theorem named_of_run {p : Parameter} {position : Position} {name : String}
    (h : (parameterName p position).run s = .ok name s') : Named s p name s' := by
  cases p with
  | next =>
    rw [run_next] at h
    split_ifs at h with hend
    cases h
    exact .next hend
  | numbered n =>
    cases h
    exact .numbered n
  | named sigil given =>
    rw [run_named] at h
    split_ifs at h with hbad
    cases h
    rw [Bool.not_eq_true, Bool.or_eq_false_iff, Bool.not_eq_false'] at hbad
    exact .named hbad.1 hbad.2

/-! ### Runs -/

/-- What is compiled, and to what: one expression, some expressions, and the arguments of a call
with their variables. -/
inductive Job where
  | expr (e : Expr) (f : Filter)
  | exprs (es : List Expr) (fs : List Filter)
  | arguments (es : List Expr) (bs : List (Filter × Variable))

/-- **Compiling** does a job, and takes the names from before it to behind it. -/
inductive Compiled : Job → Names → Names → Prop
  | literal (v : Literal) (s : Names) : Compiled (.expr (.literal v) (literal v)) s s
  | column (ref : ColumnRef) (s : Names) : Compiled (.expr (.column ref) (.field ref.column)) s s
  | parameter {p : Parameter} {position : Position} {name : String} {s s' : Names}
      (h : (parameterName p position).run s = .ok name s') :
      Compiled (.expr (.parameter p position) (.variable (.named name))) s (s'.use name)
  | unary {op : UnaryOp} {e : Expr} {f : Filter} {s s' : Names}
      (h : Compiled (.expr e f) s s') : Compiled (.expr (.unary op e) (unary op f)) s s'
  | operator {op : BinaryOp} {o : Operator} {l r : Expr} {f g : Filter} {s s₁ s₂ : Names}
      (ho : rule op = .operator o) (hl : Compiled (.expr l f) s s₁)
      (hr : Compiled (.expr r g) s₁ s₂) :
      Compiled (.expr (.binary op l r) (.group (.operation o f g))) s s₂
  | joined {op : BinaryOp} {join : Filter → Filter → Filter} {l r : Expr} {f g : Filter}
      {s s₁ s₂ : Names} (ho : rule op = .joined join) (hl : Compiled (.expr l f) s s₁)
      (hr : Compiled (.expr r g) s₁ s₂) : Compiled (.expr (.binary op l r) (join f g)) s s₂
  | helper {op : BinaryOp} {h : Helper} {l r : Expr} {f g : Filter} {s s₁ s₂ : Names}
      (ho : rule op = .helper h) (hl : Compiled (.expr l f) (s.need h) s₁)
      (hr : Compiled (.expr r g) s₁ s₂) : Compiled (.expr (.binary op l r) (.helper h f g)) s s₂
  | like {op : BinaryOp} {negated : Bool} {pattern : String} {l r : Expr} {f : Filter}
      {s s₁ : Names} (ho : rule op = .like negated) (hp : pattern? r = some pattern)
      (hl : Compiled (.expr l f) s s₁) :
      Compiled (.expr (.binary op l r) (tested f (.string (likeRegex pattern)) negated s₁.next))
        s s₁.fresh
  | regexp {op : BinaryOp} {negated : Bool} {pattern : String} {l r : Expr} {f : Filter}
      {s s₁ : Names} (ho : rule op = .regexp negated) (hp : pattern? r = some pattern)
      (hl : Compiled (.expr l f) s s₁) :
      Compiled (.expr (.binary op l r) (tested f (.string pattern) negated s₁.next)) s s₁.fresh
  | computedRegexp {op : BinaryOp} {negated : Bool} {l r : Expr} {f g : Filter} {s s₁ s₂ : Names}
      (ho : rule op = .regexp negated) (hp : pattern? r = none) (hl : Compiled (.expr l f) s s₁)
      (hr : Compiled (.expr r g) s₁ s₂) :
      Compiled (.expr (.binary op l r)
        (binding g s₂.next (tested f (.variable s₂.next) negated s₂.fresh.next))) s s₂.fresh.fresh
  | member {op : BinaryOp} {negated : Bool} {l r : Expr} {f g : Filter} {s s₁ s₂ : Names}
      (ho : rule op = .member negated) (hl : Compiled (.expr l f) s s₁)
      (hr : Compiled (.expr r g) s₁ s₂) :
      Compiled (.expr (.binary op l r) (oneOf negated f [g] s₂.next)) s s₂.fresh
  | between {negated : Bool} {value low high : Expr} {x f g : Filter} {s s₁ s₂ s₃ : Names}
      (hx : Compiled (.expr value x) s s₁) (hf : Compiled (.expr low f) s₁ s₂)
      (hg : Compiled (.expr high g) s₂ s₃) :
      Compiled (.expr (.between negated value low high) (inRange negated x f g s₃.next)) s s₃.fresh
  | listed {negated : Bool} {value : Expr} {items : List Expr} {x : Filter} {fs : List Filter}
      {s s₁ s₂ : Names} (hx : Compiled (.expr value x) s s₁)
      (hs : Compiled (.exprs items fs) s₁ s₂) :
      Compiled (.expr (.listed negated value items) (oneOf negated x fs s₂.next)) s s₂.fresh
  | call {name : String} {args : List Expr} {position : Position} {q : QueryFunction}
      {bs : List (Filter × Variable)} {s s' : Names} (hq : QueryFunction.ofName? name = some q)
      (ha : q.arity.admits args.length = true) (hs : Compiled (.arguments args bs) s s') :
      Compiled (.expr (.call name args position) (callFilter q bs)) s s'
  | none (s : Names) : Compiled (.exprs [] []) s s
  | more {e : Expr} {es : List Expr} {f : Filter} {fs : List Filter} {s s₁ s₂ : Names}
      (h : Compiled (.expr e f) s s₁) (hs : Compiled (.exprs es fs) s₁ s₂) :
      Compiled (.exprs (e :: es) (f :: fs)) s s₂
  | noArgument (s : Names) : Compiled (.arguments [] []) s s
  | argument {e : Expr} {es : List Expr} {f : Filter} {bs : List (Filter × Variable)}
      {s s₁ s₂ : Names} (h : Compiled (.expr e f) s s₁)
      (hs : Compiled (.arguments es bs) s₁.fresh s₂) :
      Compiled (.arguments (e :: es) ((f, s₁.next) :: bs)) s s₂

theorem run_function {name : String} {n : Nat} {position : Position} {q : QueryFunction}
    (h : (function name n position).run s = .ok q s') :
    QueryFunction.ofName? name = some q ∧ q.arity.admits n = true ∧ s' = s := by
  unfold function at h
  split at h
  · cases h
  · next f hf =>
    split at h
    · next ha =>
      cases h
      exact ⟨hf, ha, rfl⟩
    · cases h

theorem compiled_binary {op : BinaryOp} {l r : Expr} {f : Filter}
    (hl : ∀ f s s', (expr l).run s = .ok f s' → Compiled (.expr l f) s s')
    (hr : ∀ f s s', (expr r).run s = .ok f s' → Compiled (.expr r f) s s')
    (h : (expr (.binary op l r)).run s = .ok f s') : Compiled (.expr (.binary op l r) f) s s' := by
  unfold expr at h
  split at h
  · next o ho =>
    obtain ⟨f, s₁, h₁, h⟩ := bind_ok h
    obtain ⟨g, s₂, h₂, h⟩ := bind_ok h
    cases h
    exact .operator ho (hl _ _ _ h₁) (hr _ _ _ h₂)
  · next join ho =>
    obtain ⟨f, s₁, h₁, h⟩ := bind_ok h
    obtain ⟨g, s₂, h₂, h⟩ := bind_ok h
    cases h
    exact .joined ho (hl _ _ _ h₁) (hr _ _ _ h₂)
  · next q ho =>
    obtain ⟨u, s₀, h₀, h⟩ := bind_ok h
    obtain ⟨-, rfl⟩ := EStateM.Result.ok.inj (run_need.symm.trans h₀)
    obtain ⟨f, s₁, h₁, h⟩ := bind_ok h
    obtain ⟨g, s₂, h₂, h⟩ := bind_ok h
    cases h
    exact .helper ho (hl _ _ _ h₁) (hr _ _ _ h₂)
  · next negated ho =>
    split at h
    · next pattern hp =>
      obtain ⟨f, s₁, h₁, h⟩ := bind_ok h
      rw [run_patternTest] at h
      cases h
      exact .like ho hp (hl _ _ _ h₁)
    · cases h
  · next negated ho =>
    split at h
    · next pattern hp =>
      obtain ⟨f, s₁, h₁, h⟩ := bind_ok h
      rw [run_patternTest] at h
      cases h
      exact .regexp ho hp (hl _ _ _ h₁)
    · next hp =>
      obtain ⟨f, s₁, h₁, h⟩ := bind_ok h
      obtain ⟨g, s₂, h₂, h⟩ := bind_ok h
      obtain ⟨v, s₃, h₃, h⟩ := bind_ok h
      obtain ⟨t, s₄, h₄, h⟩ := bind_ok h
      obtain ⟨rfl, rfl⟩ := EStateM.Result.ok.inj (run_freshVariable.symm.trans h₃)
      obtain ⟨rfl, rfl⟩ := EStateM.Result.ok.inj ((run_patternTest _ _ _).symm.trans h₄)
      cases h
      exact .computedRegexp ho hp (hl _ _ _ h₁) (hr _ _ _ h₂)
  · next negated ho =>
    obtain ⟨f, s₁, h₁, h⟩ := bind_ok h
    obtain ⟨g, s₂, h₂, h⟩ := bind_ok h
    rw [run_membership] at h
    cases h
    exact .member ho (hl _ _ _ h₁) (hr _ _ _ h₂)

mutual

/-- **Every successful run** is one of the relation. -/
theorem compiled_of_run : ∀ (e : Expr) (f : Filter) (s s' : Names), (expr e).run s = .ok f s' →
    Compiled (.expr e f) s s'
  | .literal v, _, _, _, h => by cases h; exact .literal v _
  | .column ref, _, _, _, h => by cases h; exact .column ref _
  | .parameter p position, _, _, _, h => by
    unfold expr Compile.parameter at h
    obtain ⟨name, s₁, hn, h⟩ := bind_ok h
    cases h
    exact .parameter hn
  | .unary op e, _, _, _, h => by
    unfold expr at h
    obtain ⟨f, s₁, he, h⟩ := bind_ok h
    cases h
    exact .unary (compiled_of_run e _ _ _ he)
  | .binary _ l r, _, _, _, h => compiled_binary (compiled_of_run l) (compiled_of_run r) h
  | .between negated value low high, _, _, _, h => by
    unfold expr at h
    obtain ⟨x, s₁, hx, h⟩ := bind_ok h
    obtain ⟨f, s₂, hf, h⟩ := bind_ok h
    obtain ⟨g, s₃, hg, h⟩ := bind_ok h
    rw [run_range] at h
    cases h
    exact .between (compiled_of_run value _ _ _ hx) (compiled_of_run low _ _ _ hf)
      (compiled_of_run high _ _ _ hg)
  | .listed negated value items, _, _, _, h => by
    unfold expr at h
    obtain ⟨x, s₁, hx, h⟩ := bind_ok h
    obtain ⟨fs, s₂, hs, h⟩ := bind_ok h
    rw [run_membership] at h
    cases h
    exact .listed (compiled_of_run value _ _ _ hx) (compiled_exprs items _ _ _ hs)
  | .call name args position, _, _, _, h => by
    unfold expr at h
    obtain ⟨q, s₁, hq, h⟩ := bind_ok h
    obtain ⟨bs, s₂, hs, h⟩ := bind_ok h
    cases h
    obtain ⟨hname, ha, rfl⟩ := run_function hq
    exact .call hname ha (compiled_arguments args _ _ _ hs)
  | .callStar _ _, _, _, _, h => by cases h
  | .existsRow _ _, _, _, _, h => by cases h

theorem compiled_exprs : ∀ (es : List Expr) (fs : List Filter) (s s' : Names),
    (exprs es).run s = .ok fs s' → Compiled (.exprs es fs) s s'
  | [], _, _, _, h => by cases h; exact .none _
  | e :: es, _, _, _, h => by
    unfold exprs at h
    obtain ⟨f, s₁, he, h⟩ := bind_ok h
    obtain ⟨fs, s₂, hs, h⟩ := bind_ok h
    cases h
    exact .more (compiled_of_run e _ _ _ he) (compiled_exprs es _ _ _ hs)

theorem compiled_arguments : ∀ (es : List Expr) (bs : List (Filter × Variable)) (s s' : Names),
    (arguments es).run s = .ok bs s' → Compiled (.arguments es bs) s s'
  | [], _, _, _, h => by cases h; exact .noArgument _
  | e :: es, _, _, _, h => by
    unfold arguments at h
    obtain ⟨f, s₁, he, h⟩ := bind_ok h
    obtain ⟨v, s₂, hv, h⟩ := bind_ok h
    obtain ⟨rfl, rfl⟩ := EStateM.Result.ok.inj (run_freshVariable.symm.trans hv)
    obtain ⟨bs, s₃, hs, h⟩ := bind_ok h
    cases h
    exact .argument (compiled_of_run e _ _ _ he) (compiled_arguments es _ _ _ hs)

end

/-- The run that does a job. -/
def Job.Runs (s s' : Names) : Job → Prop
  | .expr e f => (Compile.expr e).run s = .ok f s'
  | .exprs es fs => (Compile.exprs es).run s = .ok fs s'
  | .arguments es bs => (Compile.arguments es).run s = .ok bs s'

/-- **Everything in the relation** is a successful run. -/
theorem Compiled.runs {j : Job} (h : Compiled j s s') : j.Runs s s' := by
  induction h with
  | literal | column | none | noArgument => rfl
  | parameter h =>
    rw [Job.Runs, Compile.expr, Compile.parameter]
    rw [run_bind_ok h]
    rfl
  | unary _ ih =>
    rw [Job.Runs, Compile.expr]
    rw [run_bind_ok ih]
    rfl
  | operator ho _ _ ihl ihr | joined ho _ _ ihl ihr | member ho _ _ ihl ihr =>
    rw [Job.Runs, Compile.expr]
    rw [ho]
    dsimp only
    rw [run_bind_ok ihl, run_bind_ok ihr]
    rfl
  | helper ho _ _ ihl ihr =>
    rw [Job.Runs, Compile.expr]
    rw [ho]
    dsimp only
    rw [run_bind_ok run_need, run_bind_ok ihl, run_bind_ok ihr]
    rfl
  | like ho hp _ ihl | regexp ho hp _ ihl =>
    rw [Job.Runs, Compile.expr]
    rw [ho]
    dsimp only
    rw [hp]
    dsimp only
    rw [run_bind_ok ihl]
    rfl
  | computedRegexp ho hp _ _ ihl ihr =>
    rw [Job.Runs, Compile.expr]
    rw [ho]
    dsimp only
    rw [hp]
    dsimp only
    rw [run_bind_ok ihl, run_bind_ok ihr]
    rfl
  | between _ _ _ ihx ihf ihg =>
    rw [Job.Runs, Compile.expr]
    rw [run_bind_ok ihx, run_bind_ok ihf, run_bind_ok ihg]
    rfl
  | listed _ _ ihx ihs =>
    rw [Job.Runs, Compile.expr]
    rw [run_bind_ok ihx, run_bind_ok ihs]
    rfl
  | @call name args position q bs s s' hq ha _ ih =>
    have hfunction : (function name args.length position).run s = .ok q s := by
      unfold function
      rw [hq]
      exact congrFun (if_pos ha) s
    rw [Job.Runs, Compile.expr]
    rw [run_bind_ok hfunction, run_bind_ok ih]
    rfl
  | more _ _ ih ihs =>
    rw [Job.Runs, Compile.exprs]
    rw [run_bind_ok ih, run_bind_ok ihs]
    rfl
  | argument _ _ ih ihs =>
    rw [Job.Runs, Compile.arguments]
    rw [run_bind_ok ih, run_bind_ok run_freshVariable, run_bind_ok ihs]
    rfl

end Compile

end RecordQuery
