import RecordQuery.Proofs.Compile.Asks
import RecordQuery.Proofs.Compile.Faults
import RecordQuery.Proofs.Compile.Markers
import RecordQuery.Proofs.Compile.Steps

/-! # Variables of markers

A marker stands for a parameter, which has a name or a number (`Identity`), and is compiled to the
variable of that parameter.

* `Identity.variable_eq_iff`: two parameters share a variable only if they are the same one, or one
  has the name that the number of the other one gives.
* `Expr.resolved`: an expression in which every marker is replaced by one with the name of its
  variable. It is compiled to the same filter (`Compiled.resolved`), so the names that are put in
  are those that the markers are compiled to. -/

namespace RecordQuery

/-- The parameter that a marker stands for: it has a name, or a number. -/
inductive Identity where
  | named (name : String)
  | positional (n : UInt32)
  deriving DecidableEq

/-- The name of the variable of a parameter. -/
def Identity.variable : Identity → String
  | named name => name
  | positional n => Compile.positionalName n

/-- The parameter that a marker stands for; `n` is the greatest number in front of it. -/
def Parameter.identity (n : UInt32) : Parameter → Identity
  | next => .positional (n + 1)
  | numbered m => .positional m
  | named _ name => .named name

theorem Parameter.nameAt_eq (n : UInt32) (p : Parameter) :
    p.nameAt n = (p.identity n).variable := by
  cases p <;> rfl

/-- The parameters that markers stand for, from left to right. -/
def identitiesFrom (n : UInt32) : List (Parameter × Position) → List Identity
  | [] => []
  | p :: ps => p.1.identity n :: identitiesFrom (p.1.count n) ps

/-- The names of the variables of markers, from left to right. -/
def variablesFrom (n : UInt32) (ps : List (Parameter × Position)) : List String :=
  (identitiesFrom n ps).map Identity.variable

theorem identitiesFrom_append (n : UInt32) (ps qs : List (Parameter × Position)) :
    identitiesFrom n (ps ++ qs) = identitiesFrom n ps ++ identitiesFrom (countedBy n ps) qs := by
  induction ps generalizing n with
  | nil => rfl
  | cons p ps ih => exact congrArg _ (ih _)

theorem length_identitiesFrom (n : UInt32) (ps : List (Parameter × Position)) :
    (identitiesFrom n ps).length = ps.length := by
  induction ps generalizing n with
  | nil => rfl
  | cons p ps ih => exact congrArg Nat.succ (ih _)

theorem variablesFrom_append (n : UInt32) (ps qs : List (Parameter × Position)) :
    variablesFrom n (ps ++ qs) = variablesFrom n ps ++ variablesFrom (countedBy n ps) qs := by
  unfold variablesFrom
  rw [identitiesFrom_append, List.map_append]

/-! ### Shared variables -/

theorem Compile.positionalName_injective {m n : UInt32}
    (h : positionalName m = positionalName n) : m = n := by
  have hlist := congrArg String.toList h
  simp only [positionalName, String.toList_append] at hlist
  have hdigits : Nat.toDigits 10 m.toNat = Nat.toDigits 10 n.toNat := by
    rw [← Nat.toList_repr, ← Nat.toList_repr]
    exact List.append_cancel_left hlist
  have hnat : m.toNat = n.toNat := by
    rw [← Nat.ofDigitChars_ten_toDigits (n := m.toNat), hdigits, Nat.ofDigitChars_ten_toDigits]
  exact UInt32.toNat_inj.mp hnat

/-- One parameter has the name that the number of the other one gives. -/
def Identity.Collides : Identity → Identity → Prop
  | named name, positional n | positional n, named name => name = Compile.positionalName n
  | _, _ => False

/-- **Two parameters share a variable** only if they are the same one, or collide. -/
theorem Identity.variable_eq_iff (a b : Identity) :
    a.variable = b.variable ↔ a = b ∨ a.Collides b := by
  cases a with
  | named name =>
    cases b with
    | named name' => simp [Identity.variable, Collides]
    | positional n => simp [Identity.variable, Collides]
  | positional m =>
    cases b with
    | named name => simp [Identity.variable, Collides, eq_comm]
    | positional n =>
      have hiff : Compile.positionalName m = Compile.positionalName n ↔ m = n :=
        ⟨Compile.positionalName_injective, congrArg _⟩
      simp [Identity.variable, Collides, hiff]

/-! ### Markers with the names of their variables -/

mutual

/-- A marker is a node of its expression. -/
theorem mem_nodes_of_parameter {p : Parameter} {place : Position} : ∀ e : Expr,
    (p, place) ∈ e.parameters → .parameter p place ∈ e.nodes
  | .parameter _ _, h => by
    cases List.mem_singleton.mp h
    exact List.mem_cons_self
  | .literal _, h | .column _, h | .callStar _ _, h | .existsRow _ _, h => absurd h List.not_mem_nil
  | .unary _ e, h => List.mem_cons_of_mem _ (mem_nodes_of_parameter e h)
  | .binary _ l r, h => List.mem_cons_of_mem _ (List.mem_append.mpr
      ((List.mem_append.mp h).imp (mem_nodes_of_parameter l) (mem_nodes_of_parameter r)))
  | .between _ value low high, h => List.mem_cons_of_mem _ (List.mem_append.mpr
      ((List.mem_append.mp h).imp (mem_nodes_of_parameter value) fun h => List.mem_append.mpr
        ((List.mem_append.mp h).imp (mem_nodes_of_parameter low) (mem_nodes_of_parameter high))))
  | .listed _ value items, h => List.mem_cons_of_mem _ (List.mem_append.mpr
      ((List.mem_append.mp h).imp (mem_nodes_of_parameter value) mem_nodesOf_of_parameter))
  | .call _ args _, h => List.mem_cons_of_mem _ (mem_nodesOf_of_parameter h)

theorem mem_nodesOf_of_parameter {p : Parameter} {place : Position} : ∀ {es : List Expr},
    (p, place) ∈ parametersOf es → .parameter p place ∈ nodesOf es
  | [], h => absurd h List.not_mem_nil
  | e :: _, h => List.mem_append.mpr
      ((List.mem_append.mp h).imp (mem_nodes_of_parameter e) mem_nodesOf_of_parameter)

end

mutual

/-- An expression in which every marker is replaced by one with the name of its variable; `n` is the
greatest number in front of it. -/
def Expr.resolved (n : UInt32) : Expr → Expr
  | .parameter p place => .parameter (.named '$' (p.nameAt n)) place
  | .unary op e => .unary op (e.resolved n)
  | .binary op l r => .binary op (l.resolved n) (r.resolved (l.counted n))
  | .between negated value low high =>
    .between negated (value.resolved n) (low.resolved (value.counted n))
      (high.resolved (low.counted (value.counted n)))
  | .listed negated value items =>
    .listed negated (value.resolved n) (allResolved (value.counted n) items)
  | .call name args place => .call name (allResolved n args) place
  | e => e

/-- Expressions in which every marker is replaced by one with the name of its variable. -/
def allResolved (n : UInt32) : List Expr → List Expr
  | [] => []
  | e :: es => e.resolved n :: allResolved (e.counted n) es

end

theorem length_allResolved (n : UInt32) (es : List Expr) :
    (allResolved n es).length = es.length := by
  induction es generalizing n with
  | nil => rfl
  | cons e es ih => exact congrArg Nat.succ (ih _)

mutual

/-- The markers that are put in have the names of the variables, in their order. -/
theorem parameters_resolved : ∀ (e : Expr) (n : UInt32),
    (e.resolved n).parameters.map Prod.fst = (variablesFrom n e.parameters).map (.named '$')
  | .parameter p _, n => congrArg (fun name => [Parameter.named '$' name]) (p.nameAt_eq n)
  | .literal _, _ | .column _, _ | .callStar _ _, _ | .existsRow _ _, _ => rfl
  | .unary _ e, n => parameters_resolved e n
  | .binary _ l r, n => by
    rw [Expr.resolved, Expr.parameters, Expr.parameters, variablesFrom_append, List.map_append,
      List.map_append, parameters_resolved l, parameters_resolved r, counted_parameters]
  | .between _ value low high, n => by
    rw [Expr.resolved, Expr.parameters, Expr.parameters, variablesFrom_append,
      variablesFrom_append, List.map_append, List.map_append, List.map_append, List.map_append,
      parameters_resolved value, parameters_resolved low, parameters_resolved high,
      counted_parameters value, counted_parameters low]
  | .listed _ value items, n => by
    rw [Expr.resolved, Expr.parameters, Expr.parameters, variablesFrom_append, List.map_append,
      List.map_append, parameters_resolved value, parametersOf_resolved items,
      counted_parameters value]
  | .call _ args _, n => parametersOf_resolved args n

theorem parametersOf_resolved : ∀ (es : List Expr) (n : UInt32),
    (parametersOf (allResolved n es)).map Prod.fst =
      (variablesFrom n (parametersOf es)).map (.named '$')
  | [], _ => rfl
  | e :: es, n => by
    rw [allResolved, parametersOf, parametersOf, variablesFrom_append, List.map_append,
      List.map_append, parameters_resolved e, parametersOf_resolved es, counted_parameters]

end

namespace Compile

variable {s s' s₁ : Names}

theorem isVariableName_positionalName (n : UInt32) : isVariableName (positionalName n) = true := by
  have hlist : (positionalName n).toList = 'p' :: (toString n.toNat).toList := by
    rw [positionalName, String.toList_append]
    rfl
  unfold isVariableName
  rw [hlist]
  simp only [Bool.and_eq_true, List.all_eq_true]
  exact ⟨by decide, fun c hc => isNameChar_digits n.toNat c hc⟩

/-- The name of a parameter is one that a marker can have. -/
theorem run_resolved {p : Parameter} {place : Position} {name : String}
    (h : (parameterName p place).run s = .ok name s') (k : UInt32) :
    (parameterName (.named '$' (p.nameAt s.positional)) place).run (s.count k) =
      .ok name (s'.count k) := by
  have husable : isVariableName name = true ∧ isReserved name = false ∧
      s'.count k = s.count k := by
    cases named_of_run h with
    | next | numbered =>
      exact ⟨isVariableName_positionalName _, isReserved_positionalName _, rfl⟩
    | named hvariable hreserved => exact ⟨hvariable, hreserved, rfl⟩
  obtain ⟨hvariable, hreserved, hcount⟩ := husable
  obtain ⟨hname, -⟩ := asked_parameter h
  rw [← hname, hcount, run_named, hvariable, hreserved]
  rfl

theorem pattern?_resolved (e : Expr) (n : UInt32) : pattern? (e.resolved n) = pattern? e := by
  cases e <;> rfl

/-- A job of which every marker is replaced by one with the name of its variable. -/
def Job.resolved (n : UInt32) : Job → Job
  | .expr e f => .expr (e.resolved n) f
  | .exprs es fs => .exprs (allResolved n es) fs
  | .arguments es bs => .arguments (allResolved n es) bs

/-- **Markers are compiled to their variables**: with the names of the variables in their place, an
expression is compiled to the same filter, whatever numbers were given out before. -/
theorem Compiled.resolved {j : Job} (h : Compiled j s s') (k : UInt32) :
    Compiled (j.resolved s.positional) (s.count k) (s'.count k) := by
  induction h with
  | literal v s => exact .literal v _
  | column ref s => exact .column ref _
  | parameter h => exact .parameter (run_resolved h k)
  | unary _ ih => exact .unary ih
  | operator ho hl _ ihl ihr =>
    rw [hl.counted] at ihr
    exact .operator ho ihl ihr
  | joined ho hl _ ihl ihr =>
    rw [hl.counted] at ihr
    exact .joined ho ihl ihr
  | helper ho hl _ ihl ihr =>
    rw [hl.counted] at ihr
    exact .helper ho ihl ihr
  | like ho hp _ ihl => exact .like ho ((pattern?_resolved _ _).trans hp) ihl
  | regexp ho hp _ ihl => exact .regexp ho ((pattern?_resolved _ _).trans hp) ihl
  | computedRegexp ho hp hl _ ihl ihr =>
    rw [hl.counted] at ihr
    exact .computedRegexp ho ((pattern?_resolved _ _).trans hp) ihl ihr
  | member ho hl _ ihl ihr =>
    rw [hl.counted] at ihr
    exact .member ho ihl ihr
  | between hx hf _ ihx ihf ihg =>
    rw [hf.counted] at ihg
    rw [hx.counted] at ihf ihg
    exact .between ihx ihf ihg
  | listed hx _ ihx ihs =>
    rw [hx.counted] at ihs
    exact .listed ihx ihs
  | call hq ha _ ih =>
    refine .call hq ?_ ih
    rw [length_allResolved]
    exact ha
  | none s => exact .none _
  | noArgument s => exact .noArgument _
  | more h _ ih ihs =>
    rw [h.counted] at ihs
    exact .more ih ihs
  | @argument e es f bs s s₁ s₂ h _ ih ihs =>
    rw [Names.positional_fresh, h.counted] at ihs
    have hrest : Compiled (.arguments (allResolved (e.counted s.positional) es) bs)
        (s₁.count k).fresh (s₂.count k) := ihs
    have hall := Compiled.argument (show Compiled (.expr (e.resolved s.positional) f) _ _ from ih)
      hrest
    exact hall

/-- A marker with the name of a variable is compiled to that variable, whatever was compiled
before. -/
theorem run_variable {es : List Expr} {fs : List Filter} (h : Compiled (.exprs es fs) s s')
    {name : String} (hname : name ∈ variablesFrom s.positional (parametersOf es)) (place : Position)
    (t : Names) :
    (expr (.parameter (.named '$' name) place)).run t =
      .ok (.variable (.named name)) (t.use name) := by
  have hmarker : Parameter.named '$' name ∈
      (parametersOf (allResolved s.positional es)).map Prod.fst := by
    rw [parametersOf_resolved]
    exact List.mem_map_of_mem hname
  obtain ⟨⟨p, there⟩, hp, rfl⟩ := List.mem_map.mp hmarker
  have hnode := (h.resolved 0).supported _ (mem_nodesOf_of_parameter hp)
  have husable := (isParameterName_iff name).mp hnode
  unfold expr Compile.parameter parameterName
  dsimp only
  rw [husable]
  rfl

end Compile

end RecordQuery
