import RecordQuery.Proofs.Compile.Compiled
import RecordQuery.Proofs.Jq.Lexing
import RecordQuery.Proofs.Query.Nodes

/-! # Which expressions compile

An expression compiles if and only if each of its nodes is supported, whatever names were given out
before and as long as no run panics. One direction goes by induction on successful runs
(`Compiled.supported`). For the other one, every fault of a run is in a set `P` if the faults of all
nodes are (`Fails`): such steps go one after another, so that there is one line for each form of
expression, and a fault that comes out is that of a node (`faulty_of_fault`). -/

namespace RecordQuery

namespace Compile

variable {α β : Type} {P : CompileError → Prop} {s s' : Names}

/-! ### Steps that fail in a set of errors -/

/-- Every fault of a step is in a set. -/
def Fails (P : CompileError → Prop) (x : Compile α) : Prop :=
  ∀ ⦃s error s'⦄, x.run s = .error (.fault error) s' → P error

namespace Fails

theorem pure (a : α) : Fails P (pure a : Compile α) := by
  intro s error s' h
  cases h

theorem throw {error : CompileError} (h : P error) :
    Fails P (throw (.fault error) : Compile α) := by
  intro s error' s' herror
  cases herror
  exact h

theorem bind {x : Compile α} {f : α → Compile β} (hx : Fails P x) (hf : ∀ a, Fails P (f a)) :
    Fails P (x >>= f) := by
  intro s error s' h
  rcases bind_error h with h | ⟨a, s₁, -, h⟩
  · exact hx h
  · exact hf a h

theorem of_run {x : Compile α} {a : Names → α} {t : Names → Names}
    (h : ∀ s, x.run s = .ok (a s) (t s)) : Fails P x := by
  intro s error s' herror
  rw [h] at herror
  cases herror

theorem patternTest (value pattern : Filter) (negated : Bool) :
    Fails P (patternTest value pattern negated) :=
  of_run fun _ => run_patternTest value pattern negated

theorem membership (negated : Bool) (value : Filter) (items : List Filter) :
    Fails P (membership negated value items) := of_run fun _ => run_membership negated value items

theorem range (negated : Bool) (value low high : Filter) : Fails P (range negated value low high) :=
  of_run fun _ => run_range negated value low high

end Fails

/-! ### Nodes with a name -/

theorem isVariableName_iff (name : String) : isVariableName name = true ↔
    name.toList ≠ [] ∧ (∀ c ∈ name.toList.head?, c.isDigit = false) ∧
      ∀ c ∈ name.toList, c.isAlphanum = true ∨ c = '_' := by
  unfold isVariableName
  cases name.toList with
  | nil => simp
  | cons c rest =>
    simp only [Bool.and_eq_true, Bool.or_eq_true, beq_iff_eq, List.all_eq_true, ne_eq, reduceCtorEq,
      not_false_eq_true, true_and, List.head?_cons, Option.mem_some, forall_eq', List.mem_cons,
      forall_eq_or_imp]
    constructor
    · rintro ⟨hc, hrest⟩
      have hstart : Jq.isNameStart c = true := by
        rw [Jq.isNameStart, Bool.or_eq_true, beq_iff_eq]
        exact hc
      refine ⟨(Jq.isNameStart_spec hstart).2.1, hc.imp_left fun h => ?_, hrest⟩
      rw [Char.isAlphanum, h, Bool.true_or]
    · rintro ⟨hdigit, hc, hrest⟩
      refine ⟨hc.imp_left fun h => ?_, hrest⟩
      rwa [Char.isAlphanum, hdigit, Bool.or_false] at h

theorem isParameterName_iff (name : String) :
    IsParameterName name ↔ (!isVariableName name || isReserved name) = false := by
  have hreserved : isReserved name = false ↔ ¬ "__mql_v".toList <+: name.toList := by
    rw [← List.isPrefixOf_iff_prefix, Bool.not_eq_true]
    rfl
  rw [Bool.or_eq_false_iff, Bool.not_eq_false', isVariableName_iff, hreserved]
  constructor
  · rintro ⟨hne, hstart, hchars, hfree⟩
    exact ⟨⟨hne, hstart, hchars⟩, hfree⟩
  · rintro ⟨⟨hne, hstart, hchars⟩, hfree⟩
    exact ⟨hne, hstart, hchars, hfree⟩

theorem name_of_ofName? {name : String} {f : QueryFunction}
    (h : QueryFunction.ofName? name = some f) : f.name = QueryFunction.fold name := by
  unfold QueryFunction.ofName? at h
  have hfound := List.find?_some h
  exact eq_of_beq hfound

theorem ofName?_eq_none {name : String} (h : QueryFunction.ofName? name = none)
    (f : QueryFunction) : f.name ≠ QueryFunction.fold name := by
  unfold QueryFunction.ofName? at h
  have hf : f ∈ QueryFunction.all := by cases f <;> decide
  exact fun hname => List.find?_eq_none.mp h f hf (beq_iff_eq.mpr hname)

theorem takes_iff {f : QueryFunction} {name : String} {n : Nat}
    (h : f.name = QueryFunction.fold name) : f.Takes name n ↔ f.arity.admits n = true := by
  rw [Arity.admits, Bool.and_eq_true, decide_eq_true_eq, Option.all_eq_true]
  constructor
  · rintro ⟨-, hleast, hmost⟩
    exact ⟨hleast, fun m hm => decide_eq_true (hmost m hm)⟩
  · rintro ⟨hleast, hmost⟩
    exact ⟨h, hleast, fun m hm => of_decide_eq_true (hmost m hm)⟩

theorem Fails.function {name : String} {args : List Expr} {position : Position}
    (h : ∀ error, (Expr.call name args position).Faulty error → P error) :
    Fails P (function name args.length position) := by
  unfold Compile.function
  split
  · next hnone =>
    exact .throw (h _ (.unknown (ofName?_eq_none hnone)))
  · next f hsome =>
    have hf := name_of_ofName? hsome
    split
    · exact .pure _
    · next hadmits => exact .throw (h _ (.arity hf ((takes_iff hf).not.mpr hadmits)))

theorem Fails.parameter {p : Parameter} {position : Position}
    (h : ∀ error, (Expr.parameter p position).Faulty error → P error) :
    Fails P (parameter p position) := by
  have hname : Fails P (parameterName p position) := by
    cases p with
    | next =>
      intro s error s' herror
      rw [run_next] at herror
      split_ifs at herror
      cases herror
    | numbered n => exact .of_run (a := fun s => _) (t := fun s => _) fun _ => rfl
    | named sigil name =>
      intro s error s' herror
      rw [run_named] at herror
      split_ifs at herror with hbad
      cases herror
      refine h _ (.parameterName fun hok => ?_)
      rw [(isParameterName_iff name).mp hok] at hbad
      cases hbad
  exact .bind hname fun _ =>
    .bind (.of_run (a := fun s => ()) (t := fun s => s.use _) fun _ => rfl) fun _ => .pure _

/-! ### Expressions -/

/-- A node that the grammar builds, and whose errors are in a set. -/
def Within (P : CompileError → Prop) (n : Expr) : Prop :=
  n.Grammatical ∧ ∀ error, n.Faulty error → P error

theorem pattern?_isSome {r : Expr} (h : Parse.isStringLiteral r = true) :
    ∃ pattern, pattern? r = some pattern := by
  unfold Parse.isStringLiteral at h
  split at h
  · exact ⟨_, rfl⟩
  · cases h

theorem fails_binary {op : BinaryOp} {l r : Expr} (h : Within P (.binary op l r))
    (hl : Fails P (expr l)) (hr : Fails P (expr r)) : Fails P (expr (.binary op l r)) := by
  unfold expr
  split
  · exact .bind hl fun _ => .bind hr fun _ => .pure _
  · exact .bind hl fun _ => .bind hr fun _ => .pure _
  · exact .bind (.of_run fun _ => run_need) fun _ => .bind hl fun _ => .bind hr fun _ => .pure _
  · next negated hop =>
    obtain ⟨pattern, hpattern⟩ : ∃ pattern, pattern? r = some pattern := by
      refine pattern?_isSome ?_
      cases op <;> first | exact h.1 | cases hop
    rw [hpattern]
    exact .bind hl fun _ => .patternTest _ _ _
  · split
    · exact .bind hl fun _ => .patternTest _ _ _
    · exact .bind hl fun _ => .bind hr fun _ => .bind (.of_run fun _ => run_freshVariable) fun _ =>
        .bind (.patternTest _ _ _) fun _ => .pure _
  · exact .bind hl fun _ => .bind hr fun _ => .membership _ _ _

mutual

/-- **Every fault of an expression** is that of a node. -/
theorem fails_expr : ∀ e : Expr, (∀ n ∈ e.nodes, Within P n) → Fails P (expr e)
  | .literal v, _ => .pure (literal v)
  | .column ref, _ => .pure (Filter.field ref.column)
  | .parameter p position, h => .parameter (h _ List.mem_cons_self).2
  | .unary _ e, h => by
    have he := fails_expr e (List.forall_mem_cons.mp h).2
    unfold expr
    exact .bind he fun _ => .pure _
  | .binary _ l r, h => by
    obtain ⟨hnode, hoperands⟩ := List.forall_mem_cons.mp h
    obtain ⟨hl, hr⟩ := List.forall_mem_append.mp hoperands
    exact fails_binary hnode (fails_expr l hl) (fails_expr r hr)
  | .between _ value low high, h => by
    obtain ⟨hvalue, hbounds⟩ := List.forall_mem_append.mp (List.forall_mem_cons.mp h).2
    obtain ⟨hlow, hhigh⟩ := List.forall_mem_append.mp hbounds
    have hx := fails_expr value hvalue
    have hf := fails_expr low hlow
    have hg := fails_expr high hhigh
    unfold expr
    exact .bind hx fun _ => .bind hf fun _ => .bind hg fun _ => .range _ _ _ _
  | .listed _ value items, h => by
    obtain ⟨hvalue, hitems⟩ := List.forall_mem_append.mp (List.forall_mem_cons.mp h).2
    have hx := fails_expr value hvalue
    have hs := fails_exprs items hitems
    unfold expr
    exact .bind hx fun _ => .bind hs fun _ => .membership _ _ _
  | .call name args position, h => by
    obtain ⟨hnode, hargs⟩ := List.forall_mem_cons.mp h
    have hs := fails_arguments args hargs
    unfold expr
    exact .bind (.function hnode.2) fun _ => .bind hs fun _ => .pure _
  | .callStar _ _, h => .throw ((h _ List.mem_cons_self).2 _ .callStar)
  | .existsRow _ _, h => .throw ((h _ List.mem_cons_self).2 _ .existsRow)

theorem fails_exprs : ∀ es : List Expr, (∀ n ∈ nodesOf es, Within P n) → Fails P (exprs es)
  | [], _ => .pure []
  | e :: es, h => by
    obtain ⟨hfirst, hrest⟩ := List.forall_mem_append.mp h
    have he := fails_expr e hfirst
    have hs := fails_exprs es hrest
    unfold exprs
    exact .bind he fun _ => .bind hs fun _ => .pure _

theorem fails_arguments : ∀ es : List Expr, (∀ n ∈ nodesOf es, Within P n) →
    Fails P (arguments es)
  | [], _ => .pure []
  | e :: es, h => by
    obtain ⟨hfirst, hrest⟩ := List.forall_mem_append.mp h
    have he := fails_expr e hfirst
    have hs := fails_arguments es hrest
    unfold arguments
    exact .bind he fun _ => .bind (.of_run fun _ => run_freshVariable) fun _ =>
      .bind hs fun _ => .pure _

end

/-- **A fault that comes out** of an expression is that of one of its nodes. -/
theorem faulty_of_fault {e : Expr} {error : CompileError} (he : e.AllGrammatical)
    (h : (expr e).run s = .error (.fault error) s') : ∃ n ∈ e.nodes, n.Faulty error :=
  fails_expr (P := fun error => ∃ n ∈ e.nodes, n.Faulty error) e
    (fun n hn => ⟨he n hn, fun _ hfaulty => ⟨n, hn, hfaulty⟩⟩) h

/-! ### Expressions that compile -/

/-- What is said of the nodes of what was compiled. -/
def Job.Supported : Job → Prop
  | .expr e _ => ∀ n ∈ e.nodes, n.Supported
  | .exprs es _ | .arguments es _ => ∀ n ∈ nodesOf es, n.Supported

theorem supported_parameter {p : Parameter} {position : Position} {name : String}
    (h : (parameterName p position).run s = .ok name s') :
    (Expr.parameter p position).Supported := by
  cases named_of_run h with
  | next | numbered => trivial
  | named hname hreserved =>
    exact (isParameterName_iff _).mpr (by rw [hname, hreserved]; rfl)

theorem supported_pattern? {r : Expr} {pattern : String} (h : pattern? r = some pattern) :
    ∀ n ∈ r.nodes, n.Supported := by
  obtain rfl := pattern?_eq h
  intro n hn
  obtain rfl := List.mem_singleton.mp hn
  trivial

/-- **What has compiled** has no node that is not supported. -/
theorem Compiled.supported {j : Job} (h : Compiled j s s') : j.Supported := by
  induction h with
  | literal | column =>
    intro n hn
    obtain rfl := List.mem_singleton.mp hn
    trivial
  | parameter h =>
    intro n hn
    obtain rfl := List.mem_singleton.mp hn
    exact supported_parameter h
  | unary _ ih => exact List.forall_mem_cons.mpr ⟨trivial, ih⟩
  | operator _ _ _ ihl ihr | joined _ _ _ ihl ihr | helper _ _ _ ihl ihr
  | computedRegexp _ _ _ _ ihl ihr | member _ _ _ ihl ihr =>
    exact List.forall_mem_cons.mpr ⟨trivial, List.forall_mem_append.mpr ⟨ihl, ihr⟩⟩
  | like _ hp _ ihl | regexp _ hp _ ihl =>
    exact List.forall_mem_cons.mpr
      ⟨trivial, List.forall_mem_append.mpr ⟨ihl, supported_pattern? hp⟩⟩
  | between _ _ _ ihx ihf ihg =>
    exact List.forall_mem_cons.mpr
      ⟨trivial, List.forall_mem_append.mpr ⟨ihx, List.forall_mem_append.mpr ⟨ihf, ihg⟩⟩⟩
  | listed _ _ ihx ihs =>
    exact List.forall_mem_cons.mpr ⟨trivial, List.forall_mem_append.mpr ⟨ihx, ihs⟩⟩
  | call hq ha _ ih =>
    exact List.forall_mem_cons.mpr ⟨⟨_, (takes_iff (name_of_ofName? hq)).mpr ha⟩, ih⟩
  | none | noArgument => exact nofun
  | more _ _ ih ihs | argument _ _ ih ihs => exact List.forall_mem_append.mpr ⟨ih, ihs⟩

end Compile

end RecordQuery
