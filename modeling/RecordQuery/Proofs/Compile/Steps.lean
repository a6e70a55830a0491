import Mathlib.Data.List.Nodup
import Mathlib.Logic.Relation
import RecordQuery.Proofs.Compile.Compiled

/-! # What compiling does to the names

A run of the compiler, whether it succeeds or stops, changes the names in four ways only: it gives
out a variable, notes a defined function, notes a parameter, and counts a positional parameter
(`Names.Step`). So what one such step preserves is preserved by every run
(`Compile.stepwise_expr`), and by runs one after another. -/

namespace RecordQuery

/-- The names behind a positional parameter, with the greatest number so far. -/
def Names.count (s : Names) (n : UInt32) : Names := { s with positional := n }

/-- What can happen to the names at once. -/
inductive Names.Step : Names → Names → Prop
  | fresh (s : Names) : Step s s.fresh
  | need (s : Names) (h : Helper) : Step s (s.need h)
  | use (s : Names) (name : String) : Step s (s.use name)
  | count (s : Names) (n : UInt32) : Step s (s.count n)

/-- What can happen to the names one after another. -/
abbrev Names.Steps : Names → Names → Prop := Relation.ReflTransGen Names.Step

namespace Names

variable {s s' : Names}

/-! ### What is preserved -/

theorem Step.bindings_le (h : Step s s') : s.bindings ≤ s'.bindings := by
  cases h with
  | fresh => exact Nat.le_succ _
  | need | use | count => exact Nat.le_refl _

theorem Step.parameters_prefix (h : Step s s') : s.parameters <+: s'.parameters := by
  cases h with
  | use name =>
    change s.parameters <+: if name ∈ s.parameters then s.parameters else s.parameters ++ [name]
    split
    · exact List.prefix_rfl
    · exact List.prefix_append _ _
  | fresh | need | count => exact List.prefix_rfl

theorem nodup_noted {names : List String} (h : names.Nodup) (name : String) :
    (if name ∈ names then names else names ++ [name]).Nodup := by
  split
  · exact h
  · next hn =>
    refine List.nodup_append.mpr ⟨h, List.nodup_singleton name, fun a ha b hb hab => hn ?_⟩
    rw [← List.mem_singleton.mp hb, ← hab]
    exact ha

theorem Step.nodup (h : Step s s') (hs : s.parameters.Nodup) : s'.parameters.Nodup := by
  cases h with
  | use name => exact nodup_noted hs name
  | fresh | need | count => exact hs

theorem Step.helpers_subset (h : Step s s') : s.helpers ⊆ s'.helpers := by
  cases h with
  | need h =>
    change s.helpers ⊆ if h ∈ s.helpers then s.helpers else s.helpers ++ [h]
    split
    · exact List.Subset.refl _
    · exact List.subset_append_left _ _
  | fresh | use | count => exact List.Subset.refl _

/-- **No number is given out twice.** -/
theorem Steps.bindings_le (h : Steps s s') : s.bindings ≤ s'.bindings := by
  induction h with
  | refl => exact Nat.le_refl _
  | tail _ hstep ih => exact Nat.le_trans ih hstep.bindings_le

/-- **Parameters** are only put behind those that are there. -/
theorem Steps.parameters_prefix (h : Steps s s') : s.parameters <+: s'.parameters := by
  induction h with
  | refl => exact List.prefix_rfl
  | tail _ hstep ih => exact ih.trans hstep.parameters_prefix

theorem Steps.nodup (h : Steps s s') (hs : s.parameters.Nodup) : s'.parameters.Nodup := by
  induction h with
  | refl => exact hs
  | tail _ hstep ih => exact hstep.nodup ih

/-- **No defined function is lost.** -/
theorem Steps.helpers_subset (h : Steps s s') : s.helpers ⊆ s'.helpers := by
  induction h with
  | refl => exact List.Subset.refl _
  | tail _ hstep ih => exact List.Subset.trans ih hstep.helpers_subset

end Names

namespace Compile

/-! ### Runs -/

/-- The names behind a run, whether it succeeds or stops. -/
def namesBehind {α : Type} : EStateM.Result (Stop CompileError) Names α → Names
  | .ok _ s | .error _ s => s

/-- A step of the compiler of which every run changes the names in steps. -/
def Stepwise {α : Type} (x : Compile α) : Prop := ∀ s, Names.Steps s (namesBehind (x.run s))

variable {α β : Type}

theorem stepwise_pure (a : α) : Stepwise (pure a) := fun _ => .refl

theorem stepwise_throw (e : Stop CompileError) : Stepwise (throw e : Compile α) := fun _ => .refl

theorem Stepwise.bind {x : Compile α} {k : α → Compile β} (h : Stepwise x)
    (hk : ∀ a, Stepwise (k a)) : Stepwise (x >>= k) := by
  intro s
  have hs := h s
  change Names.Steps s (namesBehind (EStateM.bind x k s))
  change Names.Steps s (namesBehind (x s)) at hs
  unfold EStateM.bind
  cases hx : x s with
  | ok a s₁ =>
    rw [hx] at hs
    exact hs.trans (hk a s₁)
  | error e s₁ =>
    rw [hx] at hs
    exact hs

theorem stepwise_freshVariable : Stepwise freshVariable := fun s => .single (.fresh s)

theorem stepwise_need (h : Helper) : Stepwise (need h) := fun s => .single (.need s h)

theorem stepwise_patternTest (value pattern : Filter) (negated : Bool) :
    Stepwise (patternTest value pattern negated) := stepwise_freshVariable.bind fun _ =>
  stepwise_pure _

theorem stepwise_membership (negated : Bool) (value : Filter) (items : List Filter) :
    Stepwise (membership negated value items) := stepwise_freshVariable.bind fun _ =>
  stepwise_pure _

theorem stepwise_range (negated : Bool) (value low high : Filter) :
    Stepwise (range negated value low high) := stepwise_freshVariable.bind fun _ =>
  stepwise_pure _

theorem stepwise_parameter (p : Parameter) (position : Position) :
    Stepwise (parameter p position) := by
  have hname : Stepwise (parameterName p position) := by
    cases p with
    | next =>
      intro s
      rw [run_next]
      split_ifs
      · exact .refl
      · exact .single (.count s (s.positional + 1))
    | numbered n => exact fun s => .single (.count s (max s.positional n))
    | named sigil name =>
      intro s
      rw [run_named]
      split_ifs <;> exact .refl
  have huse : ∀ name, Stepwise (use name) := fun name s => .single (.use s name)
  exact hname.bind fun name => (huse name).bind fun _ => stepwise_pure _

theorem stepwise_function (name : String) (n : Nat) (position : Position) :
    Stepwise (function name n position) := by
  unfold function
  split
  · exact stepwise_throw _
  · split
    · exact stepwise_pure _
    · exact stepwise_throw _

theorem stepwise_binary {op : BinaryOp} {l r : Expr} (hl : Stepwise (expr l))
    (hr : Stepwise (expr r)) : Stepwise (expr (.binary op l r)) := by
  unfold expr
  split
  · exact hl.bind fun _ => hr.bind fun _ => stepwise_pure _
  · exact hl.bind fun _ => hr.bind fun _ => stepwise_pure _
  · exact (stepwise_need _).bind fun _ => hl.bind fun _ => hr.bind fun _ => stepwise_pure _
  · split
    · exact hl.bind fun _ => stepwise_patternTest _ _ _
    · exact stepwise_throw _
  · split
    · exact hl.bind fun _ => stepwise_patternTest _ _ _
    · exact hl.bind fun _ => hr.bind fun _ => stepwise_freshVariable.bind fun _ =>
        (stepwise_patternTest _ _ _).bind fun _ => stepwise_pure _
  · exact hl.bind fun _ => hr.bind fun _ => stepwise_membership _ _ _

mutual

/-- **Every run** of the compiler on an expression changes the names in steps. -/
theorem stepwise_expr : ∀ e : Expr, Stepwise (expr e)
  | .literal _ => stepwise_pure _
  | .column _ => stepwise_pure _
  | .parameter p position => stepwise_parameter p position
  | .unary _ e => (stepwise_expr e).bind fun _ => stepwise_pure _
  | .binary _ l r => stepwise_binary (stepwise_expr l) (stepwise_expr r)
  | .between _ value low high =>
    (stepwise_expr value).bind fun _ => (stepwise_expr low).bind fun _ =>
      (stepwise_expr high).bind fun _ => stepwise_range _ _ _ _
  | .listed _ value items =>
    (stepwise_expr value).bind fun _ => (stepwise_exprs items).bind fun _ =>
      stepwise_membership _ _ _
  | .call name args position =>
    (stepwise_function name _ position).bind fun _ => (stepwise_arguments args).bind fun _ =>
      stepwise_pure _
  | .callStar _ _ => stepwise_throw _
  | .existsRow _ _ => stepwise_throw _

theorem stepwise_exprs : ∀ es : List Expr, Stepwise (exprs es)
  | [] => stepwise_pure _
  | e :: es => (stepwise_expr e).bind fun _ => (stepwise_exprs es).bind fun _ => stepwise_pure _

theorem stepwise_arguments : ∀ es : List Expr, Stepwise (arguments es)
  | [] => stepwise_pure _
  | e :: es => (stepwise_expr e).bind fun _ => stepwise_freshVariable.bind fun _ =>
    (stepwise_arguments es).bind fun _ => stepwise_pure _

end

/-! ### Expressions one after another -/

/-- The names behind expressions compiled one after another, some of which may fail. -/
def namesAfter (s : Names) (es : List Expr) : Names :=
  es.foldl (fun s e => namesBehind ((expr e).run s)) s

theorem namesAfter_append (s : Names) (es es' : List Expr) :
    namesAfter s (es ++ es') = namesAfter (namesAfter s es) es' := List.foldl_append

theorem steps_namesAfter (s : Names) (es : List Expr) : Names.Steps s (namesAfter s es) := by
  induction es generalizing s with
  | nil => exact .refl
  | cons e es ih => exact (stepwise_expr e s).trans (ih _)

end Compile

end RecordQuery
