import RecordQuery.Proofs.Compile.Compiled
import RecordQuery.Proofs.Query.Places
import RecordQuery.Proofs.Runs

/-! # Compiling trees that differ in places

A place never shows in a program. Two trees that are the same up to places are compiled to one
program, with one and the same use of names, or fail with errors that are the same up to their
places, or both panic. The only error that could point nowhere is that of a `LIKE` without a
pattern, which no tree that was read gives. -/

namespace RecordQuery

/-- An error at another place. -/
def CompileError.relocate (position : Position) : CompileError → CompileError
  | grammar e => grammar ⟨e.fault, position⟩
  | unsupported construct _ => unsupported construct position
  | unknownOrderTerm term _ => unknownOrderTerm term position
  | orderIndexOutOfRange index columns _ => orderIndexOutOfRange index columns position
  | mixedDirections _ => mixedDirections position
  | invalidLimit operand _ => invalidLimit operand position

@[simp] theorem CompileError.position_relocate (p : Position) (e : CompileError) :
    (e.relocate p).position = p := by cases e <;> rfl

@[simp] theorem CompileError.text_relocate (p : Position) (e : CompileError) :
    (e.relocate p).text = e.text := by cases e <;> rfl

variable {R : Position → Position → Prop}

/-- The same error at two places. -/
structure CompileError.Kin (R : Position → Position → Prop) (e f : CompileError) : Prop where
  relocated : f = e.relocate f.position
  position : R e.position f.position

theorem Expr.Kin.pattern? {e f : Expr} (h : e.Kin R f) :
    Compile.pattern? f = Compile.pattern? e := by
  cases h <;> rfl

namespace Compile

variable {α β : Type} {P : α → β → Prop}

/-- Steps of the compiler side by side, from the same names. -/
abbrev Beside (R : Position → Position → Prop) (P : α → β → Prop) (x : Compile α)
    (y : Compile β) : Prop :=
  SideBySide Eq (Stop.Alike (CompileError.Kin R)) P x y

/-- Steps that cannot fail and do the same. -/
theorem beside_ok {x y : Compile α} (a : Names → α) (k : Names → Names)
    (hx : ∀ s, x.run s = .ok (a s) (k s)) (hy : ∀ s, y.run s = .ok (a s) (k s)) :
    Beside R Eq x y := by
  rintro s _ rfl
  rw [hx, hy]
  exact ⟨rfl, rfl⟩

theorem beside_unsupported (construct : Construct) {p q : Position} (h : R p q) :
    Beside R P (throw (.fault (.unsupported construct p)))
      (throw (.fault (.unsupported construct q))) :=
  .throw (.fault ⟨rfl, h⟩)

/-! ### Expressions -/

theorem beside_parameterName (p : Parameter) {q r : Position} (h : R q r) :
    Beside R Eq (parameterName p q) (parameterName p r) := by
  cases p with
  | next =>
    rintro s _ rfl
    rw [run_next, run_next]
    split_ifs
    · exact ⟨.panic, rfl⟩
    · exact ⟨rfl, rfl⟩
  | numbered n =>
    exact beside_ok (fun _ => positionalName n)
      (fun s => { s with positional := max s.positional n }) (fun _ => rfl) fun _ => rfl
  | named sigil name =>
    rintro s _ rfl
    rw [run_named, run_named]
    split_ifs
    · exact ⟨.fault ⟨rfl, h⟩, rfl⟩
    · exact ⟨rfl, rfl⟩

theorem beside_parameter (p : Parameter) {q r : Position} (h : R q r) :
    Beside R Eq (parameter p q) (parameter p r) :=
  (beside_parameterName p h).bindEq fun name =>
    (beside_ok (fun _ => ()) (fun s => s.use name) (fun _ => rfl) fun _ => rfl).bindEq
      fun _ => .pure rfl

theorem beside_function (name : String) (n : Nat) {p q : Position} (h : R p q) :
    Beside R Eq (function name n p) (function name n q) := by
  unfold function
  split
  · exact beside_unsupported _ h
  · split
    · exact .pure rfl
    · exact beside_unsupported _ h

theorem beside_patternTest (value pattern : Filter) (negated : Bool) :
    Beside R Eq (patternTest value pattern negated) (patternTest value pattern negated) :=
  beside_ok _ _ (fun _ => run_patternTest value pattern negated)
    fun _ => run_patternTest value pattern negated

theorem beside_membership (negated : Bool) (value : Filter) (items : List Filter) :
    Beside R Eq (membership negated value items) (membership negated value items) :=
  beside_ok _ _ (fun _ => run_membership negated value items)
    fun _ => run_membership negated value items

theorem beside_range (negated : Bool) (value low high : Filter) :
    Beside R Eq (range negated value low high) (range negated value low high) :=
  beside_ok _ _ (fun _ => run_range negated value low high)
    fun _ => run_range negated value low high

theorem beside_freshVariable : Beside R Eq freshVariable freshVariable :=
  beside_ok Names.next Names.fresh (fun _ => run_freshVariable) fun _ => run_freshVariable

/-- A pattern of `LIKE` that was read is a string literal. -/
theorem pattern?_of_literal {e : Expr} (h : Parse.isStringLiteral e = true) :
    ∃ s, pattern? e = some s := by
  unfold Parse.isStringLiteral at h
  split at h
  · exact ⟨_, rfl⟩
  · cases h

theorem like_of_rule {op : BinaryOp} {negated : Bool} (h : rule op = .like negated) :
    op = .like ∨ op = .notLike := by
  cases op <;> first | exact .inl rfl | exact .inr rfl | cases h

theorem beside_binary {op : BinaryOp} {l l' r r' : Expr} (hl : Beside R Eq (expr l) (expr l'))
    (hr : Beside R Eq (expr r) (expr r')) (hk : r.Kin R r')
    (hp : op = .like ∨ op = .notLike → Parse.isStringLiteral r = true) :
    Beside R Eq (expr (.binary op l r)) (expr (.binary op l' r')) := by
  unfold expr
  rw [hk.pattern?]
  cases ho : rule op with
  | operator o => exact hl.bindEq fun f => hr.bindEq fun g => .pure rfl
  | joined join => exact hl.bindEq fun f => hr.bindEq fun g => .pure rfl
  | helper h =>
    exact (beside_ok (fun _ => ()) (fun s => s.need h) (fun _ => rfl) fun _ => rfl).bindEq
      fun _ => hl.bindEq fun f => hr.bindEq fun g => .pure rfl
  | like negated =>
    obtain ⟨s, hs⟩ := pattern?_of_literal (hp (like_of_rule ho))
    dsimp only
    rw [hs]
    exact hl.bindEq fun f => beside_patternTest _ _ _
  | regexp negated =>
    dsimp only
    split
    · exact hl.bindEq fun f => beside_patternTest _ _ _
    · exact hl.bindEq fun f => hr.bindEq fun g => beside_freshVariable.bindEq fun v =>
        (beside_patternTest _ _ _).bindEq fun t => .pure rfl
  | member negated => exact hl.bindEq fun f => hr.bindEq fun g => beside_membership _ _ _

mutual

/-- **Compiling an expression** is not concerned with its places. -/
theorem beside_expr : ∀ (e f : Expr), e.Kin R f → Beside R Eq (expr e) (expr f)
  | .literal v, _, h => by
    cases h
    exact .pure rfl
  | .column ref, _, h => by
    cases h
    exact .pure rfl
  | .parameter p _, _, h => by
    cases h with
    | parameter _ h =>
      unfold expr
      exact beside_parameter p h
  | .unary op e, _, h => by
    cases h with
    | unary _ h =>
      unfold expr
      exact (beside_expr e _ h).bindEq fun f => .pure rfl
  | .binary op l r, _, h => by
    cases h with
    | binary _ hl hr hp =>
      exact beside_binary (beside_expr l _ hl) (beside_expr r _ hr) hr hp
  | .between _ value low high, _, h => by
    cases h with
    | between _ hv hl hh =>
      unfold expr
      exact (beside_expr value _ hv).bindEq fun x => (beside_expr low _ hl).bindEq fun f =>
        (beside_expr high _ hh).bindEq fun g => beside_range _ _ _ _
  | .listed _ value items, _, h => by
    cases h with
    | listed _ hv hs =>
      unfold expr
      exact (beside_expr value _ hv).bindEq fun x => (beside_exprs items _ hs).bindEq fun fs =>
        beside_membership _ _ _
  | .call name args _, _, h => by
    cases h with
    | call _ hs hp =>
      unfold expr
      rw [← hs.length_eq]
      exact (beside_function name _ hp).bindEq fun q => (beside_arguments args _ hs).bindEq
        fun bs => .pure rfl
  | .callStar name _, _, h => by
    cases h with
    | callStar _ hp => exact beside_unsupported _ hp
  | .existsRow _ _, _, h => by
    cases h with
    | existsRow _ _ hp => exact beside_unsupported _ hp

theorem beside_exprs : ∀ (es fs : List Expr), AllKin R es fs → Beside R Eq (exprs es) (exprs fs)
  | [], _, h => by
    cases h
    exact .pure rfl
  | e :: es, _, h => by
    cases h with
    | cons h hs =>
      unfold exprs
      exact (beside_expr e _ h).bindEq fun f => (beside_exprs es _ hs).bindEq fun fs => .pure rfl

theorem beside_arguments : ∀ (es fs : List Expr), AllKin R es fs →
    Beside R Eq (arguments es) (arguments fs)
  | [], _, h => by
    cases h
    exact .pure rfl
  | e :: es, _, h => by
    cases h with
    | cons h hs =>
      unfold arguments
      exact (beside_expr e _ h).bindEq fun f => beside_freshVariable.bindEq fun v =>
        (beside_arguments es _ hs).bindEq fun bs => .pure rfl

end

end Compile

end RecordQuery
