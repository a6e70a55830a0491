import RecordQuery.Proofs.Compile.Meaning
import RecordQuery.Proofs.Query.Parameters

/-! # Numbers of bare markers

A bare marker is compiled like a marker with a number: the one behind the greatest number of the
parameters that were compiled before it (`Assigns`). So an expression in which every bare marker is
given that number is compiled in the very same way (`run_numberedBy`). -/

namespace RecordQuery

/-- The greatest number behind a parameter, given the one in front. -/
def Parameter.count (n : UInt32) : Parameter → UInt32
  | next => n + 1
  | numbered m => max n m
  | named _ _ => n

/-- The greatest number behind parameters. -/
def countedBy (n : UInt32) (ps : List (Parameter × Position)) : UInt32 :=
  ps.foldl (fun n p => p.1.count n) n

mutual

/-- An expression with its bare markers numbered by their places. -/
def Expr.numberedBy (f : Position → UInt32) : Expr → Expr
  | .parameter .next place => .parameter (.numbered (f place)) place
  | .unary op e => .unary op (e.numberedBy f)
  | .binary op l r => .binary op (l.numberedBy f) (r.numberedBy f)
  | .between negated value low high =>
    .between negated (value.numberedBy f) (low.numberedBy f) (high.numberedBy f)
  | .listed negated value items => .listed negated (value.numberedBy f) (allNumberedBy f items)
  | .call name args place => .call name (allNumberedBy f args) place
  | e => e

/-- Expressions with their bare markers numbered by their places. -/
def allNumberedBy (f : Position → UInt32) : List Expr → List Expr
  | [] => []
  | e :: es => e.numberedBy f :: allNumberedBy f es

end

variable {f : Position → UInt32}

theorem length_allNumberedBy (es : List Expr) : (allNumberedBy f es).length = es.length := by
  induction es with
  | nil => rfl
  | cons e es ih => exact congrArg Nat.succ ih

/-! ### Counting -/

theorem countedBy_append (n : UInt32) (ps qs : List (Parameter × Position)) :
    countedBy n (ps ++ qs) = countedBy (countedBy n ps) qs := List.foldl_append

mutual

theorem counted_parameters : ∀ (e : Expr) (n : UInt32), e.counted n = countedBy n e.parameters
  | .parameter .next _, _ | .parameter (.numbered _) _, _ | .parameter (.named _ _) _, _ => rfl
  | .literal _, _ | .column _, _ | .callStar _ _, _ | .existsRow _ _, _ => rfl
  | .unary _ e, n => counted_parameters e n
  | .binary _ l r, n => by
    rw [Expr.counted, Expr.parameters, countedBy_append, counted_parameters l,
      counted_parameters r]
  | .between _ value low high, n => by
    rw [Expr.counted, Expr.parameters, countedBy_append, countedBy_append,
      counted_parameters value, counted_parameters low, counted_parameters high]
  | .listed _ value items, n => by
    rw [Expr.counted, Expr.parameters, countedBy_append, counted_parameters value,
      countedAll_parameters items]
  | .call _ args _, n => countedAll_parameters args n

theorem countedAll_parameters : ∀ (es : List Expr) (n : UInt32),
    countedAll n es = countedBy n (parametersOf es)
  | [], _ => rfl
  | e :: es, n => by
    rw [countedAll, parametersOf, countedBy_append, counted_parameters e,
      countedAll_parameters es]

end

/-- Numbers for the bare markers among parameters, each the one behind the greatest so far. -/
def Assigns (f : Position → UInt32) : UInt32 → List (Parameter × Position) → Prop
  | _, [] => True
  | n, (p, place) :: ps => (p = .next → n < n + 1 ∧ f place = n + 1) ∧ Assigns f (p.count n) ps

theorem assigns_append {n : UInt32} {ps qs : List (Parameter × Position)} :
    Assigns f n (ps ++ qs) ↔ Assigns f n ps ∧ Assigns f (countedBy n ps) qs := by
  induction ps generalizing n with
  | nil => exact ⟨fun h => ⟨trivial, h⟩, And.right⟩
  | cons p ps ih => rw [List.cons_append, Assigns, Assigns, ih, and_assoc]; rfl

/-- The places of the bare markers among parameters. -/
def bareMarkers (ps : List (Parameter × Position)) : List Position :=
  (ps.filter (·.1 = .next)).map Prod.snd

theorem bareMarkers_append (ps qs : List (Parameter × Position)) :
    bareMarkers (ps ++ qs) = bareMarkers ps ++ bareMarkers qs := by
  unfold bareMarkers
  rw [List.filter_append, List.map_append]

theorem bareMarkers_sublist (ps : List (Parameter × Position)) :
    (bareMarkers ps).Sublist (ps.map Prod.snd) := List.filter_sublist.map _

/-- Where no marker has a number of its own, the bare ones are numbered one after another. -/
theorem assigns_of_bare {ps : List (Parameter × Position)} {k : Nat}
    (hnone : ∀ p ∈ ps, ∀ n, p.1 ≠ .numbered n) (hlt : k + (bareMarkers ps).length < 2 ^ 32)
    (hf : ∀ i place, (bareMarkers ps)[i]? = some place → f place = .ofNat (k + i + 1)) :
    Assigns f (.ofNat k) ps ∧ countedBy (.ofNat k) ps = .ofNat (k + (bareMarkers ps).length) := by
  induction ps generalizing k with
  | nil => exact ⟨trivial, rfl⟩
  | cons p ps ih =>
    obtain ⟨p, place⟩ := p
    have hrest : ∀ q ∈ ps, ∀ n, q.1 ≠ .numbered n := fun q hq =>
      hnone q (List.mem_cons_of_mem _ hq)
    cases p with
    | next =>
      have hcons : bareMarkers ((.next, place) :: ps) = place :: bareMarkers ps := rfl
      rw [hcons, List.length_cons] at hlt ⊢
      have hsucc : UInt32.ofNat k + 1 = .ofNat (k + 1) := (UInt32.ofNat_add k 1).symm
      obtain ⟨hassigns, hcounted⟩ := ih (k := k + 1) hrest (by omega) fun i q hq => by
        rw [hf (i + 1) q hq]
        congr 1
        omega
      rw [← hsucc] at hassigns hcounted
      refine ⟨⟨fun _ => ⟨?_, ?_⟩, hassigns⟩, hcounted.trans (by congr 1; omega)⟩
      · rw [hsucc, UInt32.lt_iff_toNat_lt, UInt32.toNat_ofNat_of_lt' (show k < 2 ^ 32 by omega),
          UInt32.toNat_ofNat_of_lt' (show k + 1 < 2 ^ 32 by omega)]
        exact Nat.lt_succ_self k
      · rw [hsucc]
        exact hf 0 place rfl
    | numbered n => exact absurd rfl (hnone _ List.mem_cons_self n)
    | named sigil name =>
      obtain ⟨hassigns, hcounted⟩ := ih hrest hlt hf
      exact ⟨⟨nofun, hassigns⟩, hcounted⟩

namespace Compile

/-! ### Runs -/

variable {α β : Type}

/-- Behind a greatest number, a step does whatever another one does that succeeds. -/
def Repeats (n : UInt32) (x y : Compile α) : Prop :=
  ∀ s a s', s.positional = n → y.run s = .ok a s' → x.run s = .ok a s'

/-- A step that goes from one greatest number to another one where it succeeds. -/
def Leads (n m : UInt32) (x : Compile α) : Prop :=
  ∀ s a s', s.positional = n → x.run s = .ok a s' → s'.positional = m

variable {n m : UInt32} {x y : Compile α}

theorem Repeats.refl (x : Compile α) : Repeats n x x := fun _ _ _ _ h => h

theorem repeats_throw (e : Stop CompileError) (x : Compile α) : Repeats n x (throw e) := by
  rintro s a s' - h
  cases h

theorem Repeats.bind {k l : α → Compile β} (h : Repeats n x y) (hy : Leads n m y)
    (hk : ∀ a, Repeats m (k a) (l a)) : Repeats n (x >>= k) (y >>= l) := by
  intro s b s' hs hrun
  obtain ⟨a, s₁, ha, hb⟩ := bind_ok hrun
  have hx : x s = .ok a s₁ := h s a s₁ hs ha
  have hrest : k a s₁ = .ok b s' := hk a s₁ b s' (hy s a s₁ hs ha) hb
  change EStateM.bind x k s = .ok b s'
  unfold EStateM.bind
  rw [hx]
  exact hrest

theorem Repeats.bindSame (h : Repeats n x y) (k : α → Compile β) :
    Repeats n (x >>= k) (y >>= k) := by
  intro s b s' hs hrun
  obtain ⟨a, s₁, ha, hb⟩ := bind_ok hrun
  have hx : x s = .ok a s₁ := h s a s₁ hs ha
  change EStateM.bind x k s = .ok b s'
  unfold EStateM.bind
  rw [hx]
  exact hb

theorem leads_expr (e : Expr) : Leads n (e.counted n) (expr e) := by
  rintro s g s' rfl h
  exact (compiled_of_run e g s s' h).counted

theorem leads_need (h : Helper) : Leads n n (need h) := by
  rintro s u s' rfl h
  cases h
  rfl

theorem leads_freshVariable : Leads n n freshVariable := by
  rintro s v s' rfl h
  cases h
  rfl

theorem leads_function (name : String) (k : Nat) (position : Position) :
    Leads n n (function name k position) := by
  rintro s q s' rfl h
  rw [(run_function h).2.2]

theorem repeats_parameter {place : Position} (h : n < n + 1 ∧ f place = n + 1) :
    Repeats n (expr (.parameter (.numbered (f place)) place)) (expr (.parameter .next place)) := by
  rintro s g s' rfl hrun
  have hmax : max s.positional (s.positional + 1) = s.positional + 1 := if_pos (Std.le_of_lt h.1)
  have hnumbered : (expr (.parameter (.numbered (f place)) place)).run s =
      .ok (.variable (.named (positionalName (f place))))
        (Names.use { s with positional := max s.positional (f place) }
          (positionalName (f place))) := rfl
  obtain ⟨name, s₁, hname, hrest⟩ := bind_ok (x := parameterName .next place) hrun
  cases named_of_run hname
  rw [hnumbered, h.2, hmax]
  exact hrest

theorem pattern?_numberedBy (e : Expr) : pattern? (e.numberedBy f) = pattern? e := by
  cases e with
  | parameter p place => cases p <;> rfl
  | _ => rfl

theorem repeats_binary {op : BinaryOp} {l r l' r' : Expr}
    (hl : Repeats n (expr l') (expr l)) (hr : Repeats (l.counted n) (expr r') (expr r))
    (hp : pattern? r' = pattern? r) :
    Repeats n (expr (.binary op l' r')) (expr (.binary op l r)) := by
  unfold expr
  split
  · exact hl.bind (leads_expr l) fun _ => hr.bindSame _
  · exact hl.bind (leads_expr l) fun _ => hr.bindSame _
  · exact (Repeats.refl _).bind (leads_need _) fun _ => hl.bind (leads_expr l) fun _ =>
      hr.bindSame _
  · rw [hp]
    split
    · exact hl.bindSame _
    · exact repeats_throw _ _
  · rw [hp]
    split
    · exact hl.bindSame _
    · exact hl.bind (leads_expr l) fun _ => hr.bindSame _
  · exact hl.bind (leads_expr l) fun _ => hr.bindSame _

mutual

/-- **Numbering the bare markers** by the numbers they are given changes nothing. -/
theorem repeats_numberedBy : ∀ (e : Expr) (n : UInt32), Assigns f n e.parameters →
    Repeats n (expr (e.numberedBy f)) (expr e)
  | .literal _, _, _ | .column _, _, _ | .callStar _ _, _, _ | .existsRow _ _, _, _ => .refl _
  | .parameter .next _, _, h => repeats_parameter (h.1 rfl)
  | .parameter (.numbered _) _, _, _ | .parameter (.named _ _) _, _, _ => .refl _
  | .unary _ e, n, h => (repeats_numberedBy e n h).bindSame _
  | .binary _ l r, n, h => by
    obtain ⟨hl, hr⟩ := assigns_append.mp h
    rw [← counted_parameters] at hr
    exact repeats_binary (repeats_numberedBy l n hl) (repeats_numberedBy r _ hr)
      (pattern?_numberedBy r)
  | .between _ value low high, n, h => by
    obtain ⟨hvalue, hrest⟩ := assigns_append.mp h
    obtain ⟨hlow, hhigh⟩ := assigns_append.mp hrest
    rw [← counted_parameters] at hlow
    rw [← counted_parameters, ← counted_parameters] at hhigh
    exact (repeats_numberedBy value n hvalue).bind (leads_expr value) fun _ =>
      (repeats_numberedBy low _ hlow).bind (leads_expr low) fun _ =>
        (repeats_numberedBy high _ hhigh).bindSame _
  | .listed _ value items, n, h => by
    obtain ⟨hvalue, hitems⟩ := assigns_append.mp h
    rw [← counted_parameters] at hitems
    exact (repeats_numberedBy value n hvalue).bind (leads_expr value) fun _ =>
      (repeats_allNumberedBy items _ hitems).bindSame _
  | .call name args place, n, h => by
    change Repeats n (expr (.call name (allNumberedBy f args) place)) _
    unfold expr
    rw [length_allNumberedBy]
    exact (Repeats.refl _).bind (leads_function _ _ _) fun _ =>
      (repeats_argumentsNumberedBy args n h).bindSame _

theorem repeats_allNumberedBy : ∀ (es : List Expr) (n : UInt32), Assigns f n (parametersOf es) →
    Repeats n (exprs (allNumberedBy f es)) (exprs es)
  | [], _, _ => .refl _
  | e :: es, n, h => by
    obtain ⟨he, hes⟩ := assigns_append.mp h
    rw [← counted_parameters] at hes
    exact (repeats_numberedBy e n he).bind (leads_expr e) fun _ =>
      (repeats_allNumberedBy es _ hes).bindSame _

theorem repeats_argumentsNumberedBy : ∀ (es : List Expr) (n : UInt32),
    Assigns f n (parametersOf es) → Repeats n (arguments (allNumberedBy f es)) (arguments es)
  | [], _, _ => .refl _
  | e :: es, n, h => by
    obtain ⟨he, hes⟩ := assigns_append.mp h
    rw [← counted_parameters] at hes
    exact (repeats_numberedBy e n he).bind (leads_expr e) fun _ =>
      (Repeats.refl _).bind leads_freshVariable fun _ =>
        (repeats_argumentsNumberedBy es _ hes).bindSame _

end

/-- What was compiled holds no nested statement. -/
def Job.Flat : Job → Prop
  | .expr e _ => e.Flat
  | .exprs es _ | .arguments es _ => AllFlat es

theorem flat_pattern {e : Expr} {pattern : String} (h : pattern? e = some pattern) : e.Flat := by
  obtain rfl := pattern?_eq h
  trivial

theorem Compiled.flat {j : Job} {s s' : Names} (h : Compiled j s s') : j.Flat := by
  induction h with
  | literal | column | parameter | none | noArgument => trivial
  | unary _ ih | call _ _ _ ih => exact ih
  | operator _ _ _ ih ih' | joined _ _ _ ih ih' | helper _ _ _ ih ih' | member _ _ _ ih ih'
  | computedRegexp _ _ _ _ ih ih' | listed _ _ ih ih' | more _ _ ih ih' | argument _ _ ih ih' =>
    exact ⟨ih, ih'⟩
  | like _ hp _ ih | regexp _ hp _ ih => exact ⟨ih, flat_pattern hp⟩
  | between _ _ _ ih ih' ih'' => exact ⟨ih, ih', ih''⟩

end Compile

end RecordQuery
