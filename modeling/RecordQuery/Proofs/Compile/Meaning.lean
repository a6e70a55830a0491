import RecordQuery.Proofs.Compile.Hygiene
import RecordQuery.Proofs.Filter.ReadBack
import RecordQuery.Proofs.Query.Literals
import RecordQuery.Proofs.Query.Value

/-! # The meaning of compiled expressions

The text that an expression is compiled to is read by jq as a program that puts out the value of the
expression on a record, or fails where it has none (`Means`). One lemma for each way in which the
compiler puts filters together; `Compiled.means` assembles them by induction on what the compiler
does.

Operands are looked at under variables that other operands have bound (`Binds`): the values of the
parameters are still there, since no parameter has the name of a variable of the compiler. -/

namespace RecordQuery

/-- What an operator makes of the value on its left and the one on its right. -/
def Operations.joined? (ops : Operations) : Operator → Option Json → Option Json → Option Json
  | .and, a, b => Json.both a b
  | .or, a, b => Json.either a b
  | op, a, b => a.bind fun a => b.bind fun b => ops.operation op a b

theorem Operations.join_ofOption (ops : Operations) (op : Operator) (a b : Option Json) :
    ops.join op (.ofOption a) (.ofOption b) = .ofOption (ops.joined? op a b) := by
  cases a with
  | none =>
    cases b with
    | none => cases op <;> rfl
    | some b => cases op <;> simp [join, joined?, Outputs.ofOption, Json.both, Json.either]
  | some a =>
    cases b with
    | none =>
      cases op <;> simp [join, joined?, Outputs.ofOption, Json.both, Json.either] <;>
        split <;> rfl
    | some b =>
      cases op <;> simp [join, joined?, Outputs.ofOption, Json.both, Json.either] <;>
        split <;> rfl

/-- The level of the grammar of jq at which an operator joins its operands. -/
def Operator.level : Operator → Jq.Level
  | .or => .or
  | .and => .and
  | .less | .lessEqual | .greater | .greaterEqual | .equal | .notEqual => .comparison
  | .add | .subtract => .sum
  | .multiply | .divide | .modulo => .product

theorem Operator.joiner_level (op : Operator) :
    ∃ t, op.mark.token? = some t ∧ Jq.joiner? op.level t = some (.operation op) := by
  cases op <;> exact ⟨_, rfl, rfl⟩

namespace Compile

open RecordQuery.Filter

section

variable {ops : Operations} {σ : String → Json} {ρ : Jq.Values} {s s' : Names}

@[simp] theorem Names.positional_fresh (s : Names) : s.fresh.positional = s.positional := rfl

@[simp] theorem Names.positional_need (s : Names) (h : Helper) :
    (s.need h).positional = s.positional := rfl

/-! ### Variables -/

/-- Values of variables among which are those of the parameters. -/
def Binds (σ : String → Json) (ρ : Jq.Values) : Prop :=
  ∀ name, isReserved name = false → ρ name = some (σ name)

theorem Binds.set (h : Binds σ ρ) (n : Nat) (a : Json) :
    Binds σ (ρ.set (Variable.bound n).name a) := by
  intro name hname
  have hne : name ≠ (Variable.bound n).name := fun heq => name_bound_ne hname n heq.symm
  rw [Jq.Values.set, if_neg hne]
  exact h name hname

theorem set_self (ρ : Jq.Values) (name : String) (a : Json) : ρ.set name a name = some a :=
  if_pos rfl

theorem isNameChar_digits (n : Nat) : ∀ d ∈ (toString n).toList, Jq.isNameChar d = true := by
  intro d hd
  change d ∈ (Nat.repr n).toList at hd
  rw [Nat.toList_repr] at hd
  have hdigit : d.isDigit = true := Nat.isDigit_of_mem_toDigits (by decide) (by decide) hd
  simp [Jq.isNameChar, Char.isAlphanum, hdigit]

/-- What a letter and a run of letters, digits and underlines begin is a name. -/
theorem isName_append {c : Char} (cs : List Char) {w : String} (hc : Jq.isNameStart c = true)
    (hcs : cs.all Jq.isNameChar = true) {n : Nat}
    (hw : w.toList = c :: (cs ++ (toString n).toList)) : Mark.IsName w := by
  refine ⟨c, _, hw, hc, fun d hd => ?_⟩
  rcases List.mem_append.mp hd with hd | hd
  · exact List.all_eq_true.mp hcs d hd
  · exact isNameChar_digits n d hd

theorem isName_bound (n : Nat) : Mark.IsName (Variable.bound n).name :=
  isName_append (c := '_') ['_', 'm', 'q', 'l', '_', 'v'] (n := n) (by decide) (by decide)
    (by rw [Variable.name, String.toList_append]; rfl)

theorem isName_positional (n : UInt32) : Mark.IsName (positionalName n) :=
  isName_append (c := 'p') [] (n := n.toNat) (by decide) rfl
    (by rw [positionalName, String.toList_append]; rfl)

theorem parameterName_ok (σ : String → Json) {p : Parameter} {position : Position} {name : String}
    (h : (parameterName p position).run s = .ok name s') :
    Mark.IsName name ∧ p.value σ s.positional = σ name := by
  cases named_of_run h with
  | next | numbered => exact ⟨isName_positional _, rfl⟩
  | named hname => exact ⟨isName_of_isVariableName hname, rfl⟩

/-! ### Filters -/

/-- **A filter means a value** of the record: its text is read as a term that puts out the value,
or fails where there is none. -/
def Means (ops : Operations) (σ : String → Json) (f : Filter) (v : Json → Option Json) : Prop :=
  ∃ p, f.ReadAs .term p ∧ ∀ ρ, Binds σ ρ → ∀ x, p.eval ops ρ x = .ofOption (v x)

variable {f g : Filter} {v w u : Json → Option Json}

theorem Means.congr (h : Means ops σ f v) (hw : ∀ x, v x = w x) : Means ops σ f w := by
  obtain ⟨p, hp, he⟩ := h
  exact ⟨p, hp, fun ρ hρ x => (he ρ hρ x).trans (congrArg _ (hw x))⟩

theorem means_field (name : String) : Means ops σ (.field name) fun x => x.field? name :=
  ⟨_, readAs_field name, fun _ _ _ => rfl⟩

theorem means_parameter {p : Parameter} {position : Position} {name : String}
    (h : (parameterName p position).run s = .ok name s') :
    Means ops σ (.variable (.named name)) fun _ => some (p.value σ s.positional) := by
  obtain ⟨hname, hvalue⟩ := parameterName_ok σ h
  refine ⟨_, readAs_variable (v := .named name) hname, fun ρ hρ x => ?_⟩
  rw [hvalue, Jq.eval]
  exact congrArg Outputs.ofOption (hρ name (parameterName_unreserved h).1)

theorem means_literal {l : Literal} {n : UInt32} (hw : (Expr.literal l).Written)
    (hp : (Expr.literal l).isPlain = true) :
    Means ops σ (literal l) fun x => (Expr.literal l).value? ops σ x n := by
  cases l with
  | number k =>
    cases k with
    | integer k =>
      refine ⟨_, readAs_number hw, fun ρ _ x => ?_⟩
      have hk : ((k.toInt.toNat : Nat) : Int) = k.toInt := Int.toNat_of_nonneg hw
      simp only [Jq.eval, Expr.value?, hk, Outputs.ofOption]
    | real d | float y => cases hp
  | string t =>
    exact ⟨_, readAs_string t, fun _ _ _ => by simp only [Jq.eval, Expr.value?, Outputs.ofOption]⟩
  | boolean b =>
    exact ⟨_, readAs_boolean b, fun _ _ _ => by simp only [Jq.eval, Expr.value?, Outputs.ofOption]⟩
  | null =>
    exact ⟨_, readAs_null, fun _ _ _ => by simp only [Jq.eval, Expr.value?, Outputs.ofOption]⟩
  | blob d => cases hp
  | currentTime | currentDate | currentTimestamp => cases hp

theorem Means.unary (h : Means ops σ f v) {op : UnaryOp} (hop : op ≠ .bitNot) :
    Means ops σ (unary op f) fun x => (v x).bind fun a => op.apply? ops a := by
  obtain ⟨p, hp, he⟩ := h
  have hequal : ∀ o : Operator, o.level = .comparison →
      (Filter.group (.operation o f .null)).ReadAs .term (.operation o p .null) := by
    intro o ho
    obtain ⟨t, ht, hj⟩ := o.joiner_level
    rw [ho] at hj
    have hread := (hp.looser (l := .sum) (by decide)).operation (l := .comparison) ht hj
      (readAs_null.looser (by decide))
    exact (hread.looser (by decide)).group
  cases op with
  | negate =>
    refine ⟨.negate p, ((hp.looser (by decide)).negate.looser (by decide)).group, fun ρ hρ x => ?_⟩
    rw [Jq.eval, he ρ hρ, Outputs.bind_ofOption]
    rfl
  | plus =>
    refine ⟨p, hp, fun ρ hρ x => ?_⟩
    rw [he ρ hρ]
    exact congrArg _ (Option.bind_fun_some _).symm
  | bitNot => exact absurd rfl hop
  | not =>
    have hread := (hp.looser (l := .comma) (by decide)).pipe (readAs_not.looser (by decide))
    refine ⟨_, hread.group, fun ρ hρ x => ?_⟩
    rw [Jq.eval, he ρ hρ, ← Outputs.bind_ofOption]
    rfl
  | isNull =>
    refine ⟨_, hequal .equal rfl, fun ρ hρ x => ?_⟩
    rw [Jq.eval, he ρ hρ]
    exact ops.join_ofOption .equal (v x) (some .null)
  | notNull =>
    refine ⟨_, hequal .notEqual rfl, fun ρ hρ x => ?_⟩
    rw [Jq.eval, he ρ hρ]
    exact ops.join_ofOption .notEqual (v x) (some .null)

/-- An operator between two filters that are as tight as it asks. -/
theorem readAs_operation {o : Operator} {l m : Jq.Level} {p q : Jq} (hf : f.ReadAs l p)
    (hg : g.ReadAs m q) (hl : o.level.tighter.tightness ≤ l.tightness)
    (hm : o.level.tighter.tightness ≤ m.tightness) :
    (Filter.operation o f g).ReadAs o.level (.operation o p q) := by
  obtain ⟨t, ht, hj⟩ := o.joiner_level
  exact (hf.looser hl).operation ht hj (hg.looser hm)

theorem Means.operation (hf : Means ops σ f v) (hg : Means ops σ g w) (o : Operator) :
    Means ops σ (.group (.operation o f g)) fun x => ops.joined? o (v x) (w x) := by
  obtain ⟨p, hp, he⟩ := hf
  obtain ⟨q, hq, he'⟩ := hg
  have htight : o.level.tighter.tightness ≤ 9 := by cases o <;> decide
  have hpos : 1 ≤ o.level.tightness := by cases o <;> decide
  have hread := (readAs_operation hp hq htight htight).looser (l := .pipe) hpos
  refine ⟨_, hread.group, fun ρ hρ x => ?_⟩
  rw [Jq.eval, he ρ hρ, he' ρ hρ, Operations.join_ofOption]

/-- A filter around a variable that holds a value of the record. -/
theorem Means.binding (hf : Means ops σ f v) (n : Nat) {body : Filter} {q : Jq}
    {k : Json → Json → Option Json} (hq : body.ReadAs .pipe q)
    (he : ∀ ρ, Binds σ ρ → ∀ a x, ρ (Variable.bound n).name = some a →
      q.eval ops ρ x = .ofOption (k a x)) :
    Means ops σ (binding f (.bound n) body) fun x => (v x).bind fun a => k a x := by
  obtain ⟨p, hp, hv⟩ := hf
  have hread := (hp.looser (l := .pipe) (by decide)).group.bind (isName_bound n) hq
  refine ⟨_, hread.group, fun ρ hρ x => ?_⟩
  rw [Jq.eval, hv ρ hρ, ← Outputs.bind_ofOption]
  congr
  funext a
  exact he _ (hρ.set n a) a x (set_self ρ _ a)

/-- A comparison of what a variable holds with a value of the record. -/
theorem Means.compared (hf : Means ops σ f v) {o : Operator} (ho : o.level = .comparison) (n : Nat) :
    ∃ p, (Filter.operation o (.variable (.bound n)) f).ReadAs .comparison p ∧
      ∀ ρ, Binds σ ρ → ∀ a x, ρ (Variable.bound n).name = some a →
        p.eval ops ρ x = .ofOption ((v x).bind (ops.operation o a)) := by
  obtain ⟨p, hp, he⟩ := hf
  have hv := readAs_variable (v := .bound n) (isName_bound n)
  have hread := readAs_operation (o := o) hv hp (by rw [ho]; decide) (by rw [ho]; decide)
  rw [ho] at hread
  refine ⟨_, hread, fun ρ hρ a x ha => ?_⟩
  rw [Jq.eval, Jq.eval, ha, he ρ hρ, Operations.join_ofOption]
  cases o <;> first | rfl | cases ho

/-- A range test of a value between two others. -/
theorem Means.inRange (hf : Means ops σ f v) {low high : Filter} (hl : Means ops σ low w)
    (hh : Means ops σ high u) (negated : Bool) (n : Nat) :
    Means ops σ (inRange negated f low high (.bound n)) fun x => (v x).bind fun a =>
      if negated then
        Json.either ((w x).bind (ops.operation .less a)) ((u x).bind (ops.operation .greater a))
      else
        Json.both ((w x).bind (ops.operation .greaterEqual a))
          ((u x).bind (ops.operation .lessEqual a)) := by
  cases negated with
  | true =>
    obtain ⟨p, hp, he⟩ := hl.compared (o := .less) rfl n
    obtain ⟨q, hq, he'⟩ := hh.compared (o := .greater) rfl n
    have hread := readAs_operation (o := .or) hp hq (by decide) (by decide)
    have hgroup := (hread.looser (l := .pipe) (by decide)).group
    refine hf.binding n (hgroup.looser (by decide)) fun ρ hρ a x ha => ?_
    rw [Jq.eval, he ρ hρ a x ha, he' ρ hρ a x ha, Operations.join_ofOption]
    rfl
  | false =>
    obtain ⟨p, hp, he⟩ := hl.compared (o := .greaterEqual) rfl n
    obtain ⟨q, hq, he'⟩ := hh.compared (o := .lessEqual) rfl n
    have hread := readAs_operation (o := .and) hp hq (by decide) (by decide)
    have hgroup := (hread.looser (l := .pipe) (by decide)).group
    refine hf.binding n (hgroup.looser (by decide)) fun ρ hρ a x ha => ?_
    rw [Jq.eval, he ρ hρ a x ha, he' ρ hρ a x ha, Operations.join_ofOption]
    rfl

/-! ### Lists -/

/-- Filters that mean the values of expressions, of which each counts on from the one before. -/
def MeansAll (ops : Operations) (σ : String → Json) : UInt32 → List Expr → List Filter → Prop
  | _, [], [] => True
  | n, e :: es, f :: fs =>
    Means ops σ f (fun x => e.value? ops σ x n) ∧ MeansAll ops σ (e.counted n) es fs
  | _, _, _ => False

/-- Programs among whose outputs a value is looked for. -/
theorem MeansAll.found {es : List Expr} {fs : List Filter} {n : UInt32}
    (h : MeansAll ops σ n es fs) :
    ∃ ps, ReadEach .term fs ps ∧ ∀ ρ, Binds σ ρ → ∀ a x,
      ((Jq.evalEach ops ρ ps x).bind fun b => .ofOption (ops.operation .equal b a)).anyTrue =
        .ofOption ((isOneOf? ops σ x n a es).map .boolean) := by
  induction es generalizing n fs with
  | nil =>
    cases fs with
    | nil => exact ⟨[], .nil, fun ρ _ a x => rfl⟩
    | cons f fs => exact h.elim
  | cons e es ih =>
    cases fs with
    | nil => exact h.elim
    | cons f fs =>
      obtain ⟨⟨p, hp, he⟩, hs⟩ := h
      obtain ⟨ps, hps, hfound⟩ := ih hs
      refine ⟨p :: ps, .cons hp hps, fun ρ hρ a x => ?_⟩
      have hfirst : p.eval ops ρ x = .ofOption (e.value? ops σ x n) := he ρ hρ x
      have hrest := hfound ρ hρ a x
      change (((p.eval ops ρ x).append (Jq.evalEach ops ρ ps x)).bind _).anyTrue = _
      rw [hfirst, Outputs.bind_append, Outputs.bind_ofOption, Outputs.anyTrue_append, hrest,
        isOneOf?]
      rcases e.value? ops σ x n with _ | b
      · rfl
      · simp only [Option.bind_eq_bind, Option.bind_some]
        rcases ops.operation .equal b a with _ | c
        · rfl
        · simp only [Outputs.ofOption, Outputs.bind_one, Option.bind_some]
          split <;> rfl

/-- A test for membership of a value among those of some expressions. -/
theorem Means.oneOf (hf : Means ops σ f v) {es : List Expr} {fs : List Filter} {m : UInt32}
    (hs : MeansAll ops σ m es fs) (hne : es ≠ []) (negated : Bool) (n : Nat) :
    Means ops σ (oneOf negated f fs (.bound n)) fun x => (v x).bind fun a =>
      (isOneOf? ops σ x m a es).bind fun found => some (.boolean (found != negated)) := by
  obtain ⟨ps, hterms, hfound⟩ := hs.found
  have hps : ReadEach .or fs ps := hterms.imp fun _ _ h => h.looser (by decide)
  have hitems : ∃ p, (Filter.sequence fs).ReadAs .comma p ∧
      ∀ ρ x, p.eval ops ρ x = Jq.evalEach ops ρ ps x := by
    cases hps with
    | nil =>
      cases es with
      | nil => exact absurd rfl hne
      | cons e es => exact hs.elim
    | cons hp hrest => exact ⟨_, hp.sequence hrest, fun ρ x => Jq.eval_commas ops ρ _ _ x⟩
  obtain ⟨p, hp, he⟩ := hitems
  have hv := readAs_variable (v := .bound n) (isName_bound n)
  have hequal := readAs_operation (o := .equal) readAs_identity hv (by decide) (by decide)
  have hany := (hp.looser (l := .pipe) (by decide)).any (hequal.looser (by decide))
  have htest : ∀ ρ, Binds σ ρ → ∀ a x, ρ (Variable.bound n).name = some a →
      (Jq.any p (.operation .equal .identity (.variable (Variable.bound n).name))).eval ops ρ x =
        .ofOption ((isOneOf? ops σ x m a es).map .boolean) := by
    intro ρ hρ a x ha
    rw [← hfound ρ hρ a x, Jq.eval, he]
    congr
    funext b
    rw [Jq.eval, Jq.eval, Jq.eval, ha]
    exact ops.join_ofOption .equal (some b) (some a)
  cases negated with
  | false =>
    refine hf.binding n (hany.looser (by decide)) fun ρ hρ a x ha => ?_
    rw [htest ρ hρ a x ha]
    rcases isOneOf? ops σ x m a es with _ | found
    · rfl
    · simp
  | true =>
    have hread := (hany.looser (l := .comma) (by decide)).pipe (readAs_not.looser (by decide))
    refine hf.binding n hread fun ρ hρ a x ha => ?_
    rw [Jq.eval, htest ρ hρ a x ha]
    rcases isOneOf? ops σ x m a es with _ | found
    · rfl
    · change (Outputs.one _).bind _ = _
      rw [Outputs.bind_one]
      rcases found with _ | _ <;> rfl

/-! ### Runs -/

/-- The greatest number of a positional parameter behind a job. -/
def Job.counted (n : UInt32) : Job → UInt32
  | .expr e _ => e.counted n
  | .exprs es _ | .arguments es _ => countedAll n es

theorem counted_pattern {e : Expr} {pattern : String} (h : pattern? e = some pattern) (n : UInt32) :
    e.counted n = n := by
  obtain rfl := pattern?_eq h
  rfl

theorem counted_parameter {p : Parameter} {position : Position} {name : String}
    (h : (parameterName p position).run s = .ok name s') :
    s'.positional = (Expr.parameter p position).counted s.positional := by
  cases named_of_run h <;> rfl

/-- Compiling counts the positional parameters as they stand in the expression. -/
theorem Compiled.counted {j : Job} (h : Compiled j s s') :
    s'.positional = j.counted s.positional := by
  induction h with
  | literal | column | none | noArgument => rfl
  | parameter h =>
    have hcounted := counted_parameter h
    exact hcounted
  | unary _ ih | call _ _ _ ih => exact ih
  | operator _ _ _ ih ih' | joined _ _ _ ih ih' | helper _ _ _ ih ih' | member _ _ _ ih ih'
  | computedRegexp _ _ _ _ ih ih' =>
    have hl : _ = Expr.counted _ _ := ih
    have hr : _ = Expr.counted _ _ := ih'
    simp only [Names.positional_fresh, Names.positional_need, Job.counted, Expr.counted] at hl hr ⊢
    rw [hr, hl]
  | like _ hp _ ih | regexp _ hp _ ih =>
    have hl : _ = Expr.counted _ _ := ih
    simp only [Names.positional_fresh, Job.counted, Expr.counted]
    rw [hl, counted_pattern hp]
  | between _ _ _ ihx ihf ihg =>
    have hx : _ = Expr.counted _ _ := ihx
    have hf : _ = Expr.counted _ _ := ihf
    have hg : _ = Expr.counted _ _ := ihg
    simp only [Names.positional_fresh, Job.counted, Expr.counted]
    rw [hg, hf, hx]
  | listed _ _ ih ihs =>
    have hx : _ = Expr.counted _ _ := ih
    have hs : _ = countedAll _ _ := ihs
    simp only [Names.positional_fresh, Job.counted, Expr.counted]
    rw [hs, hx]
  | more _ _ ih ihs | argument _ _ ih ihs =>
    have hx : _ = Expr.counted _ _ := ih
    have hs : _ = countedAll _ _ := ihs
    simp only [Names.positional_fresh, Job.counted, countedAll] at hs ⊢
    rw [hs, hx]

/-- The expressions of a job are made of what has a meaning here. -/
def Job.IsPlain : Job → Prop
  | .expr e _ => e.isPlain = true
  | .exprs es _ => arePlain es = true
  | .arguments _ _ => False

theorem rule_of_isPlain {op : BinaryOp} (h : op.isPlain = true) :
    (∃ o, rule op = .operator o) ∨ ∃ negated, rule op = .member negated := by
  cases op with
  | membership | notMembership => exact .inr ⟨_, rfl⟩
  | concat | shiftLeft | shiftRight | bitAnd | bitOr | like | notLike | regexp | notRegexp => cases h
  | _ => exact .inl ⟨_, rfl⟩

theorem isPlain_binary {op : BinaryOp} {l r : Expr} (h : (Expr.binary op l r).isPlain = true) :
    op.isPlain = true ∧ l.isPlain = true ∧ r.isPlain = true := by
  simpa [Expr.isPlain, and_assoc] using h

/-- A defined function is needed for no such expression. -/
theorem Compiled.helpers {j : Job} (h : Compiled j s s') (hp : j.IsPlain) :
    s'.helpers = s.helpers := by
  induction h with
  | literal | column | none | noArgument => rfl
  | parameter h => cases named_of_run h <;> rfl
  | unary _ ih =>
    simp only [Job.IsPlain, Expr.isPlain, Bool.and_eq_true] at hp
    exact ih hp.2
  | operator _ _ _ ih ih' | member _ _ _ ih ih' =>
    obtain ⟨-, hl, hr⟩ := isPlain_binary hp
    exact (ih' hr).trans (ih hl)
  | joined ho | helper ho | like ho | regexp ho | computedRegexp ho =>
    rcases rule_of_isPlain (isPlain_binary hp).1 with ⟨o, hop⟩ | ⟨negated, hop⟩ <;>
      cases ho.symm.trans hop
  | between _ _ _ ihx ihf ihg =>
    simp only [Job.IsPlain, Expr.isPlain, Bool.and_eq_true] at hp
    exact (ihg hp.2).trans ((ihf hp.1.2).trans (ihx hp.1.1))
  | listed _ _ ih ihs =>
    simp only [Job.IsPlain, Expr.isPlain, Bool.and_eq_true] at hp
    exact (ihs hp.2).trans (ih hp.1)
  | more _ _ ih ihs =>
    simp only [Job.IsPlain, arePlain, Bool.and_eq_true] at hp
    exact (ihs hp.2).trans (ih hp.1)
  | call => simp [Job.IsPlain, Expr.isPlain] at hp
  | argument => exact hp.elim

/-- What a job gives means the expressions of the job. -/
def Job.Means (ops : Operations) (σ : String → Json) (n : UInt32) : Job → Prop
  | .expr e f => e.Written → e.isPlain = true → Compile.Means ops σ f fun x => e.value? ops σ x n
  | .exprs es fs => AllWritten es → arePlain es = true → MeansAll ops σ n es fs
  | .arguments _ _ => True

theorem value?_operator {op : BinaryOp} {o : Operator} (ho : rule op = .operator o) (l r : Expr)
    (x : Json) (n : UInt32) : (Expr.binary op l r).value? ops σ x n =
      ops.joined? o (l.value? ops σ x n) (r.value? ops σ x (l.counted n)) := by
  cases op <;> cases ho <;> simp [Expr.value?, BinaryOp.operator?, Operations.joined?]

theorem value?_member {op : BinaryOp} {negated : Bool} (ho : rule op = .member negated)
    (l r : Expr) (x : Json) (n : UInt32) : (Expr.binary op l r).value? ops σ x n =
      (l.value? ops σ x n).bind fun a => (isOneOf? ops σ x (l.counted n) a [r]).bind
        fun found => some (.boolean (found != negated)) := by
  have hone : ∀ a b : Json, ((ops.operation .equal b a).bind fun c =>
      if c.truthy = true then some true else some false) =
        (ops.operation .equal b a).bind fun c => some c.truthy := by
    intro a b
    rcases ops.operation .equal b a with _ | c
    · rfl
    · rcases hc : c.truthy <;> simp [hc]
  cases op <;> cases ho <;> simp [Expr.value?, isOneOf?, hone, Option.bind_assoc]

theorem Compiled.means (ops : Operations) (σ : String → Json) {j : Job}
    (h : Compiled j s s') : j.Means ops σ s.positional := by
  induction h with
  | literal v s => exact fun hw hp => means_literal hw hp
  | column ref s =>
    intro _ _
    exact (means_field ref.column).congr fun x => by rw [Expr.value?]
  | parameter h =>
    intro _ _
    exact (means_parameter h).congr fun x => by rw [Expr.value?]
  | @unary op e f s s' _ ih =>
    intro hw hp
    simp only [Expr.isPlain, Bool.and_eq_true, bne_iff_ne] at hp
    exact ((ih hw hp.2).unary hp.1).congr fun x => by rw [Expr.value?]
  | operator ho hl _ ih ih' =>
    intro hw hp
    obtain ⟨-, hpl, hpr⟩ := isPlain_binary hp
    have hr := ih' hw.2 hpr
    rw [hl.counted] at hr
    exact ((ih hw.1 hpl).operation hr _).congr fun x => (value?_operator ho _ _ x _).symm
  | member ho hl _ ih ih' =>
    intro hw hp
    obtain ⟨-, hpl, hpr⟩ := isPlain_binary hp
    have hr := ih' hw.2 hpr
    rw [hl.counted] at hr
    have hs : MeansAll ops σ _ [_] [_] := ⟨hr, trivial⟩
    exact ((ih hw.1 hpl).oneOf hs (List.cons_ne_nil _ _) _ _).congr fun x =>
      (value?_member ho _ _ x _).symm
  | joined ho | helper ho | like ho | regexp ho | computedRegexp ho =>
    intro _ hp
    rcases rule_of_isPlain (isPlain_binary hp).1 with ⟨o, hop⟩ | ⟨negated, hop⟩ <;>
      cases ho.symm.trans hop
  | between hx hf _ ihx ihf ihg =>
    intro hw hp
    simp only [Expr.isPlain, Bool.and_eq_true] at hp
    have hlow := ihf hw.2.1 hp.1.2
    have hhigh := ihg hw.2.2 hp.2
    rw [hf.counted] at hhigh
    rw [hx.counted] at hlow hhigh
    exact ((ihx hw.1 hp.1.1).inRange hlow hhigh _ _).congr fun x => by rw [Expr.value?]; rfl
  | listed hx _ ih ihs =>
    intro hw hp
    simp only [Expr.isPlain, Bool.and_eq_true] at hp
    have hs := ihs hw.2.2 hp.2
    rw [hx.counted] at hs
    exact ((ih hw.1 hp.1).oneOf hs hw.2.1 _ _).congr fun x => by rw [Expr.value?]; rfl
  | call => exact fun _ hp => absurd hp (by simp [Expr.isPlain])
  | none => exact fun _ _ => trivial
  | more h _ ih ihs =>
    intro hw hp
    simp only [arePlain, Bool.and_eq_true] at hp
    have hs := ihs hw.2 hp.2
    rw [h.counted] at hs
    exact ⟨ih hw.1 hp.1, hs⟩
  | noArgument | argument => exact trivial

end

end Compile

end RecordQuery
