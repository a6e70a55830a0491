import RecordQuery.Proofs.Compile.Asks
import RecordQuery.Proofs.Compile.Meaning
import RecordQuery.Proofs.Compile.Quotations
import RecordQuery.Proofs.Filter.Terms

/-! # Compiled expressions are terms

What an expression compiles to can stand anywhere without parentheses around it
(`Compiled.standalone`). That is what the compiler relies on where it puts the filters of operands
into that of their node: each of them stands there as a whole term (`Compiled.operands`). -/

namespace RecordQuery

/-- The right operand of an operator as it is compiled: the pattern of `LIKE` becomes a regular
expression. -/
def BinaryOp.compiled (op : BinaryOp) (r : Expr) : Expr :=
  match op, r with
  | .like, .literal (.string p) | .notLike, .literal (.string p) => .literal (.string (likeRegex p))
  | _, r => r

namespace Expr

/-- The operands of an expression. -/
def operands : Expr → List Expr
  | .unary _ e => [e]
  | .binary _ l r => [l, r]
  | .between _ value low high => [value, low, high]
  | .listed _ value items => value :: items
  | .call _ args _ => args
  | _ => []

/-- The operands of an expression as they are compiled. -/
def compiledOperands : Expr → List Expr
  | .binary op l r => [l, op.compiled r]
  | e => e.operands

variable {e : Expr}

/-- The nodes of an operand are nodes of its expression. -/
theorem nodes_operands {o : Expr} (h : o ∈ e.operands) : ∀ n ∈ o.nodes, n ∈ e.nodes := by
  intro n hn
  cases e with
  | unary | binary | between =>
    simp only [operands, List.mem_cons, List.not_mem_nil, or_false] at h
    rcases h with rfl | rfl | rfl <;> simp [nodes, hn]
  | listed negated value items =>
    rcases List.mem_cons.mp h with rfl | h
    · simp [nodes, hn]
    · have hitems : n ∈ nodesOf items := nodesOf_eq items ▸ List.mem_flatMap.mpr ⟨o, h, hn⟩
      simp [nodes, hitems]
  | call name args place =>
    exact List.mem_cons_of_mem _ (nodesOf_eq args ▸ List.mem_flatMap.mpr ⟨o, h, hn⟩)
  | _ => cases h

theorem AllGrammatical.operands (h : e.AllGrammatical) : ∀ o ∈ e.operands, o.AllGrammatical :=
  fun _ ho n hn => h n (nodes_operands ho n hn)

end Expr

namespace Compile

open RecordQuery.Filter

variable {s s' s₁ s₂ : Names} {f g : Filter}

/-! ### Names of parameters -/

theorem mem_asks_binary {op : BinaryOp} {l r : Expr} {n : UInt32} {name : String} :
    .parameter name ∈ (Expr.binary op l r).asks n ↔
      .parameter name ∈ l.asks n ∨ .parameter name ∈ r.asks (l.counted n) := by
  simp [Expr.asks]

/-- **The parameters of a compiled expression** have names that are words. -/
theorem Compiled.named {j : Job} (h : Compiled j s s') :
    ∀ n name, .parameter name ∈ j.asks n → Mark.IsName name := by
  have hbinary {op : BinaryOp} {l r : Expr}
      (hl : ∀ n name, .parameter name ∈ l.asks n → Mark.IsName name)
      (hr : ∀ n name, .parameter name ∈ r.asks n → Mark.IsName name) (n : UInt32) (name : String)
      (hname : .parameter name ∈ (Expr.binary op l r).asks n) : Mark.IsName name :=
    (mem_asks_binary.mp hname).elim (hl _ _) (hr _ _)
  have hpattern {e : Expr} {pattern : String} (hp : pattern? e = some pattern) (n : UInt32)
      (name : String) (hname : .parameter name ∈ e.asks n) : Mark.IsName name := by
    rw [asks_pattern hp] at hname
    cases hname
  induction h with
  | literal | column | none | noArgument => exact fun _ _ => nofun
  | @parameter p position name s s' h =>
    intro n name' hname
    cases List.mem_singleton.mp hname
    cases p with
    | next | numbered => exact isName_positional _
    | named sigil given =>
      obtain ⟨rfl, -⟩ := asked_parameter h
      exact (parameterName_ok (fun _ => .null) h).1
  | unary _ ih => exact ih
  | operator _ _ _ ihl ihr | joined _ _ _ ihl ihr | helper _ _ _ ihl ihr
  | computedRegexp _ _ _ _ ihl ihr | member _ _ _ ihl ihr => exact hbinary ihl ihr
  | like _ hp _ ihl | regexp _ hp _ ihl => exact hbinary ihl (hpattern hp)
  | between _ _ _ ihx ihf ihg =>
    intro n name hname
    rcases List.mem_append.mp hname with hname | hname
    · exact ihx _ _ hname
    · rcases List.mem_append.mp hname with hname | hname
      · exact ihf _ _ hname
      · exact ihg _ _ hname
  | listed _ _ ih ihs | more _ _ ih ihs | argument _ _ ih ihs =>
    intro n name hname
    rcases List.mem_append.mp hname with hname | hname
    · exact ih _ _ hname
    · exact ihs _ _ hname
  | call _ _ _ ih => exact ih

theorem wellNamed_of_asks (h : ∀ name, .parameter name ∈ f.asks → Mark.IsName name) :
    f.WellNamed := by
  intro v hv
  cases v with
  | bound n => exact isName_bound n
  | place => exact isName_of_isVariableName (by decide)
  | named name => exact h name (mem_asks_parameter.mpr hv)

theorem Compiled.wellNamed {e : Expr} (h : Compiled (.expr e f) s s') : f.WellNamed :=
  wellNamed_of_asks fun name hname =>
    h.named s.positional name (h.asked.filters.mem_iff.mp hname)

/-! ### Terms -/

/-- What is said of the filter of an expression. -/
def Job.Standalone : Job → Prop
  | .expr e f => e.AllGrammatical → f.Standalone
  | _ => True

theorem standalone_literal {v : Literal} (h : (Expr.literal v).AllGrammatical) :
    (literal v).Standalone := by
  cases v with
  | number n => exact .number (h _ List.mem_cons_self)
  | string s | blob s => exact .string s
  | boolean b => exact .boolean b
  | null => exact .null
  | currentTime | currentDate | currentTimestamp => exact .group _

/-- **What an expression compiles to** needs no parentheses. -/
theorem Compiled.standalone {j : Job} (h : Compiled j s s') : j.Standalone := by
  induction h with
  | literal v => exact standalone_literal
  | column => exact fun _ => .field _
  | parameter => exact fun _ => .variable _
  | @unary op e f s s' _ ih =>
    intro hg
    cases op with
    | plus => exact ih (List.forall_mem_cons.mp hg).2
    | _ => exact .group _
  | @joined op join l r f g s s₁ s₂ ho =>
    intro _
    cases op <;> cases ho <;> exact .group _
  | helper _ _ _ ihl ihr =>
    intro hg
    obtain ⟨hl, hr⟩ := List.forall_mem_append.mp (List.forall_mem_cons.mp hg).2
    exact .helper _ (ihl hl) (ihr hr)
  | operator | like | regexp | computedRegexp | member | between | listed | call =>
    exact fun _ => .group _
  | none | more | noArgument | argument => trivial

/-! ### Operands -/

theorem holds_binding (f body : Filter) (v : Variable) : Holds (binding f v body).marks f :=
  ((holds_group f).value v body).group

theorem holds_bound {body : Filter} (h : Holds body.marks g) (f : Filter) (v : Variable) :
    Holds (binding f v body).marks g := (h.body (.group f) v).group

theorem holds_negatedIf (h : Holds f.marks g) (negated : Bool) :
    Holds (negatedIf negated f).marks g := by
  cases negated with
  | false => exact h
  | true => exact h.pipeLeft _

theorem holds_tested (f pattern : Filter) (negated : Bool) (v : Variable) :
    Holds (tested f pattern negated v).marks f ∧
      Holds (tested f pattern negated v).marks pattern := by
  refine ⟨holds_binding _ _ _, ?_⟩
  have htest := holds_negatedIf (holds_first .test pattern (.string matchFlags)) negated
  exact holds_bound (((htest.pipeRight _).pipeRight _).group.otherwise _ _) f v

theorem holds_oneOf (negated : Bool) (f : Filter) (fs : List Filter) (v : Variable) :
    Holds (oneOf negated f fs v).marks f ∧ ∀ g ∈ fs, Holds (oneOf negated f fs v).marks g :=
  ⟨holds_binding _ _ _, fun _ hg => holds_bound (holds_negatedIf (holds_items hg _) negated) f v⟩

theorem holds_inRange (negated : Bool) (x f g : Filter) (v : Variable) :
    Holds (inRange negated x f g v).marks x ∧ Holds (inRange negated x f g v).marks f ∧
      Holds (inRange negated x f g v).marks g := by
  refine ⟨holds_binding _ _ _, ?_⟩
  cases negated with
  | false =>
    obtain ⟨hf, hg⟩ := holds_inner .and .greaterEqual .lessEqual f g (.variable v) (.variable v)
    exact ⟨holds_bound hf x v, holds_bound hg x v⟩
  | true =>
    obtain ⟨hf, hg⟩ := holds_inner .or .less .greater f g (.variable v) (.variable v)
    exact ⟨holds_bound hf x v, holds_bound hg x v⟩

theorem holds_joinedBy {op : BinaryOp} {join : Filter → Filter → Filter}
    (ho : rule op = .joined join) (f g : Filter) :
    Holds (join f g).marks f ∧ Holds (join f g).marks g := by
  have hpower : Holds (powerOfTwo g).marks g := holds_second .pow (digit 2) g
  cases op <;> cases ho
  case concat =>
    have hpair (x : Filter) (hx : x ∈ [f, g]) : Holds (Filter.array (.sequence [f, g])).marks x :=
      holds_array hx
    exact ⟨((hpair f (by simp)).pipeLeft _).group, ((hpair g (by simp)).pipeLeft _).group⟩
  case shiftLeft => exact ⟨holds_left .multiply f _, (hpower.operationRight .multiply f).group⟩
  case shiftRight =>
    exact ⟨((holds_left .divide f _).pipeLeft _).group,
      ((hpower.operationRight .divide f).group.pipeLeft _).group⟩

theorem holds_callFilter (q : QueryFunction) {bs : List (Filter × Variable)}
    {b : Filter × Variable} (hb : b ∈ bs) : Holds (callFilter q bs).marks b.1 := by
  have hfold (body : Filter) :
      Holds (bs.foldr (fun b body => Filter.bind (.group b.1) b.2 body) body).marks b.1 := by
    induction bs with
    | nil => cases hb
    | cons c bs ih =>
      rcases List.mem_cons.mp hb with rfl | hb
      · exact (holds_group _).value _ _
      · exact (ih hb).body _ _
  rw [callFilter_eq]
  exact (hfold _).group

/-- An expression compiles to a filter, behind some names. -/
def CompilesTo (e : Expr) (f : Filter) : Prop := ∃ s s', (expr e).run s = .ok f s'

/-- The filters of operands stand in that of their node, or that is the filter of its one operand.
-/
def Job.Operands : Job → Prop
  | .expr e f => ∀ o ∈ e.compiledOperands, ∃ g, CompilesTo o g ∧ (f = g ∨ Holds f.marks g)
  | .exprs es fs => ∀ o ∈ es, ∃ g ∈ fs, CompilesTo o g
  | .arguments es bs => ∀ o ∈ es, ∃ b ∈ bs, CompilesTo o b.1

theorem holds_unary (op : UnaryOp) (f : Filter) :
    unary op f = f ∨ Holds (unary op f).marks f := by
  cases op with
  | plus => exact .inl rfl
  | negate => exact .inr (holds_group f).negate.group
  | bitNot => exact .inr ((holds_group f).negate.operationLeft _ _).group
  | not => exact .inr (holds_pipe f _)
  | isNull | notNull => exact .inr (holds_left _ f _)

theorem compiled_of_rule {op : BinaryOp} (h : ∀ negated, rule op ≠ .like negated) (r : Expr) :
    op.compiled r = r := by
  cases op <;> first | rfl | exact absurd rfl (h _)

theorem compiled_like {op : BinaryOp} {negated : Bool} {r : Expr} {pattern : String}
    (ho : rule op = .like negated) (hp : pattern? r = some pattern) :
    op.compiled r = .literal (.string (likeRegex pattern)) := by
  obtain rfl := pattern?_eq hp
  cases op <;> cases ho <;> rfl

/-- **The filters of operands** stand in the filter of their node as whole terms. -/
theorem Compiled.operands {j : Job} (h : Compiled j s s') : j.Operands := by
  have hpair {op : BinaryOp} {l r : Expr} {x f g : Filter} (hl : CompilesTo l f)
      (hr : CompilesTo (op.compiled r) g) (hx : Holds x.marks f ∧ Holds x.marks g) :
      (Job.expr (.binary op l r) x).Operands :=
    List.forall_mem_cons.mpr ⟨⟨f, hl, .inr hx.1⟩, List.forall_mem_singleton.mpr ⟨g, hr, .inr hx.2⟩⟩
  have hplain {op : BinaryOp} {l r : Expr} {x f g : Filter} {s s₁ s₂ : Names}
      (ho : ∀ negated, rule op ≠ .like negated) (hl : Compiled (.expr l f) s s₁)
      (hr : Compiled (.expr r g) s₁ s₂) (hx : Holds x.marks f ∧ Holds x.marks g) :
      (Job.expr (.binary op l r) x).Operands :=
    hpair ⟨_, _, hl.runs⟩ ((compiled_of_rule ho r).symm ▸ ⟨_, _, hr.runs⟩) hx
  induction h with
  | literal | column | parameter | none | noArgument => exact nofun
  | unary h => exact List.forall_mem_singleton.mpr ⟨_, ⟨_, _, h.runs⟩, holds_unary _ _⟩
  | operator ho hl hr =>
    exact hplain (by rw [ho]; exact nofun) hl hr ⟨holds_left _ _ _, holds_right _ _ _⟩
  | joined ho hl hr => exact hplain (by rw [ho]; exact nofun) hl hr (holds_joinedBy ho _ _)
  | helper ho hl hr => exact hplain (by rw [ho]; exact nofun) hl hr (holds_helper _ _ _)
  | like ho hp hl =>
    exact hpair ⟨_, _, hl.runs⟩ ((compiled_like ho hp).symm ▸ ⟨{}, _, rfl⟩) (holds_tested _ _ _ _)
  | regexp ho hp hl =>
    obtain rfl := pattern?_eq hp
    exact hplain (by rw [ho]; exact nofun) hl (.literal (.string _) _) (holds_tested _ _ _ _)
  | computedRegexp ho _ hl hr =>
    exact hplain (by rw [ho]; exact nofun) hl hr
      ⟨holds_bound (holds_tested _ _ _ _).1 _ _, holds_binding _ _ _⟩
  | member ho hl hr =>
    obtain ⟨hf, hg⟩ := holds_oneOf _ _ _ _
    exact hplain (by rw [ho]; exact nofun) hl hr ⟨hf, hg _ List.mem_cons_self⟩
  | between hx hf hg =>
    obtain ⟨h₁, h₂, h₃⟩ := holds_inRange _ _ _ _ _
    exact List.forall_mem_cons.mpr ⟨⟨_, ⟨_, _, hx.runs⟩, .inr h₁⟩, List.forall_mem_cons.mpr
      ⟨⟨_, ⟨_, _, hf.runs⟩, .inr h₂⟩, List.forall_mem_singleton.mpr ⟨_, ⟨_, _, hg.runs⟩, .inr h₃⟩⟩⟩
  | listed hx _ _ ihs =>
    obtain ⟨hvalue, hitems⟩ := holds_oneOf _ _ _ _
    refine List.forall_mem_cons.mpr ⟨⟨_, ⟨_, _, hx.runs⟩, .inr hvalue⟩, fun o ho => ?_⟩
    obtain ⟨g, hg, hruns⟩ := ihs o ho
    exact ⟨g, hruns, .inr (hitems g hg)⟩
  | call _ _ _ ih =>
    intro o ho
    obtain ⟨b, hb, hruns⟩ := ih o ho
    exact ⟨b.1, hruns, .inr (holds_callFilter _ hb)⟩
  | more h _ _ ihs =>
    refine List.forall_mem_cons.mpr ⟨⟨_, List.mem_cons_self, _, _, h.runs⟩, fun o ho => ?_⟩
    obtain ⟨g, hg, hruns⟩ := ihs o ho
    exact ⟨g, List.mem_cons_of_mem _ hg, hruns⟩
  | argument h _ _ ihs =>
    refine List.forall_mem_cons.mpr ⟨⟨_, List.mem_cons_self, _, _, h.runs⟩, fun o ho => ?_⟩
    obtain ⟨b, hb, hruns⟩ := ihs o ho
    exact ⟨b, List.mem_cons_of_mem _ hb, hruns⟩

/-! ### Runs -/

variable {e : Expr}

theorem compilesTo_of_mem {es : List Expr} {fs : List Filter}
    (h : Compiled (.exprs es fs) s s') (hf : f ∈ fs) : ∃ e ∈ es, CompilesTo e f := by
  induction es generalizing fs s with
  | nil =>
    cases h
    cases hf
  | cons e es ih =>
    cases h with
    | more he hs =>
      rcases List.mem_cons.mp hf with rfl | hf
      · exact ⟨e, List.mem_cons_self, _, _, he.runs⟩
      · obtain ⟨e', he', hruns⟩ := ih hs hf
        exact ⟨e', List.mem_cons_of_mem _ he', hruns⟩

theorem CompilesTo.wellNamed (h : CompilesTo e f) : f.WellNamed := by
  obtain ⟨s, s', hrun⟩ := h
  exact (compiled_of_run e f s s' hrun).wellNamed

/-- **The fragment of an expression** is a term, with nothing in its quotes. -/
theorem CompilesTo.isTerm (h : CompilesTo e f) (hg : e.AllGrammatical) : IsTerm f.outline := by
  obtain ⟨s, s', hrun⟩ := h
  have hcompiled := compiled_of_run e f s s' hrun
  exact (hcompiled.standalone hg).isTerm hcompiled.wellNamed

/-- **The fragments of operands** stand in that of their expression as whole terms. -/
theorem CompilesTo.operands (h : CompilesTo e f) :
    ∀ o ∈ e.compiledOperands, ∃ g, CompilesTo o g ∧ StandsIn g.text.toList f.text.toList := by
  have hnamed := h.wellNamed
  obtain ⟨s, s', hrun⟩ := h
  intro o ho
  obtain ⟨g, hg, rfl | hholds⟩ := (compiled_of_run e f s s' hrun).operands o ho
  · exact ⟨f, hg, .whole⟩
  · exact ⟨g, hg, hholds.standsIn hnamed⟩

theorem compiled_cases (op : BinaryOp) (r : Expr) : op.compiled r = r ∨
    ∃ p, r = .literal (.string p) ∧ op.compiled r = .literal (.string (likeRegex p)) := by
  unfold BinaryOp.compiled
  split
  · exact .inr ⟨_, rfl, rfl⟩
  · exact .inr ⟨_, rfl, rfl⟩
  · exact .inl rfl

/-- An operand is compiled as it is, or it is a text that becomes another one. -/
theorem mem_compiledOperands {o : Expr} (h : o ∈ e.operands) : o ∈ e.compiledOperands ∨
    ∃ p q, o = .literal (.string p) ∧ .literal (.string q) ∈ e.compiledOperands := by
  cases e with
  | binary op l r =>
    rcases List.mem_cons.mp h with rfl | h
    · exact .inl List.mem_cons_self
    · obtain rfl := List.mem_singleton.mp h
      have hmem {x : Expr} (hx : op.compiled o = x) :
          x ∈ (Expr.binary op l o).compiledOperands := by
        subst hx
        exact List.mem_cons_of_mem _ List.mem_cons_self
      obtain heq | ⟨p, hp, heq⟩ := compiled_cases op o
      · exact .inl (hmem heq)
      · exact .inr ⟨p, _, hp, hmem heq⟩
  | _ => exact .inl h

theorem outline_string (s : String) : (Filter.string s).outline = (Json.quote "").toList := by
  have hnamed : (Filter.string s).WellNamed := by simp [WellNamed, marks]
  rw [hnamed.outline]
  exact List.append_nil _

/-- With nothing in the quotes, that holds of the operands as they were read. -/
theorem CompilesTo.outlines (h : CompilesTo e f) :
    ∀ o ∈ e.operands, ∃ g, CompilesTo o g ∧ StandsIn g.outline f.outline := by
  have houtline {o : Expr} (ho : o ∈ e.compiledOperands) :
      ∃ g, CompilesTo o g ∧ StandsIn g.outline f.outline := by
    obtain ⟨g, hg, hstands⟩ := h.operands o ho
    exact ⟨g, hg, hstands.blank hg.wellNamed.after⟩
  intro o ho
  obtain ho | ⟨p, q, rfl, hq⟩ := mem_compiledOperands ho
  · exact houtline ho
  · obtain ⟨g, ⟨s, s', hrun⟩, hstands⟩ := houtline hq
    cases hrun
    change StandsIn (Filter.string q).outline f.outline at hstands
    refine ⟨.string p, ⟨{}, _, rfl⟩, ?_⟩
    rw [outline_string p, ← outline_string q]
    exact hstands

end Compile

end RecordQuery
