import RecordQuery.Proofs.Compile.Terms
import RecordQuery.Proofs.Program.Checks
import RecordQuery.Proofs.Program.Closed

/-! # Programs are put together from terms

Each fragment of a program is a term, with the fragments of its operands in it as whole terms. So
the brackets of a whole program are balanced outside of quotes (`balanced_text`), and it starts with
its array of rows or with a definition (`fragments_are_terms`). -/

namespace RecordQuery.Program

open RecordQuery.Filter Mark Compile

variable {p : Program}

/-! ### Names in the filter of a program -/

theorem asks_followedBy (f : Filter) (o : Option Filter) :
    (followedBy f o).asks = f.asks ++ o.toList.flatMap Filter.asks := by
  cases o <;> simp [followedBy]

theorem asks_order (o : RowOrder) : o.filter.asks = [] := by
  have hkeys : (Filter.call .sortBy [.sequence (o.keys.map .field)]).asks = [] := by
    simp [List.flatMap_map]
  unfold RowOrder.filter
  cases o.direction with
  | ascending => exact hkeys
  | descending =>
    rw [asks_pipe, hkeys, asks_apply]
    rfl

theorem asks_limit (s : Slice) : s.filter.asks = [] := by
  unfold Slice.filter
  cases s.first <;> cases s.stop <;> simp

/-- Only the condition and the rows of a program ask for anything. -/
theorem asks_filter : p.filter.asks = p.fragments.flatMap Filter.asks := by
  have hdistinct : ((if p.distinct then some (Filter.apply .unique) else none).toList.flatMap
      Filter.asks) = [] := by
    split <;> simp
  have horder : (p.order.map RowOrder.filter).toList.flatMap Filter.asks = [] := by
    cases p.order <;> simp [asks_order]
  have hslice : (p.slice.map Slice.filter).toList.flatMap Filter.asks = [] := by
    cases p.slice <;> simp [asks_limit]
  have hcondition : (p.condition.map selection).toList.flatMap Filter.asks =
      p.condition.toList.flatMap Filter.asks := by
    cases p.condition <;> simp [selection]
  unfold filter fragments
  simp only [asks_followedBy, asks_array, hdistinct, horder, hslice, hcondition,
    List.flatMap_append, List.append_nil, asks_elements, List.nil_append]

theorem wellNamed_filter {st : Statement} (h : ofStatement st = .ok p) : p.filter.WellNamed := by
  obtain ⟨projection, s, s', hfrom⟩ := compiledFrom_ofStatement h
  have hparts := compiled_parts hfrom
  refine wellNamed_of_asks fun name hname => hparts.named 0 name ?_
  rw [asks_filter, asks_fragments] at hname
  exact (hparts.asked.filters.mem_iff (a := .parameter name)).mp hname

/-! ### Texts of programs -/

/-- A program starts with its array of rows. -/
theorem toList_filter : ∃ rest, p.filter.text.toList = '[' :: rest := by
  have hfront {f : Filter} (h : ∃ rest, f.text.toList = '[' :: rest) (o : Option Filter) :
      ∃ rest, (followedBy f o).text.toList = '[' :: rest := by
    obtain ⟨rest, hrest⟩ := h
    cases o with
    | none => exact ⟨rest, hrest⟩
    | some g =>
      refine ⟨rest ++ (" | " ++ g.text).toList, ?_⟩
      rw [followedBy, Filter.text, String.append_assoc, String.toList_append, hrest]
      rfl
  have harray (f : Filter) : ∃ rest, (Filter.array f).text.toList = '[' :: rest := by
    refine ⟨(f.text ++ "]").toList, ?_⟩
    rw [Filter.text, String.append_assoc, String.toList_append]
    rfl
  exact hfront (hfront (hfront (harray _) _) _) _

theorem spelled_balanced (h : Helper) : '"' ∉ h.spelled ∧ Balanced h.spelled := by
  cases h <;> decide +kernel

theorem prelude_balanced (hs : List Helper) :
    '"' ∉ (Helper.prelude hs).toList ∧ Balanced (Helper.prelude hs).toList := by
  rw [Helper.toList_prelude]
  induction hs with
  | nil => exact ⟨List.not_mem_nil, rfl⟩
  | cons h hs ih =>
    obtain ⟨hclean, hbalanced⟩ := spelled_balanced h
    rw [List.flatMap_cons]
    exact ⟨fun hmem => (List.mem_append.mp hmem).elim hclean ih.1, hbalanced.append ih.2⟩

/-- **The text of a program**: all its quotes are closed, and its brackets are balanced outside of
them. -/
theorem balanced_text {st : Statement} (h : ofStatement st = .ok p) :
    TextState.after .outside p.text.toList = .outside ∧
      Balanced (TextState.blank .outside p.text.toList) := by
  have hnamed := wellNamed_filter h
  obtain ⟨hclean, hbalanced⟩ := prelude_balanced p.helpers
  obtain ⟨hblank, -, hafter⟩ := after_outside hclean p.filter.text.toList
  unfold text prelude
  rw [String.toList_append, hblank, hafter]
  exact ⟨hnamed.after, hbalanced.append hnamed.balanced⟩

/-- A program starts with a definition or with its array of rows. -/
theorem text_start : ['['] <+: p.text.toList ∨ "def ".toList <+: p.text.toList := by
  unfold text prelude
  rw [String.toList_append, Helper.toList_prelude]
  cases p.helpers with
  | nil =>
    obtain ⟨rest, hrest⟩ := toList_filter (p := p)
    exact .inl ⟨rest, hrest.symm⟩
  | cons h hs =>
    have hdef : "def ".toList <+: h.spelled := by cases h <;> decide +kernel
    rw [List.flatMap_cons, List.append_assoc]
    exact .inr (hdef.trans (List.prefix_append ..))

/-- The condition and the columns of a program are terms, with nothing in their quotes. -/
theorem isTerm_parts {st : Statement} (hst : st.AllGrammatical) (h : ofStatement st = .ok p) :
    ∀ f ∈ p.parts, IsTerm f.outline := by
  obtain ⟨projection, s, s', hfrom⟩ := compiledFrom_ofStatement h
  intro f hf
  obtain ⟨e, he, hruns⟩ := compilesTo_of_mem (compiled_parts hfrom) hf
  exact hruns.isTerm (hst.exprs e he)

/-- **Fragments are terms.** With nothing in its quotes, the fragment of an expression is a number,
a text, a constant, a variable, a look-up, a call of a defined function or something in parentheses,
its brackets are balanced, and the fragments of its operands stand in it as whole terms; so do, with
what is in the quotes, those of its operands as they are compiled. Expressions that are read from a
query are of that kind, and so are their operands. The condition and the columns of a program are
such fragments. Outside of quotes, all of which are closed, the brackets of its text are balanced,
and it starts with an array or with a definition. -/
theorem fragments_are_terms :
    (∀ e f, e.AllGrammatical → CompilesTo e f →
      IsTerm f.outline ∧ Balanced f.outline ∧
      (∀ o ∈ e.operands, o.AllGrammatical ∧
        ∃ g, CompilesTo o g ∧ StandsIn g.outline f.outline) ∧
      ∀ o ∈ e.compiledOperands, ∃ g, CompilesTo o g ∧ StandsIn g.text.toList f.text.toList) ∧
    (∀ q st, Statement.ofText q = .ok st → st.AllGrammatical) ∧
    ∀ q p, ofText q = .ok p →
      (∀ f ∈ p.parts, IsTerm f.outline) ∧
      TextState.after .outside p.text.toList = .outside ∧
      Balanced (TextState.blank .outside p.text.toList) ∧
      (['['] <+: p.text.toList ∨ "def ".toList <+: p.text.toList) := by
  refine ⟨fun e f he hf => ?_, fun q st => Statement.ofText_grammatical, fun q p h => ?_⟩
  · have hterm := hf.isTerm he
    exact ⟨hterm, hterm.balanced, fun o ho => ⟨he.operands o ho, hf.outlines o ho⟩, hf.operands⟩
  · obtain ⟨st, hst, hcompiled⟩ := ofStatement_of_ofText h
    obtain ⟨hclosed, hbalanced⟩ := balanced_text hcompiled
    exact ⟨isTerm_parts (Statement.ofText_grammatical hst) hcompiled, hclosed, hbalanced,
      text_start⟩

/-- A call with a text that looks like its closing bracket. -/
theorem fragments_are_terms_call :
    (∃ e f, e.AllGrammatical ∧ CompilesTo e f ∧ f.text = "_mql_bitand(.[\"a\"]; \")\")" ∧
      IsTerm f.outline ∧ ∃ g, CompilesTo (.column (.bare "a")) g ∧ StandsIn g.outline f.outline) ∧
    ∃ st p, Statement.ofText "SELECT * WHERE a & ')'" = .ok st ∧
      ofText "SELECT * WHERE a & ')'" = .ok p ∧ st.AllGrammatical ∧
      Balanced (TextState.blank .outside p.text.toList) := by
  obtain ⟨hexprs, hstatements, hprograms⟩ := fragments_are_terms
  constructor
  · have he : (Expr.binary .bitAnd (.column (.bare "a")) (.literal (.string ")"))).AllGrammatical := by
      intro n hn
      simp only [Expr.nodes, List.cons_append, List.nil_append, List.mem_cons, List.not_mem_nil,
        or_false] at hn
      rcases hn with rfl | rfl | rfl <;> trivial
    have hf : CompilesTo (.binary .bitAnd (.column (.bare "a")) (.literal (.string ")")))
        (.helper .bitAnd (.field "a") (.string ")")) := ⟨{}, _, rfl⟩
    obtain ⟨hterm, -, hoperands, -⟩ := hexprs _ _ he hf
    exact ⟨_, _, he, hf, by decide, hterm, (hoperands _ List.mem_cons_self).2⟩
  · obtain ⟨st, hst, -⟩ := ok_of_any (r := Statement.ofText "SELECT * WHERE a & ')'")
      (p := fun _ => true) (by decide +kernel)
    obtain ⟨p, hp, -⟩ := ok_of_any (r := ofText "SELECT * WHERE a & ')'") (p := fun _ => true)
      (by decide +kernel)
    obtain ⟨-, -, hbalanced, -⟩ := hprograms _ p hp
    exact ⟨st, p, hst, hp, hstatements _ st hst, hbalanced⟩

end RecordQuery.Program
