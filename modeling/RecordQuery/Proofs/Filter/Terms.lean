import RecordQuery.Proofs.Filter.Balance
import RecordQuery.Proofs.Number.Written
import RecordQuery.Proofs.Query.Nodes

/-! # Terms

A text that can stand anywhere in a program, whatever is around it (`IsTerm`): a number, a text, a
constant, a variable, a look-up of a field, a call of a defined function, and anything in
parentheses. Texts in quotes are empty here.

* `Filter.Standalone` says it of filters, and `Standalone.isTerm` of their outlines.
* A text stands in another one as a whole term (`StandsIn`) if it stands there outside of quotes,
  behind an opening bracket, a separator or an operator, and in front of such a mark that ends a
  term. `Filter.Holds` says it of marks. -/

namespace RecordQuery

/-! ### Texts -/

/-- **A term**, with nothing in its quotes. -/
inductive IsTerm : List Char → Prop
  | number {l : NumberLiteral} (h : l.Proper) : IsTerm l.text.toList
  | string : IsTerm ['"', '"']
  | constant {w : String} (h : w ∈ ["true", "false", "null"]) : IsTerm w.toList
  | variable {name : String} (h : Mark.IsName name) : IsTerm ('$' :: name.toList)
  | field : IsTerm ['.', '[', '"', '"', ']']
  | call {h : Helper} {a b : List Char} (ha : IsTerm a) (hb : IsTerm b) :
      IsTerm (h.name.toList ++ '(' :: (a ++ ';' :: ' ' :: (b ++ [')'])))
  | group {body : List Char} (h : Balanced body) : IsTerm ('(' :: (body ++ [')']))

/-- What can stand right in front of a term. -/
inductive IsOpening : List Char → Prop
  | bracket (b : Bracket) : IsOpening (Punctuation.opening b).text.toList
  | separator {p : Punctuation} (h : p = .comma ∨ p = .semicolon) :
      IsOpening (p.text.toList ++ [' '])
  | operator (op : Operator) : IsOpening (' ' :: (op.text.toList ++ [' ']))

/-- What can stand right behind a term. -/
inductive IsClosing : List Char → Prop
  | bracket (b : Bracket) : IsClosing (Punctuation.closing b).text.toList
  | separator {p : Punctuation} (h : p = .comma ∨ p = .semicolon) :
      IsClosing (p.text.toList ++ [' '])
  | operator (op : Operator) : IsClosing (' ' :: (op.text.toList ++ [' ']))
  | bar : IsClosing [' ', '|', ' ']

/-- A text behind which a term can stand. -/
def Opens (cs : List Char) : Prop := ∃ last, IsOpening last ∧ last <:+ cs

/-- A text in front of which a term can stand. -/
def Closes (cs : List Char) : Prop := ∃ first, IsClosing first ∧ first <+: cs

theorem Opens.front {cs : List Char} (h : Opens cs) (ds : List Char) : Opens (ds ++ cs) := by
  obtain ⟨last, hlast, hsuffix⟩ := h
  exact ⟨last, hlast, hsuffix.trans (List.suffix_append ..)⟩

theorem Closes.back {cs : List Char} (h : Closes cs) (ds : List Char) : Closes (cs ++ ds) := by
  obtain ⟨first, hfirst, hprefix⟩ := h
  exact ⟨first, hfirst, hprefix.trans (List.prefix_append ..)⟩

theorem clean_operator (op : Operator) : '"' ∉ ' ' :: (op.text.toList ++ [' ']) := by
  cases op <;> decide

theorem IsOpening.clean {cs : List Char} (h : IsOpening cs) : '"' ∉ cs := by
  cases h with
  | bracket b => cases b <;> decide
  | separator h => rcases h with rfl | rfl <;> decide
  | operator op => exact clean_operator op

theorem IsClosing.clean {cs : List Char} (h : IsClosing cs) : '"' ∉ cs := by
  cases h with
  | bracket b => cases b <;> decide
  | separator h => rcases h with rfl | rfl <;> decide
  | operator op => exact clean_operator op
  | bar => decide

/-- **A text that stands in another one as a whole term**, or is that text. -/
inductive StandsIn (cs : List Char) : List Char → Prop
  | whole : StandsIn cs cs
  | inside {before behind : List Char} (ho : Opens before)
      (hq : TextState.after .outside before = .outside) (hc : Closes behind) :
      StandsIn cs (before ++ (cs ++ behind))

namespace TextState

theorem after_append (s : TextState) (cs ds : List Char) :
    s.after (cs ++ ds) = (s.after cs).after ds := List.foldl_append

theorem after_cons (s : TextState) (c : Char) (cs : List Char) :
    s.after (c :: cs) = (s.step c).after cs := rfl

theorem blank_append (s : TextState) (cs ds : List Char) :
    s.blank (cs ++ ds) = s.blank cs ++ (s.after cs).blank ds := by
  induction cs generalizing s with
  | nil => rfl
  | cons c cs ih =>
    rw [List.cons_append, blank, blank, ih]
    split <;> rfl

/-- A text without quotes does not lead out of quotes. -/
theorem outside_of_after {s : TextState} {cs : List Char} (h : '"' ∉ cs)
    (ha : s.after cs = outside) : s = outside := by
  induction cs generalizing s with
  | nil => exact ha
  | cons c cs ih =>
    rw [List.mem_cons, not_or] at h
    have hstep : s.step c = outside := ih h.2 ha
    cases s with
    | outside => rfl
    | inside =>
      rw [step, if_neg (Ne.symm h.1)] at hstep
      split at hstep <;> cases hstep
    | escaped => cases hstep

/-- A reader of a text with nothing in its quotes never stands behind a backslash. -/
def settled : TextState → TextState
  | outside => outside
  | inside | escaped => inside

theorem after_blank (s : TextState) (cs : List Char) :
    s.settled.after (s.blank cs) = (s.after cs).settled := by
  induction cs generalizing s with
  | nil => rfl
  | cons c cs ih =>
    cases s with
    | outside =>
      by_cases hquote : c = '"'
      · simpa [blank, after_cons, step, settled, hquote] using ih inside
      · simpa [blank, after_cons, step, settled, hquote] using ih outside
    | inside =>
      by_cases hquote : c = '"'
      · simpa [blank, after_cons, step, settled, hquote] using ih outside
      by_cases hslash : c = '\\'
      · simpa [blank, after_cons, step, settled, hslash] using ih escaped
      · simpa [blank, after_cons, step, settled, hquote, hslash] using ih inside
    | escaped => exact ih inside

theorem blank_clean {cs : List Char} (h : '"' ∉ cs) (ds : List Char) :
    outside.blank (cs ++ ds) = cs ++ outside.blank ds := (Mark.after_outside h ds).1

end TextState

theorem Opens.blank {cs : List Char} (h : Opens cs) (ha : TextState.after .outside cs = .outside) :
    Opens (TextState.blank .outside cs) := by
  obtain ⟨last, hlast, front, rfl⟩ := h
  rw [TextState.after_append] at ha
  have hfront := TextState.outside_of_after hlast.clean ha
  have hblank : TextState.blank .outside last = last := by
    simpa [TextState.blank] using TextState.blank_clean hlast.clean []
  rw [TextState.blank_append, hfront, hblank]
  exact ⟨last, hlast, List.suffix_append ..⟩

theorem Closes.blank {cs : List Char} (h : Closes cs) : Closes (TextState.blank .outside cs) := by
  obtain ⟨first, hfirst, behind, rfl⟩ := h
  rw [TextState.blank_clean hfirst.clean]
  exact ⟨first, hfirst, List.prefix_append ..⟩

/-- A text that stands in another one stands there with nothing in the quotes of both. -/
theorem StandsIn.blank {cs ds : List Char} (h : StandsIn cs ds)
    (ha : TextState.after .outside cs = .outside) :
    StandsIn (TextState.blank .outside cs) (TextState.blank .outside ds) := by
  cases h with
  | whole => exact .whole
  | inside ho hq hc =>
    rw [TextState.blank_append, TextState.blank_append, hq, ha]
    refine .inside (ho.blank hq) ?_ hc.blank
    exact (TextState.after_blank .outside _).trans (congrArg TextState.settled hq)

theorem numeral_of_allDigits {ds : List Char} (h : AllDigits ds) : Numeral ds := by
  intro c hc
  rw [isNumeralChar, h c hc]
  rfl

theorem NumberLiteral.Proper.numeral {l : NumberLiteral} (h : l.Proper) :
    Numeral l.text.toList := by
  have hfraction : Numeral (fractionText l.fraction) := by
    unfold fractionText
    split
    · exact numeral_nil
    · exact .cons rfl (numeral_of_allDigits h.fraction)
  have hexponent : Numeral (exponentText l.exponent) := by
    rcases he : l.exponent with _ | ⟨sign, ds⟩
    · exact numeral_nil
    · obtain ⟨hsign, hds, -⟩ := h.exponent _ he
      have hdigits := numeral_of_allDigits hds
      rcases hsign with rfl | rfl | rfl
      · exact .cons rfl hdigits
      · exact .cons rfl (.cons rfl hdigits)
      · exact .cons rfl (.cons rfl hdigits)
  rw [toList_text h]
  exact (numeral_of_allDigits h.whole).append (hfraction.append hexponent)

theorem IsTerm.balanced {cs : List Char} (h : IsTerm cs) : Balanced cs := by
  induction h with
  | number h => exact .of_not_mem (Mark.Numeral.no_bracket h.numeral)
  | string | field => decide
  | constant h =>
    have hall : ∀ w ∈ ["true", "false", "null"], Balanced w.toList := by decide
    exact hall _ h
  | «variable» h =>
    refine .of_not_mem (List.forall_mem_cons.mpr ⟨by decide, fun c hc hmem => ?_⟩)
    exact h.no_bracket c hc (List.mem_cons_of_mem _ hmem)
  | @call d a b _ _ iha ihb =>
    have hname : Balanced d.name.toList := by cases d <;> decide
    have hbetween : Balanced [';', ' '] := by decide
    have hargs : Balanced (a ++ ([';', ' '] ++ b)) := iha.append (hbetween.append ihb)
    have hall := hname.append hargs.inParens
    simpa using hall
  | group h => exact h.inParens

/-! ### Filters -/

/-- A number without a minus sign is written as a literal. -/
theorem Number.Unsigned.text {n : Number} (h : n.Unsigned) :
    ∃ l : NumberLiteral, l.Proper ∧ n.text.toList = l.text.toList := by
  cases n with
  | integer n =>
    refine ⟨_, proper_integerLiteral n.toInt, ?_⟩
    rw [Number.text, toList_integer, decide_eq_false (not_lt.mpr h)]
    rfl
  | real d =>
    refine ⟨_, d.proper_literal, ?_⟩
    rw [Number.text, Decimal.toList_text, decide_eq_false (not_lt.mpr h)]
    rfl
  | float x =>
    have hx : x.negative = false := h
    refine ⟨_, Number.floatStyle.proper_literal x, ?_⟩
    rw [Number.text, FloatStyle.toList_write, hx]
    rfl

namespace Filter

open Mark

/-- **A filter that needs no parentheses.** -/
inductive Standalone : Filter → Prop
  | number {n : Number} (h : n.Unsigned) : Standalone (.number n)
  | string (s : String) : Standalone (.string s)
  | boolean (b : Bool) : Standalone (.boolean b)
  | null : Standalone .null
  | variable (v : Variable) : Standalone (.variable v)
  | field (name : String) : Standalone (.field name)
  | helper (h : Helper) {f g : Filter} (hf : Standalone f) (hg : Standalone g) :
      Standalone (.helper h f g)
  | group (f : Filter) : Standalone (.group f)

variable {f g : Filter}

theorem wellNamed_group : (group f).WellNamed ↔ f.WellNamed := by
  simp [WellNamed, marks, Mark.inside]

theorem wellNamed_helper {h : Helper} :
    (helper h f g).WellNamed ↔ f.WellNamed ∧ g.WellNamed := by
  simp [WellNamed, marks, Mark.inside, or_imp, forall_and]

theorem outline_group (h : f.WellNamed) : (group f).outline = '(' :: (f.outline ++ [')']) := by
  rw [(wellNamed_group.mpr h).outline, h.outline, marks, Mark.inside]
  simp
  rfl

theorem outline_helper {h : Helper} (hf : f.WellNamed) (hg : g.WellNamed) :
    (helper h f g).outline =
      h.name.toList ++ '(' :: (f.outline ++ ';' :: ' ' :: (g.outline ++ [')'])) := by
  rw [(wellNamed_helper.mpr ⟨hf, hg⟩).outline, hf.outline, hg.outline, marks, Mark.inside]
  simp
  rfl

/-- **The outline of such a filter** is a term. -/
theorem Standalone.isTerm (h : f.Standalone) (hn : f.WellNamed) : IsTerm f.outline := by
  have hquotes : (Json.quote "").toList = ['"', '"'] := by decide
  induction h with
  | @number n h =>
    obtain ⟨l, hl, htext⟩ := h.text
    have houtline : (Filter.number n).outline = n.text.toList :=
      hn.outline.trans (List.append_nil _)
    rw [houtline, htext]
    exact .number hl
  | string s =>
    have houtline : (Filter.string s).outline = (Json.quote "").toList :=
      hn.outline.trans (List.append_nil _)
    rw [houtline, hquotes]
    exact .string
  | boolean b =>
    have houtline : (Filter.boolean b).outline = (if b then "true" else "false").toList :=
      hn.outline.trans (List.append_nil _)
    rw [houtline]
    cases b <;> exact .constant (by decide)
  | null =>
    have houtline : Filter.null.outline = "null".toList := hn.outline
    rw [houtline]
    exact .constant (by decide)
  | «variable» v =>
    have houtline : (Filter.variable v).outline = ("$" ++ v.name).toList :=
      hn.outline.trans (List.append_nil _)
    rw [houtline, String.toList_append]
    exact .variable (hn v List.mem_cons_self)
  | field name =>
    have houtline : (Filter.field name).outline =
        '.' :: '[' :: ((Json.quote "").toList ++ [']']) := by
      rw [hn.outline]
      simp [marks, Mark.inside, blanked, Mark.text, Punctuation.text]
    rw [houtline, hquotes]
    exact .field
  | helper d hf hg ihf ihg =>
    obtain ⟨hnf, hng⟩ := wellNamed_helper.mp hn
    rw [outline_helper hnf hng]
    exact .call (ihf hnf) (ihg hng)
  | group f =>
    have hf := wellNamed_group.mp hn
    rw [outline_group hf]
    exact .group hf.balanced

/-! ### Filters in filters -/

/-- Marks among which those of a filter stand as a whole term. -/
def Holds (ms : List Mark) (f : Filter) : Prop :=
  ∃ before behind, ms = before ++ (f.marks ++ behind) ∧ Opens (render before) ∧
    Closes (render behind)

variable {ms ns before behind : List Mark}

theorem Holds.front (h : Holds ms f) (ns : List Mark) : Holds (ns ++ ms) f := by
  obtain ⟨before, behind, rfl, ho, hc⟩ := h
  refine ⟨ns ++ before, behind, (List.append_assoc ..).symm, ?_, hc⟩
  rw [render_append]
  exact ho.front _

theorem Holds.back (h : Holds ms f) (ns : List Mark) : Holds (ms ++ ns) f := by
  obtain ⟨before, behind, rfl, ho, hc⟩ := h
  refine ⟨before, behind ++ ns, by simp only [List.append_assoc], ho, ?_⟩
  rw [render_append]
  exact hc.back _

/-- **A filter that stands among the marks** of another one stands in its text. -/
theorem Holds.standsIn (h : Holds f.marks g) (hn : f.WellNamed) :
    StandsIn g.text.toList f.text.toList := by
  obtain ⟨before, behind, heq, ho, hc⟩ := h
  have hclean : AllClean before := fun m hm => hn.clean m (by rw [heq]; simp [hm])
  rw [toList_text f, heq, render_append, render_append, ← toList_text]
  exact .inside ho (strings_render hclean).2.2 hc

/-! #### Marks in front of terms and behind -/

theorem opens_opening (ms : List Mark) (b : Bracket) :
    Opens (render (ms ++ [sign (.opening b)])) := by
  rw [render_append, render_cons, render_nil, List.append_nil]
  exact ⟨_, .bracket b, List.suffix_append ..⟩

theorem opens_separator (ms : List Mark) {p : Punctuation} (h : p = .comma ∨ p = .semicolon) :
    Opens (render (ms ++ [sign p, space])) := by
  rw [render_append]
  exact ⟨_, .separator h, List.suffix_append ..⟩

theorem opens_operator (ms : List Mark) (op : Operator) :
    Opens (render (ms ++ [space, op.mark, space])) := by
  rw [render_append]
  have h := IsOpening.operator op
  rw [toList_operator] at h
  exact ⟨_, h, List.suffix_append ..⟩

theorem closes_closing (b : Bracket) (ms : List Mark) :
    Closes (render (sign (.closing b) :: ms)) := ⟨_, .bracket b, List.prefix_append ..⟩

theorem closes_separator {p : Punctuation} (h : p = .comma ∨ p = .semicolon) (ms : List Mark) :
    Closes (render (sign p :: space :: ms)) := by
  refine ⟨_, .separator h, render ms, ?_⟩
  rw [List.append_assoc]
  rfl

theorem closes_operator (op : Operator) (ms : List Mark) :
    Closes (render (space :: op.mark :: space :: ms)) := by
  refine ⟨_, .operator op, render ms, ?_⟩
  rw [toList_operator, List.cons_append, List.append_assoc]
  rfl

theorem closes_bar (ms : List Mark) : Closes (render (space :: sign .bar :: space :: ms)) :=
  ⟨_, .bar, render ms, rfl⟩

/-! #### Nodes -/

theorem holds_group (f : Filter) : Holds (group f).marks f :=
  ⟨[sign (.opening .round)], [sign (.closing .round)], rfl, opens_opening [] .round,
    closes_closing .round []⟩

theorem Holds.group (h : Holds f.marks g) : Holds (group f).marks g :=
  (h.back [sign (.closing .round)]).front [sign (.opening .round)]

theorem Holds.array (h : Holds f.marks g) : Holds (array f).marks g :=
  (h.back [sign (.closing .square)]).front [sign (.opening .square)]

theorem Holds.negate (h : Holds f.marks g) : Holds (negate f).marks g := h.front [sign .minus]

theorem Holds.pipeLeft (h : Holds f.marks g) (x : Filter) : Holds (pipe f x).marks g := h.back _

theorem Holds.pipeRight (h : Holds f.marks g) (x : Filter) : Holds (pipe x f).marks g :=
  (h.front [space, sign .bar, space]).front x.marks

theorem Holds.operationLeft (h : Holds f.marks g) (op : Operator) (x : Filter) :
    Holds (operation op f x).marks g := h.back _

theorem Holds.operationRight (h : Holds f.marks g) (op : Operator) (x : Filter) :
    Holds (operation op x f).marks g := (h.front [space, op.mark, space]).front x.marks

theorem Holds.value (h : Holds f.marks g) (v : Variable) (x : Filter) :
    Holds (bind f v x).marks g := h.back _

theorem Holds.body (h : Holds f.marks g) (x : Filter) (v : Variable) :
    Holds (bind x v f).marks g :=
  (h.front (spaced "as" ++ [.variable v, space, sign .bar, space])).front x.marks

theorem Holds.otherwise (h : Holds f.marks g) (test yes : Filter) :
    Holds (cond test yes (.otherwise f)).marks g := by
  have hbranch : Holds (branchMarks (.otherwise f) ++ [space, word "end"]) g :=
    (h.front (spaced "else")).back _
  have hrest := ((hbranch.front yes.marks).front (spaced "then")).front test.marks
  exact hrest.front [word "if", space]

/-- What is in front of a bar is a whole term behind a parenthesis. -/
theorem holds_pipe (f g : Filter) : Holds (Filter.group (pipe f g)).marks f := by
  refine ⟨[sign (.opening .round)],
    space :: sign .bar :: space :: (g.marks ++ [sign (.closing .round)]), ?_,
    opens_opening [] .round, closes_bar _⟩
  simp [marks, Mark.inside]

theorem holds_left (op : Operator) (f g : Filter) :
    Holds (Filter.group (operation op f g)).marks f := by
  refine ⟨[sign (.opening .round)],
    space :: op.mark :: space :: (g.marks ++ [sign (.closing .round)]), ?_,
    opens_opening [] .round, closes_operator op _⟩
  simp [marks, Mark.inside]

theorem holds_right (op : Operator) (f g : Filter) :
    Holds (Filter.group (operation op f g)).marks g := by
  refine ⟨(sign (.opening .round) :: f.marks) ++ [space, op.mark, space],
    [sign (.closing .round)], ?_, opens_operator _ op, closes_closing .round []⟩
  simp [marks, Mark.inside]

/-- The second operands of two operations between which an operator stands. -/
theorem holds_inner (op o o' : Operator) (f g x y : Filter) :
    Holds (Filter.group (operation op (operation o x f) (operation o' y g))).marks f ∧
      Holds (Filter.group (operation op (operation o x f) (operation o' y g))).marks g := by
  constructor
  · refine ⟨(sign (.opening .round) :: x.marks) ++ [space, o.mark, space],
      space :: op.mark :: space :: ((operation o' y g).marks ++ [sign (.closing .round)]), ?_,
      opens_operator _ o, closes_operator op _⟩
    simp [marks, Mark.inside]
  · refine ⟨(sign (.opening .round) :: (operation o x f).marks ++ space :: op.mark :: space ::
      y.marks) ++ [space, o'.mark, space], [sign (.closing .round)], ?_, opens_operator _ o',
      closes_closing .round []⟩
    simp [marks, Mark.inside]

theorem holds_first (b : Builtin) (f g : Filter) : Holds (call b [f, g]).marks f := by
  refine ⟨[word b.name, sign (.opening .round)],
    sign .semicolon :: space :: (g.marks ++ [sign (.closing .round)]), ?_,
    opens_opening [word b.name] .round, closes_separator (.inr rfl) _⟩
  simp [marks, joinedMarks, Mark.inside]

theorem holds_second (b : Builtin) (f g : Filter) : Holds (call b [f, g]).marks g := by
  refine ⟨(word b.name :: sign (.opening .round) :: f.marks) ++ [sign .semicolon, space],
    [sign (.closing .round)], ?_, opens_separator _ (.inr rfl), closes_closing .round []⟩
  simp [marks, joinedMarks, Mark.inside]

theorem holds_helper (h : Helper) (f g : Filter) :
    Holds (helper h f g).marks f ∧ Holds (helper h f g).marks g := by
  constructor
  · refine ⟨[word h.name, sign (.opening .round)],
      sign .semicolon :: space :: (g.marks ++ [sign (.closing .round)]), ?_,
      opens_opening [word h.name] .round, closes_separator (.inr rfl) _⟩
    simp [marks, Mark.inside]
  · refine ⟨(word h.name :: sign (.opening .round) :: f.marks) ++ [sign .semicolon, space],
      [sign (.closing .round)], ?_, opens_separator _ (.inr rfl), closes_closing .round []⟩
    simp [marks, Mark.inside]

/-- Filters with commas between are whole terms if the ends are. -/
theorem holds_joined {fs : List Filter} (hf : f ∈ fs) (ho : Opens (render before))
    (hc : Closes (render behind)) :
    Holds (before ++ (joinedMarks [sign .comma, space] fs ++ behind)) f := by
  induction fs generalizing before with
  | nil => cases hf
  | cons x fs ih =>
    cases fs with
    | nil =>
      obtain rfl := List.mem_singleton.mp hf
      exact ⟨before, behind, rfl, ho, hc⟩
    | cons y fs =>
      rcases List.mem_cons.mp hf with rfl | hf
      · refine ⟨before, _, ?_, ho, closes_separator (.inl rfl)
          (joinedMarks [sign .comma, space] (y :: fs) ++ behind)⟩
        simp [joinedMarks]
      · have hrest := ih hf (opens_separator (before ++ x.marks) (p := .comma) (.inl rfl))
        simpa [joinedMarks] using hrest

theorem holds_array {fs : List Filter} (hf : f ∈ fs) :
    Holds (Filter.array (.sequence fs)).marks f :=
  holds_joined hf (opens_opening [] .square) (closes_closing .square [])

/-- The items of a test for membership. -/
theorem holds_items {b : Builtin} {fs : List Filter} (hf : f ∈ fs) (test : Filter) :
    Holds (call b [.sequence fs, test]).marks f := by
  have h := holds_joined hf (opens_opening [word b.name] .round)
    (closes_separator (p := .semicolon) (.inr rfl) (test.marks ++ [sign (.closing .round)]))
  simpa [marks, joinedMarks, Mark.inside] using h

end Filter

end RecordQuery
