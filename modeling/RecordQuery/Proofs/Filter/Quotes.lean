import RecordQuery.Proofs.Filter.Quotation

/-! # Filters and what they quote

A filter quotes texts from left to right, each either a fixed one or one from the source. One lemma
for each node says what the filter of that node quotes, given what its parts do. -/

namespace RecordQuery

/-- A quoted text: a fixed one, or one from the source, a pattern of `LIKE` as a regular expression.
-/
inductive Quotation where
  | fixed (s : String)
  | source (s : String)

/-- The text that is quoted. -/
def Quotation.text : Quotation → String
  | fixed s | source s => s

namespace Mark

variable {m : Mark} {ms ns : List Mark} {qs rs : List Quotation}

/-- Clean marks that quote some texts, one after another. -/
structure Quotes (ms : List Mark) (qs : List Quotation) : Prop where
  clean : AllClean ms
  texts : ms.filterMap quoted? = qs.map Quotation.text

theorem quotes_nil : Quotes [] [] := ⟨fun _ h => absurd h List.not_mem_nil, rfl⟩

theorem Quotes.append (h : Quotes ms qs) (h' : Quotes ns rs) : Quotes (ms ++ ns) (qs ++ rs) where
  clean m hm := by
    obtain hm | hm := List.mem_append.mp hm
    · exact h.clean m hm
    · exact h'.clean m hm
  texts := by rw [List.filterMap_append, h.texts, h'.texts, List.map_append]

/-- A mark that quotes nothing. -/
theorem Quotes.cons (hq : m.quoted? = none) (hm : '"' ∉ m.text.toList) (h : Quotes ms qs) :
    Quotes (m :: ms) qs where
  clean n hn := by
    obtain rfl | hn := List.mem_cons.mp hn
    · exact fun _ => hm
    · exact h.clean n hn
  texts := by rw [List.filterMap_cons_none hq, h.texts]

theorem Quotes.quoted {s : String} {q : Quotation} (hq : q.text = s) (h : Quotes ms qs) :
    Quotes (.quoted s :: ms) (q :: qs) where
  clean n hn := by
    obtain rfl | hn := List.mem_cons.mp hn
    · exact nofun
    · exact h.clean n hn
  texts := by
    have hs : (Mark.quoted s).quoted? = some s := rfl
    rw [List.filterMap_cons_some hs, h.texts, List.map_cons, hq]

theorem Quotes.space (h : Quotes ms qs) : Quotes (.space :: ms) qs := h.cons rfl (by decide)

theorem Quotes.sign {p : Punctuation} (h : Quotes ms qs) : Quotes (.sign p :: ms) qs := by
  refine h.cons rfl ?_
  cases p
  case opening b => cases b <;> decide
  case closing b => cases b <;> decide
  all_goals decide

theorem Quotes.word {w : String} (hw : '"' ∉ w.toList) (h : Quotes ms qs) :
    Quotes (.word w :: ms) qs := h.cons rfl hw

theorem Quotes.number {n : Number} (h : Quotes ms qs) : Quotes (.number n :: ms) qs := by
  refine h.cons rfl fun hn => ?_
  have hc := n.text_numeral '"' hn
  exact absurd hc (by decide)

theorem Quotes.inside {b : Bracket} (h : Quotes ms qs) : Quotes (inside b ms) qs := by
  have hlast : Quotes [Mark.sign (.closing b)] [] := quotes_nil.sign
  have hall := h.append hlast
  rw [List.append_nil] at hall
  exact hall.sign

theorem quotes_spaced {w : String} (hw : '"' ∉ w.toList) (h : Quotes ms qs) :
    Quotes (spaced w ++ ms) qs := (Quotes.word hw h.space).space

end Mark

namespace Filter

open Mark

/-- A filter whose marks quote some texts. -/
def Quotes (f : Filter) (qs : List Quotation) : Prop := Mark.Quotes f.marks qs

variable {f g h : Filter} {ps qs rs : List Quotation}

theorem quotes_identity : identity.Quotes [] := quotes_nil.sign

theorem quotes_elements : elements.Quotes [] := Mark.Quotes.sign quotes_nil.inside

theorem quotes_number {n : Number} : (Filter.number n).Quotes [] := quotes_nil.number

theorem quotes_boolean {b : Bool} : (Filter.boolean b).Quotes [] := by
  cases b <;> exact Mark.Quotes.word (by decide) quotes_nil

theorem quotes_null : null.Quotes [] := Mark.Quotes.word (by decide) quotes_nil

theorem quotes_string {q : Quotation} : (Filter.string q.text).Quotes [q] := quotes_nil.quoted rfl

theorem quotes_field {name : String} : (Filter.field name).Quotes [.source name] := by
  have hname : Mark.Quotes [.quoted name] [.source name] := quotes_nil.quoted rfl
  exact Mark.Quotes.sign hname.inside

theorem quotes_variable {v : Variable} (hv : '"' ∉ v.name.toList) :
    (Filter.variable v).Quotes [] := by
  refine Mark.Quotes.cons rfl ?_ quotes_nil
  change '"' ∉ ("$" ++ v.name).toList
  rw [String.toList_append, List.mem_append, not_or]
  exact ⟨by decide, hv⟩

theorem Quotes.group (hf : f.Quotes qs) : (group f).Quotes qs := hf.inside

theorem Quotes.array (hf : f.Quotes qs) : (array f).Quotes qs := hf.inside

theorem Quotes.pipe (hf : f.Quotes qs) (hg : g.Quotes rs) : (pipe f g).Quotes (qs ++ rs) :=
  hf.append hg.space.sign.space

theorem Quotes.negate (hf : f.Quotes qs) : (negate f).Quotes qs := Mark.Quotes.sign hf

theorem Quotes.operation {op : Operator} (hf : f.Quotes qs) (hg : g.Quotes rs) :
    (operation op f g).Quotes (qs ++ rs) := by
  have hop : Mark.Quotes (op.mark :: .space :: g.marks) rs := by
    cases op
    case and => exact Mark.Quotes.word (by decide) hg.space
    case or => exact Mark.Quotes.word (by decide) hg.space
    all_goals exact hg.space.sign
  exact hf.append hop.space

theorem Quotes.bind {v : Variable} (hv : '"' ∉ v.name.toList) (hf : f.Quotes qs)
    (hg : g.Quotes rs) : (bind f v g).Quotes (qs ++ rs) := by
  have hmark : '"' ∉ (Mark.variable v).text.toList := by
    change '"' ∉ ("$" ++ v.name).toList
    rw [String.toList_append, List.mem_append, not_or]
    exact ⟨by decide, hv⟩
  have hbody : Mark.Quotes (.space :: .sign .bar :: .space :: g.marks) rs := hg.space.sign.space
  exact hf.append (quotes_spaced (by decide) (.cons rfl hmark hbody))

theorem Quotes.cond (hf : f.Quotes ps) (hg : g.Quotes qs) {b : Branch}
    (hb : Mark.Quotes (branchMarks b) rs) : (cond f g b).Quotes (ps ++ (qs ++ rs)) := by
  have hend : Mark.Quotes [.space, .word "end"] [] := (Mark.Quotes.word (by decide) quotes_nil).space
  have hrest : Mark.Quotes (branchMarks b ++ [.space, .word "end"]) rs := by
    have hall := hb.append hend
    rw [List.append_nil] at hall
    exact hall
  exact .word (by decide) (.space (hf.append (quotes_spaced (by decide) (hg.append hrest))))

theorem Quotes.otherwise (hf : f.Quotes qs) : Mark.Quotes (branchMarks (.otherwise f)) qs :=
  quotes_spaced (by decide) hf

theorem Quotes.elseIf (hf : f.Quotes ps) (hg : g.Quotes qs) {b : Branch}
    (hb : Mark.Quotes (branchMarks b) rs) :
    Mark.Quotes (branchMarks (.elseIf f g b)) (ps ++ (qs ++ rs)) :=
  quotes_spaced (by decide) (hf.append (quotes_spaced (by decide) (hg.append hb)))

theorem clean_builtin (b : Builtin) : '"' ∉ b.name.toList := by
  cases b <;> decide

theorem quotes_apply {b : Builtin} : (apply b).Quotes [] :=
  Mark.Quotes.word (clean_builtin b) quotes_nil

theorem Quotes.call₁ {b : Builtin} (hf : f.Quotes qs) : (call b [f]).Quotes qs :=
  Mark.Quotes.word (clean_builtin b) hf.inside

theorem Quotes.call₂ {b : Builtin} (hf : f.Quotes qs) (hg : g.Quotes rs) :
    (call b [f, g]).Quotes (qs ++ rs) :=
  Mark.Quotes.word (clean_builtin b) (Mark.Quotes.inside (hf.append hg.space.sign))

theorem Quotes.helper {d : Helper} (hf : f.Quotes qs) (hg : g.Quotes rs) :
    (helper d f g).Quotes (qs ++ rs) := by
  have hname : '"' ∉ d.name.toList := by cases d <;> decide
  exact Mark.Quotes.word hname (Mark.Quotes.inside (hf.append hg.space.sign))

theorem Quotes.sequence₂ (hf : f.Quotes qs) (hg : g.Quotes rs) :
    (sequence [f, g]).Quotes (qs ++ rs) := hf.append hg.space.sign

end Filter

theorem Variable.clean_bound (n : Nat) : '"' ∉ (Variable.bound n).name.toList := by
  change '"' ∉ (Variable.stem ++ toString n).toList
  rw [String.toList_append, List.mem_append, not_or]
  refine ⟨by decide, fun h => ?_⟩
  exact absurd (numeral_toString '"' h) (by decide)

end RecordQuery
