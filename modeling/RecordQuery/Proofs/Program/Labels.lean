import RecordQuery.Proofs.Compile.Likeness
import RecordQuery.Proofs.Plan.Faults
import RecordQuery.Proofs.Program.Markers

/-! # Names of result columns

A result column without a label is named by the field that it reads, or by its text if it is
computed. Columns of one sort have one name only if they compute the same (`Program.labels_told`):
two that read a field read the same one, and two that are computed are one expression, which gets
other variables and numbers of bare markers each time. A column that reads a field has the name of a
computed one if the field is called like its text (`Program.labels_not_apart`). -/

namespace RecordQuery

/-- A result column that is an expression without a label. -/
def ResultColumn.Unnamed : ResultColumn → Prop
  | .expr _ none _ _ => True
  | _ => False

instance : DecidablePred ResultColumn.Unnamed
  | .expr _ none _ _ => .isTrue trivial
  | .expr _ (some _) _ _ | .star _ | .qualifiedStar _ _ => .isFalse id

theorem ResultColumn.Unnamed.eq {c : ResultColumn} (h : c.Unnamed) :
    ∃ e text place, c = .expr e none text place := by
  rcases c with _ | _ | ⟨e, _ | _, text, place⟩
  · exact h.elim
  · exact h.elim
  · exact ⟨e, text, place, rfl⟩
  · exact h.elim

/-- The field that a result column reads unchanged. -/
def ResultColumn.field? : ResultColumn → Option String
  | .expr (.column ref) _ _ _ => some ref.column
  | .expr (.literal (.string name)) _ _ _ => some name
  | _ => none

/-- The greatest number of the markers that are compiled before a result column: those behind
`WHERE`, and those of the columns in front of it. -/
def Statement.numberBefore (st : Statement) (i : Nat) : UInt32 :=
  countedBy 0 (st.conditionParameters ++
    parametersOf ((st.columns.take i).filterMap ResultColumn.expr?))

/-- **How two result columns come to have one name**, given what each is compiled to. -/
inductive ShareName (st : Statement) (i j : Nat) :
    ResultColumn → ResultColumn → Filter → Filter → Prop
  | field {c d : ResultColumn} {name : String} (hc : c.field? = some name)
      (hd : d.field? = some name) : ShareName st i j c d (.field name) (.field name)
  | computed {d e : Expr} {text : String} {p q : Position} {f g : Filter} {m n : Nat}
      (hd : (ResultColumn.expr d none text p).field? = none)
      (he : (ResultColumn.expr e none text q).field? = none)
      (h : f.Like (Renumbered m n (barePairs (st.numberBefore i) (st.numberBefore j) d.parameters))
        g) :
      ShareName st i j (.expr d none text p) (.expr e none text q) f g
  | fieldComputed {c : ResultColumn} {e : Expr} {text : String} {q : Position} {g : Filter}
      (hc : c.field? = some text) (he : (ResultColumn.expr e none text q).field? = none) :
      ShareName st i j c (.expr e none text q) (.field text) g
  | computedField {d : ResultColumn} {e : Expr} {text : String} {p : Position} {f : Filter}
      (he : (ResultColumn.expr e none text p).field? = none) (hd : d.field? = some text) :
      ShareName st i j (.expr e none text p) d f (.field text)

/-! ### Texts of columns -/

namespace Grammar

/-- A result column keeps the text of the tokens that its expression is spelled in. -/
def Captioned (c : ResultColumn) (ls : List Lexeme) : Prop :=
  ∀ e label text place, c = .expr e label text place →
    ∃ us, (∀ u ∈ us, u ∈ ls) ∧ Spells (.expr .or) e us ∧
      text = Caption.ofTokens (us.map Lexeme.token)

/-- What is said of the texts in a tree of a kind. -/
def Kind.Captioned : (k : Kind) → k.Value → List Lexeme → Prop
  | .item .column, c, ls => Grammar.Captioned c ls
  | .list .column, cs, ls => ∀ c ∈ cs, Grammar.Captioned c ls
  | _, _, _ => True

theorem Captioned.mono {c : ResultColumn} {ls ms : List Lexeme} (h : Captioned c ls)
    (hs : ∀ l ∈ ls, l ∈ ms) : Captioned c ms := by
  intro e label text place hc
  obtain ⟨us, hus, hspells, htext⟩ := h e label text place hc
  exact ⟨us, fun u hu => hs u (hus u hu), hspells, htext⟩

theorem Spells.captioned {k : Kind} {a : k.Value} {ls : List Lexeme} (h : Spells k a ls) :
    k.Captioned a ls := by
  induction h with
  | star | qualifiedStar => exact nofun
  | computed h _ _ =>
    rintro _ _ _ _ ⟨⟩
    exact ⟨_, fun u hu => List.mem_append_left _ hu, h, rfl⟩
  | @one i _ _ _ ih =>
    cases i with
    | column => exact List.forall_mem_singleton.mpr ih
    | expression | term => trivial
  | @more i _ _ _ _ _ _ _ _ ih ihs =>
    cases i with
    | column =>
      refine List.forall_mem_cons.mpr ⟨ih.mono fun l hl => List.mem_append_left _ hl, ?_⟩
      exact fun c hc => (ihs c hc).mono fun l hl =>
        List.mem_append_right _ (List.mem_cons_of_mem _ hl)
    | expression | term => trivial
  | _ => trivial

end Grammar

/-- **The text of a result column** is the caption of the tokens of its expression. -/
theorem captioned_ofText {q : String} {st : Statement} (h : Statement.ofText q = .ok st) :
    ∃ ls, (∀ l ∈ ls, l.token.Written ∧ l.token ≠ .endOfInput) ∧
      ∀ c ∈ st.columns, Grammar.Captioned c ls := by
  obtain ⟨ls, tail, last, htokens, hspells, -, -⟩ := spells_ofText h
  obtain ⟨before, last', hsplit, -, hbefore⟩ := ends_of_tokenize htokens
  rw [← List.append_assoc] at hsplit
  obtain ⟨rfl, -⟩ := List.append_inj' hsplit rfl
  have hls : ∀ l ∈ ls, l.token.Written ∧ l.token ≠ .endOfInput := fun l hl =>
    ⟨written_of_tokenize htokens l (List.mem_append_left _ hl),
      hbefore l (List.mem_append_left tail hl)⟩
  cases hspells with
  | @statement _ _ _ _ _ _ _ _ _ cs _ _ _ _ _ _ _ hc =>
    exact ⟨cs, fun l hl => hls l (by simp [hl]), hc.captioned⟩

/-! ### Columns that are compiled -/

namespace Program

open RecordQuery.Compile

variable {q : String} {st : Statement} {p : Program} {s s' : Names}

theorem length_entries {cs : List Column} {entries : List (String × Filter)}
    (h : (Program.entries cs).run s = .ok entries s') : entries.length = cs.length := by
  induction cs generalizing entries s with
  | nil =>
    cases h
    rfl
  | cons c cs ih =>
    obtain ⟨f, s₁, rest, -, hrest, rfl⟩ := ok_of_entries_cons h
    exact congrArg Nat.succ (ih hrest)

/-- An entry of a row has the label of its column, and is compiled behind those in front of it. -/
theorem entries_getElem? {cs : List Column} {entries : List (String × Filter)} {c : Column}
    {x : String × Filter} {i : Nat} (h : (Program.entries cs).run s = .ok entries s')
    (hc : cs[i]? = some c) (hx : entries[i]? = some x) :
    x.1 = c.label ∧ ∃ t t', Compiled (.expr c.expr x.2) t t' ∧
      t.positional = countedAll s.positional ((cs.take i).map Column.expr) := by
  induction cs generalizing entries s i with
  | nil => cases hc
  | cons d cs ih =>
    obtain ⟨f, s₁, rest, hf, hrest, rfl⟩ := ok_of_entries_cons h
    have hfirst := compiled_of_run _ _ _ _ hf
    cases i with
    | zero =>
      cases hc
      cases hx
      exact ⟨rfl, s, s₁, hfirst, rfl⟩
    | succ i =>
      obtain ⟨hlabel, t, t', ht, hcount⟩ := ih hrest hc hx
      have hs₁ : s₁.positional = d.expr.counted s.positional := hfirst.counted
      rw [hs₁] at hcount
      exact ⟨hlabel, t, t', ht, hcount⟩

/-- What is known of an entry of a row: its name, and how its filter was compiled. -/
structure Entry (st : Statement) (i : Nat) (e : Expr) (text : String) (x : String × Filter) :
    Prop where
  name : x.1 = (Projection.column e none text).label
  compiled : ∃ t t', Compiled (.expr e.asColumn x.2) t t' ∧ t.positional = st.numberBefore i

/-- The greatest number behind the condition. -/
theorem positional_conditionOf {o : Option Expr} {f : Option Filter}
    (h : (conditionOf o).run {} = .ok f s) :
    s.positional = countedBy 0 (parametersOf o.toList) := by
  cases o with
  | none =>
    cases h
    rfl
  | some e =>
    obtain ⟨g, hg, -⟩ := map_ok h
    have hcounted : s.positional = e.counted 0 := (compiled_of_run _ _ _ _ hg).counted
    rw [hcounted, counted_parameters, Option.toList_some, parametersOf, parametersOf,
      List.append_nil]

/-- **The entries of a program** for the result columns of its query. -/
theorem entries_ofStatement (hp : ofStatement st = .ok p)
    (hunnamed : ∀ c ∈ st.columns, c.Unnamed) :
    ∃ entries, p.projection = some entries ∧ entries.length = st.columns.length ∧
      ∀ i e text place x, st.columns[i]? = some (.expr e none text place) →
        entries[i]? = some x → Entry st i e text x := by
  obtain ⟨projection, s, s', hfrom⟩ := compiledFrom_ofStatement hp
  cases Projection.of_ofColumns hfrom.columns with
  | all hstar =>
    obtain ⟨place, hstar⟩ := hstar
    exact (hunnamed (.star place) (by rw [hstar]; exact List.mem_cons_self)).elim
  | @columns cs _ hcs =>
    obtain ⟨entries, hrun, hentries⟩ := map_ok hfrom.row
    refine ⟨entries, hentries, ?_, fun i e text place x hi hx => ?_⟩
    · rw [length_entries hrun, Projection.length_columnsOf hcs]
    · have hcolumn := Projection.columnsOf_getElem? hcs hi
      obtain ⟨hname, t, t', ht, hcount⟩ := entries_getElem? hrun hcolumn hx
      rw [Projection.expr_column] at ht
      refine ⟨hname, t, t', ht, ?_⟩
      rw [hcount, Projection.exprs_columnsOf (Projection.columnsOf_take hcs i),
        countedAll_parameters, parametersOf_asColumn, positional_conditionOf hfrom.condition,
        ← countedBy_append]
      rfl

/-! ### Names -/

theorem label_of_field {e : Expr} {text name : String} {place : Position}
    (h : (ResultColumn.expr e none text place).field? = some name) :
    (Projection.column e none text).label = name ∧ ∃ ref : ColumnRef, e.asColumn = .column ref ∧
      ref.column = name := by
  unfold ResultColumn.field? at h
  split at h
  · next ref _ _ _ heq =>
    cases heq
    cases h
    exact ⟨rfl, ref, rfl, rfl⟩
  · next heq =>
    cases heq
    cases h
    exact ⟨rfl, .bare name, rfl, rfl⟩
  · cases h

theorem label_of_computed {e : Expr} {text : String} {place : Position}
    (h : (ResultColumn.expr e none text place).field? = none) :
    (Projection.column e none text).label = text ∧ e.asColumn = e := by
  cases e with
  | column ref => cases h
  | literal v =>
    cases v with
    | string name => cases h
    | _ => exact ⟨rfl, rfl⟩
  | _ => exact ⟨rfl, rfl⟩

/-- A column that reads a field is compiled to that field. -/
theorem Entry.field {i : Nat} {e : Expr} {text name : String} {place : Position}
    {x : String × Filter} (hx : Entry st i e text x)
    (h : (ResultColumn.expr e none text place).field? = some name) : x = (name, .field name) := by
  obtain ⟨hlabel, ref, hcolumn, hname⟩ := label_of_field h
  obtain ⟨t, t', hcompiled, -⟩ := hx.compiled
  rw [hcolumn] at hcompiled
  obtain ⟨label, f⟩ := x
  cases hcompiled
  rw [← hname, Prod.mk.injEq]
  exact ⟨hx.name.trans (hlabel.trans hname.symm), rfl⟩

/-- The tokens of an expression that is compiled are plain. -/
theorem plain_of_compiled {e : Expr} {f : Filter} {us ls : List Lexeme} {t t' : Names}
    (hls : ∀ l ∈ ls, l.token.Written ∧ l.token ≠ .endOfInput) (hus : ∀ u ∈ us, u ∈ ls)
    (hspells : Grammar.Spells (.expr .or) e us) (h : Compiled (.expr e f) t t') :
    ∀ u ∈ us, u.token.Plain := by
  intro u hu
  obtain ⟨hwritten, hinside⟩ := hls u (hus u hu)
  refine ⟨hwritten, fun sigil name hname => ?_, hinside⟩
  have hparameters : parametersIn us = e.parameters := hspells.parameters h.flat
  have hmem : (.named sigil name, u.start) ∈ e.parameters := by
    rw [← hparameters]
    refine List.mem_filterMap.mpr ⟨u, hu, ?_⟩
    rw [Lexeme.parameter?, hname]
  exact h.supported _ (mem_nodes_of_parameter e hmem)

/-- Two computed columns with one text are one expression, which is compiled from two places. -/
theorem like_of_computed {ls : List Lexeme} {e e' : Expr} {i j : Nat} {text : String}
    {place place' : Position} {x y : String × Filter}
    (hls : ∀ l ∈ ls, l.token.Written ∧ l.token ≠ .endOfInput)
    (hc : Grammar.Captioned (.expr e none text place) ls)
    (hd : Grammar.Captioned (.expr e' none text place') ls)
    (he : (ResultColumn.expr e none text place).field? = none)
    (he' : (ResultColumn.expr e' none text place').field? = none)
    (hx : Entry st i e text x) (hy : Entry st j e' text y) : ∃ m n,
      x.2.Like (Renumbered m n (barePairs (st.numberBefore i) (st.numberBefore j) e.parameters))
        y.2 := by
  obtain ⟨t, t', ht, hcount⟩ := hx.compiled
  obtain ⟨u, u', hu, hcount'⟩ := hy.compiled
  rw [(label_of_computed he).2] at ht
  rw [(label_of_computed he').2] at hu
  obtain ⟨us, hus, hspells, htext⟩ := hc e _ _ _ rfl
  obtain ⟨vs, hvs, hspells', htext'⟩ := hd e' _ _ _ rfl
  have hsame : e.Same e' := Grammar.same_of_caption hspells hspells' ht.flat
    (plain_of_compiled hls hus hspells ht) (plain_of_compiled hls hvs hspells' hu)
    (htext.symm.trans htext')
  have hlike := ht.twice hsame hu
  rw [hcount, hcount'] at hlike
  exact ⟨_, _, hlike⟩

/-- **Columns that share a name**, in a query without labels: two that read a field read the same
one; two that are computed are one expression, and their filters are the same up to the numbers of
variables and bare markers; and one that reads a field is called like the text of a computed one. -/
theorem labels_told (hst : Statement.ofText q = .ok st) (hp : ofText q = .ok p)
    (hunnamed : ∀ c ∈ st.columns, c.Unnamed) :
    ∃ entries, p.projection = some entries ∧ entries.length = st.columns.length ∧
      ∀ (i j : Nat) (c d : ResultColumn) (x y : String × Filter), st.columns[i]? = some c →
        st.columns[j]? = some d → entries[i]? = some x → entries[j]? = some y → x.1 = y.1 →
        ShareName st i j c d x.2 y.2 := by
  have hcompiled : ofStatement st = .ok p := (ofText_of_statement hst).symm.trans hp
  obtain ⟨ls, hls, hcaptions⟩ := captioned_ofText hst
  obtain ⟨entries, hentries, hlength, hentry⟩ := entries_ofStatement hcompiled hunnamed
  refine ⟨entries, hentries, hlength, fun i j c d x y hi hj hx hy hxy => ?_⟩
  have hc := List.mem_of_getElem? hi
  have hd := List.mem_of_getElem? hj
  obtain ⟨e, text, place, rfl⟩ := (hunnamed c hc).eq
  obtain ⟨e', text', place', rfl⟩ := (hunnamed d hd).eq
  have hxs := hentry i e text place x hi hx
  have hys := hentry j e' text' place' y hj hy
  have hlabels := hxs.name.symm.trans (hxy.trans hys.name)
  cases hfield : (ResultColumn.expr e none text place).field? with
  | some name =>
    rw [(label_of_field hfield).1] at hlabels
    obtain rfl := hxs.field hfield
    cases hfield' : (ResultColumn.expr e' none text' place').field? with
    | some name' =>
      obtain rfl := hys.field hfield'
      obtain rfl : name = name' := hxy
      exact .field hfield hfield'
    | none =>
      obtain rfl : name = text' := hlabels.trans (label_of_computed hfield').1
      exact .fieldComputed hfield hfield'
  | none =>
    rw [(label_of_computed hfield).1] at hlabels
    cases hfield' : (ResultColumn.expr e' none text' place').field? with
    | some name' =>
      obtain rfl := hys.field hfield'
      obtain rfl : text = name' := hlabels.trans (label_of_field hfield').1
      exact .computedField hfield hfield'
    | none =>
      obtain rfl : text = text' := hlabels.trans (label_of_computed hfield').1
      obtain ⟨m, n, hlike⟩ :=
        like_of_computed hls (hcaptions _ hc) (hcaptions _ hd) hfield hfield' hxs hys
      exact .computed hfield hfield' hlike

/-- Two columns that read one field, two that are computed in one way, and one of each sort with one
name. -/
theorem labels_told_repeated : let q := "SELECT t.a, 'a', x IN (?, 100), x in(?,1e2), \"-x\", - x"
    ∃ st p entries, Statement.ofText q = .ok st ∧ ofText q = .ok p ∧
      (∀ c ∈ st.columns, c.Unnamed) ∧ p.projection = some entries ∧
      entries.map Prod.fst = ["a", "a", "x IN (?, 100)", "x IN (?, 100)", "-x", "-x"] ∧
      ∀ (i j : Nat) (c d : ResultColumn) (x y : String × Filter), st.columns[i]? = some c →
        st.columns[j]? = some d → entries[i]? = some x → entries[j]? = some y → x.1 = y.1 →
        ShareName st i j c d x.2 y.2 := by
  intro q
  obtain ⟨st, hst, hunnamed⟩ := ok_of_any (r := Statement.ofText q)
    (p := fun st => decide (∀ c ∈ st.columns, c.Unnamed)) (by decide +kernel)
  obtain ⟨p, hp, hnames⟩ := ok_of_any (r := ofText q)
    (p := fun p => p.projection.map (·.map Prod.fst) ==
      some ["a", "a", "x IN (?, 100)", "x IN (?, 100)", "-x", "-x"]) (by decide +kernel)
  obtain ⟨entries, hentries, -, hshare⟩ := labels_told hst hp (of_decide_eq_true hunnamed)
  rw [hentries] at hnames
  exact ⟨st, p, entries, hst, hp, of_decide_eq_true hunnamed, hentries,
    Option.some.inj (beq_iff_eq.mp hnames), hshare⟩

/-- Two result columns without labels that have one name, and whose filters differ in more than the
numbers of the variables that they bind. -/
def Hides (q : String) : Prop :=
  ∃ st p x y, Statement.ofText q = .ok st ∧ ofText q = .ok p ∧ (∀ c ∈ st.columns, c.Unnamed) ∧
    p.projection = some [x, y] ∧ x.1 = y.1 ∧
    ¬ x.2.Like (fun v w => ∃ m n, v = .bound m ∧ w = .bound n) y.2

theorem hides_of_marks (name : String) (ms ns : List Mark)
    (hst : (Statement.ofText q).toOption.any
      (fun st => decide (∀ c ∈ st.columns, c.Unnamed)) = true)
    (hp : (ofText q).toOption.any (fun p => p.projection.map (·.map fun x => (x.1, x.2.marks)) ==
      some [(name, ms), (name, ns)]) = true)
    (hmarks : ¬ MarksLike (fun v w => ∃ m n, v = .bound m ∧ w = .bound n) ms ns) : Hides q := by
  obtain ⟨st, hst', hunnamed⟩ := ok_of_any hst
  obtain ⟨p, hp', hrow⟩ := ok_of_any hp
  obtain ⟨entries, hentries, hmap⟩ := Option.map_eq_some_iff.mp (beq_iff_eq.mp hrow)
  obtain ⟨x, xs, rfl, hx, hxs⟩ := List.map_eq_cons_iff.mp hmap
  obtain ⟨y, ys, rfl, hy, hys⟩ := List.map_eq_cons_iff.mp hxs
  obtain rfl := List.map_eq_nil_iff.mp hys
  obtain ⟨rfl, rfl⟩ := Prod.mk.inj hx
  obtain ⟨hname, rfl⟩ := Prod.mk.inj hy
  exact ⟨st, p, x, y, hst', hp', of_decide_eq_true hunnamed, hentries, hname.symm, hmarks⟩

/-- **Columns with one name need not compute the same**: a field can be called like the text of a
computed column, and the bare markers of one text are different parameters. -/
theorem labels_not_apart : Hides "SELECT \"1 + 1\", 1 + 1" ∧ Hides "SELECT ?, ?" := by
  constructor
  · refine hides_of_marks "1 + 1" (Filter.field "1 + 1").marks
      (Filter.group (.operation .add (.number (.integer 1)) (.number (.integer 1)))).marks
      (by decide +kernel) (by decide +kernel) fun h => ?_
    exact absurd h.length_eq (by decide)
  · refine hides_of_marks "?" [.variable (.named "p1")] [.variable (.named "p2")]
      (by decide +kernel) (by decide +kernel) fun h => ?_
    obtain ⟨hlike, -⟩ := List.forall₂_cons.mp h
    rcases hlike with hsame | ⟨m, n, hbound, -⟩
    · exact absurd hsame (by decide)
    · cases hbound

end Program

end RecordQuery
