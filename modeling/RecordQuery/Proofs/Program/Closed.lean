import RecordQuery.Proofs.Compile.Asks
import RecordQuery.Proofs.Compile.Hygiene
import RecordQuery.Proofs.Program.Parts

/-! # Programs are closed

What has to be given to a program from outside is told by the program itself: its parameters are the
variables that occur free in the texts of its condition and its rows, and its prelude defines the
functions that these call (`Program.programs_closed`). The parameters stand in the order in which
the query asks for them, the condition first (`Statement.asks`). -/

namespace RecordQuery

/-! ### Occurrences and marks -/

theorem Scope.exists_occurrence {σ : Scope} {ms : List Mark} {v : Variable} :
    (∃ o ∈ σ.occurrences ms, o.subject = v) ↔ .variable v ∈ ms := by
  induction ms generalizing σ with
  | nil => simp [Scope.occurrences]
  | cons m ms ih =>
    rw [Scope.occurrences, List.mem_cons, ← ih (σ := σ.step m)]
    have hmark : (∃ o ∈ (σ.occurrence? m).toList, o.subject = v) ↔ .variable v = m := by
      unfold Scope.occurrence?
      split
      · next w =>
        rw [Option.toList_some]
        split <;> simp [Occurrence.subject, eq_comm]
      · next hm =>
        simp only [Option.toList_none, List.not_mem_nil, false_and, exists_false, false_iff]
        exact fun h => hm v h.symm
    rw [← hmark]
    simp only [List.mem_append, or_and_right, exists_or]

namespace Compile

/-- A name is that of a variable which is used, in the texts of filters, outside the scopes of
variables of that name. -/
def FreeIn (fs : List Filter) (name : String) : Prop :=
  ∃ v Γ, .use v Γ ∈ occurrencesIn fs ∧ v.name = name ∧ ∀ w ∈ Γ, w.name ≠ name

/-- The texts of filters call a defined function. -/
def CalledIn (fs : List Filter) (h : Helper) : Prop :=
  ∃ f ∈ fs, [.word h.name, .sign (.opening .round)] <:+: f.marks

variable {fs : List Filter} {name : String}

/-- Of proper variables, the parameters are those that are free. -/
theorem freeIn_iff (h : ∀ o ∈ occurrencesIn fs, o.Proper) :
    FreeIn fs name ↔ ∃ f ∈ fs, .parameter name ∈ f.asks := by
  constructor
  · rintro ⟨v, Γ, huse, rfl, hfree⟩
    have hproper := h _ huse
    obtain ⟨f, hf, hmem⟩ := List.mem_flatMap.mp huse
    refine ⟨f, hf, Filter.mem_asks_parameter.mpr (Scope.exists_occurrence.mp ⟨_, hmem, ?_⟩)⟩
    cases v with
    | bound n => exact absurd rfl (hfree _ hproper)
    | place => exact absurd rfl (hfree _ hproper)
    | named given => rfl
  · rintro ⟨f, hf, hask⟩
    obtain ⟨o, ho, hsubject⟩ :=
      Scope.exists_occurrence (σ := {}).mpr (Filter.mem_asks_parameter.mp hask)
    have hmem : o ∈ occurrencesIn fs := List.mem_flatMap.mpr ⟨f, hf, ho⟩
    have hproper := h o hmem
    cases o with
    | binder v => exact absurd hsubject (hproper name)
    | use v Γ =>
      obtain rfl : v = .named name := hsubject
      exact ⟨_, Γ, hmem, rfl, hproper.2⟩

theorem calledIn_iff {h : Helper} : CalledIn fs h ↔ ∃ f ∈ fs, .helper h ∈ f.asks :=
  exists_congr fun _ => and_congr_right fun _ => Filter.mem_asks_helper_iff.symm

theorem proper_exprs {es : List Expr} {s s' : Names} (h : Compiled (.exprs es fs) s s') :
    ∀ f ∈ fs, ∀ o ∈ f.occurrences [], o.Proper := by
  induction es generalizing fs s with
  | nil =>
    cases h
    exact fun _ hf => absurd hf List.not_mem_nil
  | cons e es ih =>
    cases h with
    | more he hs =>
      intro f hf
      obtain rfl | hf := List.mem_cons.mp hf
      · exact (he.sealed.hygienic [] nofun).proper
      · exact ih hs f hf

end Compile

/-! ### Prelude -/

namespace Helper

/-- A text defines a function. -/
def DefinedIn (text : String) (h : Helper) : Prop :=
  ("def " ++ h.name ++ "(").toList <:+: text.toList

/-- The characters of a definition and the space behind it. -/
def spelled (h : Helper) : List Char :=
  ("def " ++ h.name ++ "($a; $b): ").toList ++
    (Mark.render (Filter.definition h).marks ++ "; ".toList)

theorem toList_prelude (hs : List Helper) : (prelude hs).toList = hs.flatMap spelled := by
  unfold prelude
  rw [String.toList_join, List.flatMap_map]
  congr
  funext h
  unfold text spelled
  rw [← Filter.toList_text]
  simp only [String.toList_append, List.append_assoc]
  rfl

theorem mem_neededHelpers {s : Names} {h : Helper} : h ∈ s.neededHelpers ↔ h ∈ s.helpers := by
  unfold Names.neededHelpers
  cases h <;> simp

theorem definedIn_prelude {hs : List Helper} (h : hs ∈ [[], [bitAnd], [bitOr], [bitAnd, bitOr]])
    (d : Helper) : d.DefinedIn (prelude hs) ↔ d ∈ hs := by
  have hall : ∀ hs ∈ [[], [bitAnd], [bitOr], [bitAnd, bitOr]], ∀ d ∈ [bitAnd, bitOr],
      ("def " ++ d.name ++ "(").toList <:+: hs.flatMap spelled ↔ d ∈ hs := by
    decide +kernel
  unfold DefinedIn
  rw [toList_prelude]
  exact hall hs h d (by cases d <;> decide)

/-- The definitions in front of a program are those that were needed. -/
theorem definedIn_neededHelpers (s : Names) (d : Helper) :
    d.DefinedIn (prelude s.neededHelpers) ↔ d ∈ s.helpers := by
  have hneeded : s.neededHelpers ∈ [[], [bitAnd], [bitOr], [bitAnd, bitOr]] := by
    unfold Names.neededHelpers
    by_cases hand : bitAnd ∈ s.helpers <;> by_cases hor : bitOr ∈ s.helpers <;> simp [hand, hor]
  rw [definedIn_prelude hneeded, mem_neededHelpers]

end Helper

/-! ### Statements -/

/-- What a statement asks for: its condition first, then its columns. -/
def Statement.asks (st : Statement) : List Ask := asksOf 0 st.exprs

namespace Projection

theorem nodup_distinctFrom {done ls : List String} (h : done.Nodup) :
    (distinctFrom done ls).Nodup := by
  induction ls generalizing done with
  | nil => exact h
  | cons l ls ih => exact ih (Names.nodup_noted h l)

end Projection

/-! ### Programs -/

namespace Program

open RecordQuery.Compile

/-- The filters of a program that come from its query: its condition and its rows. -/
def fragments (p : Program) : List Filter :=
  p.condition.toList ++ (p.projection.map Filter.object).toList

variable {p : Program}

theorem asks_fragments : p.fragments.flatMap Filter.asks = p.parts.flatMap Filter.asks := by
  unfold fragments parts
  rw [List.flatMap_append, List.flatMap_append, List.flatMap_map]
  congr 1
  cases p.projection with
  | none => rfl
  | some es =>
    rw [Option.map_some, Option.toList_some, List.flatMap_singleton, Filter.asks_object]
    rfl

theorem occurrences_fragments :
    occurrencesIn p.fragments = p.parts.flatMap (Filter.occurrences []) := by
  have hentries : ∀ es : List (String × Filter),
      Filter.entryOccurrences [] es = es.flatMap fun e => e.2.occurrences [] := by
    intro es
    induction es with
    | nil => rfl
    | cons e es ih => exact congrArg (e.2.occurrences [] ++ ·) ih
  unfold occurrencesIn fragments parts
  simp only [occurrences_marks]
  rw [List.flatMap_append, List.flatMap_append, List.flatMap_map]
  congr 1
  cases p.projection with
  | none => rfl
  | some es =>
    rw [Option.map_some, Option.toList_some, List.flatMap_singleton]
    exact hentries es

/-- What holds of the names behind a program. -/
theorem closed_ofStatement {st : Statement} (h : ofStatement st = .ok p) :
    p.parameters = Projection.distinctFrom [] (Ask.names st.asks) ∧
      (∀ name, name ∈ p.parameters ↔ FreeIn p.fragments name) ∧
      ∀ d : Helper, d.DefinedIn p.prelude ↔ CalledIn p.fragments d := by
  obtain ⟨projection, s, s', hfrom, -, hparameters⟩ := compiledFrom_names h
  have hparts := compiled_parts hfrom
  have hasked := hparts.asked
  have hnames : Names.Asked {} s' st.asks := hasked.names
  have hask (a : Ask) : a ∈ st.asks ↔ ∃ f ∈ p.fragments, a ∈ f.asks := by
    rw [← List.mem_flatMap, asks_fragments]
    exact hasked.filters.symm.mem_iff
  have hproper : ∀ o ∈ occurrencesIn p.fragments, o.Proper := by
    rw [occurrences_fragments]
    intro o ho
    obtain ⟨f, hf, ho⟩ := List.mem_flatMap.mp ho
    exact proper_exprs hparts f hf o ho
  have hlist : p.parameters = Projection.distinctFrom [] (Ask.names st.asks) :=
    hparameters.trans hnames.parameters
  refine ⟨hlist, fun name => ?_, fun d => ?_⟩
  · rw [freeIn_iff hproper, ← hask, hlist, Projection.mem_distinctFrom, Ask.mem_names]
    exact or_iff_right List.not_mem_nil
  · rw [calledIn_iff, ← hask, prelude, hfrom.helpers, Helper.definedIn_neededHelpers,
      hnames.helpers]
    exact or_iff_right List.not_mem_nil

/-- **Programs are closed**: the parameters of a program are the variables that occur free in its
condition and its rows, each once and in the order in which the query asks for them, and its prelude
defines the functions that are called there. Whatever is compiled with the same names, parameters
are only put behind those that are there, none of them twice, and no defined function is lost. -/
theorem programs_closed :
    (∀ q p, ofText q = .ok p →
      (∃ st, Statement.ofText q = .ok st ∧
        p.parameters = Projection.distinctFrom [] (Ask.names st.asks)) ∧
      p.parameters.Nodup ∧ (∀ name, name ∈ p.parameters ↔ FreeIn p.fragments name) ∧
      ∀ h : Helper, h.DefinedIn p.prelude ↔ CalledIn p.fragments h) ∧
    ∀ es es', (namesAfter {} es).parameters.Nodup ∧
      (namesAfter {} es).parameters <+: (namesAfter {} (es ++ es')).parameters ∧
      (namesAfter {} es).helpers ⊆ (namesAfter {} (es ++ es')).helpers := by
  refine ⟨fun q p h => ?_, fun es es' => ?_⟩
  · obtain ⟨st, hst, hcompiled⟩ := ofStatement_of_ofText h
    obtain ⟨hlist, hfree, hcalled⟩ := closed_ofStatement hcompiled
    refine ⟨⟨st, hst, hlist⟩, ?_, hfree, hcalled⟩
    rw [hlist]
    exact Projection.nodup_distinctFrom List.nodup_nil
  · have hsteps : Names.Steps (namesAfter {} es) (namesAfter {} (es ++ es')) := by
      rw [namesAfter_append]
      exact steps_namesAfter _ es'
    exact ⟨(steps_namesAfter {} es).nodup List.nodup_nil, hsteps.parameters_prefix,
      hsteps.helpers_subset⟩

theorem programs_closed_marker :
    ∃ p, ofText "SELECT ? AS n WHERE a & :mask = ? AND b = '$x'" = .ok p ∧
      p.parameters = ["mask", "p1", "p2"] ∧ p.parameters.Nodup ∧ FreeIn p.fragments "mask" ∧
      ¬FreeIn p.fragments "x" ∧ CalledIn p.fragments .bitAnd ∧ ¬CalledIn p.fragments .bitOr := by
  obtain ⟨p, hp, hlist⟩ := ok_of_any
    (r := ofText "SELECT ? AS n WHERE a & :mask = ? AND b = '$x'")
    (p := fun p => decide (p.parameters = ["mask", "p1", "p2"] ∧ p.helpers = [.bitAnd]))
    (by decide +kernel)
  obtain ⟨hparameters, hhelpers⟩ := of_decide_eq_true hlist
  obtain ⟨-, hnodup, hfree, hcalled⟩ := programs_closed.1 _ p hp
  refine ⟨p, hp, hparameters, hnodup, ?_, ?_, ?_, ?_⟩
  · rw [← hfree, hparameters]
    decide
  · rw [← hfree, hparameters]
    decide
  · rw [← hcalled, prelude, hhelpers, Helper.definedIn_prelude (by decide)]
    decide
  · rw [← hcalled, prelude, hhelpers, Helper.definedIn_prelude (by decide)]
    decide

end Program

end RecordQuery
