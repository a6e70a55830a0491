import Mathlib.Data.List.Forall2
import RecordQuery.Compile.Names
import RecordQuery.Proofs.Jq.Reading

/-! # Reading filters back

What jq reads in the text of a filter (`Filter.ReadAs`), one lemma for each node that the compiler
makes of expressions without patterns and calls. The level is part of what is read: an operand must
be as tight as its operator asks, and a group is a term whatever stands in it. -/

namespace RecordQuery

namespace Mark

variable {ms ns : List Mark} {m : Mark}

/-- The tokens of a run of marks. -/
def tokens (ms : List Mark) : List Jq.Token := ms.filterMap token?

@[simp] theorem tokens_nil : tokens [] = [] := rfl

@[simp] theorem tokens_append : tokens (ms ++ ns) = tokens ms ++ tokens ns := List.filterMap_append

@[simp] theorem tokens_space : tokens (.space :: ms) = tokens ms := rfl

@[simp] theorem tokens_sign (p : Punctuation) : tokens (.sign p :: ms) = .sign p :: tokens ms := rfl

@[simp] theorem tokens_word (w : String) : tokens (.word w :: ms) = .word w :: tokens ms := rfl

@[simp] theorem tokens_variable (v : Variable) :
    tokens (.variable v :: ms) = .variable v.name :: tokens ms := rfl

@[simp] theorem tokens_quoted (s : String) : tokens (.quoted s :: ms) = .string s :: tokens ms := rfl

@[simp] theorem tokens_inside (b : Bracket) : tokens (inside b ms) =
    .sign (.opening b) :: (tokens ms ++ [.sign (.closing b)]) := by
  simp [inside]

/-- Marks that are read as the tokens they are. -/
structure Tidy (ms : List Mark) : Prop where
  readable : ∀ m ∈ ms, m.Readable
  loose : Loose ms

theorem readable_space : Readable .space := trivial

theorem readable_sign (p : Punctuation) : Readable (.sign p) := trivial

theorem readable_quoted (s : String) : Readable (.quoted s) := trivial

theorem tidy_nil : Tidy [] := ⟨fun _ hm => absurd hm List.not_mem_nil, trivial⟩

theorem Tidy.cons (h : Tidy ms) (hm : m.Readable)
    (hs : m.isClosed = true ∨ ∀ n ∈ ms.head?, n.separates = true) : Tidy (m :: ms) := by
  refine ⟨fun n hn => ?_, hs, h.loose⟩
  obtain rfl | hn := List.mem_cons.mp hn
  · exact hm
  · exact h.readable n hn

theorem tidy_one (hm : m.Readable) : Tidy [m] :=
  tidy_nil.cons hm (.inr fun _ hn => absurd hn (Option.not_mem_none _))

theorem Tidy.append (h : Tidy ms) (h' : Tidy ns) (hn : ∀ n ∈ ns.head?, n.separates = true) :
    Tidy (ms ++ ns) := by
  refine ⟨fun n hmem => ?_, h.loose.append h'.loose hn⟩
  obtain hmem | hmem := List.mem_append.mp hmem
  · exact h.readable n hmem
  · exact h'.readable n hmem

/-- A separator between two runs. -/
theorem Tidy.between (h : Tidy ms) (hm : m.Readable) (hs : m.separates = true) (h' : Tidy ns) :
    Tidy (ms ++ m :: ns) := by
  have hclosed : m.isClosed = true := by
    cases m with
    | quoted s => cases hs
    | _ => exact hs
  refine h.append (h'.cons hm (.inl hclosed)) fun n hn => ?_
  cases hn
  exact hs

theorem Tidy.inside (h : Tidy ms) (b : Bracket) : Tidy (inside b ms) :=
  (h.between (readable_sign _) rfl tidy_nil).cons (readable_sign _) (.inl rfl)

theorem Tidy.called (h : Tidy ms) (hm : m.Readable) (b : Bracket) : Tidy (m :: Mark.inside b ms) :=
  (h.inside b).cons hm (.inr fun n hn => by
    cases hn
    rfl)

/-- A mark between two spaces. -/
theorem Tidy.spaced (h : Tidy ms) (hm : m.Readable) (h' : Tidy ns) :
    Tidy (ms ++ .space :: m :: .space :: ns) := by
  have hbehind : ∀ n ∈ (space :: ns).head?, n.separates = true := by
    intro n hn
    cases hn
    rfl
  exact h.between readable_space rfl ((h'.cons readable_space (.inl rfl)).cons hm (.inr hbehind))

end Mark

theorem isName_of_isVariableName {w : String} (h : Compile.isVariableName w = true) :
    Mark.IsName w := by
  unfold Compile.isVariableName at h
  split at h
  · cases h
  · next c cs heq =>
    rw [Bool.and_eq_true, List.all_eq_true] at h
    exact ⟨c, cs, heq, h.1, h.2⟩

theorem readable_builtin (b : Builtin) : (Mark.word b.name).Readable :=
  isName_of_isVariableName (by cases b <;> decide)

theorem readable_operator (op : Operator) : op.mark.Readable := by
  cases op with
  | and | or => exact isName_of_isVariableName (by decide)
  | _ => exact trivial

namespace Filter

open Mark

/-- A filter whose text is read at a level as a program. -/
structure ReadAs (f : Filter) (l : Jq.Level) (p : Jq) : Prop where
  tidy : Tidy f.marks
  reads : Jq.Reads l (tokens f.marks) p

variable {f g : Filter} {p q : Jq} {l m : Jq.Level}

theorem ReadAs.looser (h : f.ReadAs m p) (hl : l.tightness ≤ m.tightness) : f.ReadAs l p :=
  ⟨h.tidy, h.reads.looser hl⟩

/-! ### Leaves -/

theorem readAs_number {n : Int64} (hn : 0 ≤ n.toInt) :
    (number (.integer n)).ReadAs .term (.number n.toInt.toNat) :=
  ⟨tidy_one hn, Jq.reads_leaf fun _ _ => rfl⟩

theorem readAs_string (s : String) : (string s).ReadAs .term (.string s) :=
  ⟨tidy_one (readable_quoted s), Jq.reads_leaf fun _ _ => rfl⟩

theorem readAs_boolean (b : Bool) : (boolean b).ReadAs .term (.boolean b) := by
  cases b with
  | false => exact ⟨tidy_one (isName_of_isVariableName (by decide)), Jq.reads_leaf fun _ _ => rfl⟩
  | true => exact ⟨tidy_one (isName_of_isVariableName (by decide)), Jq.reads_leaf fun _ _ => rfl⟩

theorem readAs_null : null.ReadAs .term .null :=
  ⟨tidy_one (isName_of_isVariableName (by decide)), Jq.reads_leaf fun _ _ => rfl⟩

theorem readAs_variable {v : Variable} (hv : IsName v.name) :
    (Filter.variable v).ReadAs .term (.variable v.name) :=
  ⟨tidy_one hv, Jq.reads_leaf fun _ _ => rfl⟩

theorem readAs_identity : identity.ReadAs .term .identity :=
  ⟨tidy_one (readable_sign _), Jq.reads_identity⟩

theorem readAs_elements : elements.ReadAs .term .elements :=
  ⟨tidy_nil.called (readable_sign _) .square, Jq.reads_elements⟩

theorem readAs_field (name : String) : (field name).ReadAs .term (.field name) :=
  ⟨(tidy_one (readable_quoted name)).called (readable_sign _) .square, Jq.reads_field name⟩

theorem readAs_not : (apply .not).ReadAs .term .not :=
  ⟨tidy_one (readable_builtin _), Jq.reads_leaf fun _ _ => rfl⟩

theorem readAs_unique : (apply .unique).ReadAs .term .unique :=
  ⟨tidy_one (readable_builtin _), Jq.reads_leaf fun _ _ => rfl⟩

theorem readAs_reverse : (apply .reverse).ReadAs .term .reverse :=
  ⟨tidy_one (readable_builtin _), Jq.reads_leaf fun _ _ => rfl⟩

/-! ### Nodes -/

theorem ReadAs.group (h : f.ReadAs .pipe p) : (group f).ReadAs .term p := by
  refine ⟨h.tidy.inside .round, ?_⟩
  have hreads := h.reads.group
  rwa [marks, tokens_inside]

theorem ReadAs.array (h : f.ReadAs .pipe p) : (array f).ReadAs .term (.array p) := by
  refine ⟨h.tidy.inside .square, ?_⟩
  have hreads := h.reads.array
  rwa [marks, tokens_inside]

/-- A minus sign in front of a group. -/
theorem ReadAs.negate (h : f.ReadAs .pipe p) :
    (negate (.group f)).ReadAs .product (.negate p) := by
  refine ⟨h.tidy.called (readable_sign _) .round, ?_⟩
  have hreads := (h.group.looser (l := .product) (by decide)).reads.negate.raise (l := .product)
    (k := 1) rfl (by decide)
  rwa [marks, tokens_sign]

theorem ReadAs.pipe (h : f.ReadAs .comma p) (h' : g.ReadAs .pipe q) :
    (pipe f g).ReadAs .pipe (.pipe p q) := by
  refine ⟨h.tidy.spaced (readable_sign _) h'.tidy, ?_⟩
  have hreads := h.reads.pipe h'.reads
  rwa [marks, tokens_append, tokens_space, tokens_sign, tokens_space]


theorem ReadAs.operation {op : Operator} {t : Jq.Token} (h : f.ReadAs l.tighter p)
    (ht : op.mark.token? = some t) (hj : Jq.joiner? l t = some (.operation op))
    (h' : g.ReadAs l.tighter q) : (operation op f g).ReadAs l (.operation op p q) := by
  refine ⟨h.tidy.spaced (readable_operator op) h'.tidy, ?_⟩
  have hreads := h.reads.join hj h'.reads
  have htokens : tokens (op.mark :: space :: g.marks) = t :: tokens g.marks :=
    List.filterMap_cons_some ht
  rwa [marks, tokens_append, tokens_space, htokens]

theorem ReadAs.bind {v : Variable} (h : f.ReadAs .term p) (hv : IsName v.name)
    (h' : g.ReadAs .pipe q) : (bind f v g).ReadAs .pipe (.bind p v.name q) := by
  have hword : Readable (.word "as") := isName_of_isVariableName (by decide)
  have hname : Readable (.variable v) := hv
  refine ⟨?_, ?_⟩
  · have hvalue := (tidy_one hname).spaced (readable_sign .bar) h'.tidy
    exact h.tidy.spaced hword hvalue
  · have hbind : Jq.ReadsTo .operand .pipe _ (.bind p v.name q) := h.reads.bind h'.reads
    have hreads := hbind.raise (l := .pipe) (k := 7) rfl (by decide)
    rwa [marks, tokens_append, spaced]

theorem ReadAs.select (h : f.ReadAs .pipe p) : (call .select [f]).ReadAs .term (.select p) := by
  refine ⟨h.tidy.called (readable_builtin _) .round, ?_⟩
  have hreads := h.reads.select
  rwa [marks, joinedMarks, tokens_word, tokens_inside]

theorem ReadAs.sortBy (h : f.ReadAs .pipe p) : (call .sortBy [f]).ReadAs .term (.sortBy p) := by
  refine ⟨h.tidy.called (readable_builtin _) .round, ?_⟩
  have hreads := h.reads.sortBy
  rwa [marks, joinedMarks, tokens_word, tokens_inside]

theorem ReadAs.any (h : f.ReadAs .pipe p) (h' : g.ReadAs .pipe q) :
    (call .any [f, g]).ReadAs .term (.any p q) := by
  have hargs : Tidy (f.marks ++ Mark.sign .semicolon :: space :: g.marks) :=
    h.tidy.between (readable_sign _) rfl (h'.tidy.cons readable_space (.inl rfl))
  refine ⟨hargs.called (readable_builtin _) .round, ?_⟩
  have hreads := h.reads.any h'.reads
  have htokens : tokens (call .any [f, g]).marks = .word "any" :: .sign (.opening .round) ::
      (tokens f.marks ++ .sign .semicolon :: (tokens g.marks ++ [.sign (.closing .round)])) := by
    simp [marks, joinedMarks, Builtin.name]
  rwa [htokens]

/-- The bounds of a slice are written out. -/
theorem readAs_slice {low high : Option Int64} (hlow : ∀ n ∈ low, 0 ≤ n.toInt)
    (hhigh : ∀ n ∈ high, 0 ≤ n.toInt) (h : low.isNone = true → high.isNone = false) :
    (slice (low.map fun n => number (.integer n)) (high.map fun n => number (.integer n))).ReadAs
      .term (.slice (low.map fun n => n.toInt.toNat) (high.map fun n => n.toInt.toNat)) := by
  have hbound : ∀ o : Option Int64, (∀ n ∈ o, 0 ≤ n.toInt) →
      Tidy (boundMarks (o.map fun n => number (.integer n))) ∧
        tokens (boundMarks (o.map fun n => number (.integer n))) =
          Jq.boundTokens (o.map fun n => n.toInt.toNat) := by
    intro o ho
    cases o with
    | none => exact ⟨tidy_nil, rfl⟩
    | some n => exact ⟨tidy_one (ho n rfl), rfl⟩
  obtain ⟨hl, hlt⟩ := hbound low hlow
  obtain ⟨hr, hrt⟩ := hbound high hhigh
  refine ⟨(hl.between (readable_sign _) rfl hr).called (readable_sign _) .square, ?_⟩
  have hreads : Jq.Reads .term _ (.slice (low.map fun n => n.toInt.toNat)
      (high.map fun n => n.toInt.toNat)) := Jq.reads_slice (by simpa using h)
  rw [marks, tokens_sign, tokens_inside, tokens_append, tokens_sign, hlt, hrt]
  simpa using hreads

/-! ### Lists -/

/-- Filters whose texts are read at a level as programs. -/
abbrev ReadEach (l : Jq.Level) : List Filter → List Jq → Prop :=
  List.Forall₂ fun f p => f.ReadAs l p

variable {fs : List Filter} {ps : List Jq}

theorem readsAll_tokens (h : ReadEach l fs ps) :
    Jq.ReadsAll l (fs.map fun f => tokens f.marks) ps := by
  induction h with
  | nil => exact .nil
  | cons h _ ih => exact .cons h.reads ih

theorem tidy_joined (h : f.ReadAs l p) (hs : ReadEach l fs ps) :
    Tidy (joinedMarks [.sign .comma, .space] (f :: fs)) := by
  induction hs generalizing f p with
  | nil => exact h.tidy
  | cons h' _ ih =>
    exact h.tidy.between (readable_sign _) rfl ((ih h').cons readable_space (.inl rfl))

theorem tokens_joined (f : Filter) (fs : List Filter) :
    tokens (joinedMarks [.sign .comma, .space] (f :: fs)) =
      tokens f.marks ++ Jq.behind (.sign .comma) (fs.map fun g => tokens g.marks) := by
  induction fs generalizing f with
  | nil => simp [joinedMarks, Jq.behind]
  | cons g fs ih =>
    rw [joinedMarks, tokens_append]
    · change tokens f.marks ++ Jq.Token.sign .comma :: tokens (joinedMarks _ (g :: fs)) = _
      rw [ih g]
      rfl
    · exact List.cons_ne_nil _ _

/-- Filters with commas between. -/
theorem ReadAs.sequence (h : f.ReadAs .or p) (hs : ReadEach .or fs ps) :
    (sequence (f :: fs)).ReadAs .comma (ps.foldl .comma p) := by
  refine ⟨tidy_joined h hs, ?_⟩
  have hreads := Jq.ReadsAll.commas h.reads (readsAll_tokens hs)
  rwa [marks, tokens_joined]

/-! ### Objects -/

/-- Entries whose values are read as programs, under the same keys. -/
abbrev ReadEntries : List (String × Filter) → List (String × Jq) → Prop :=
  List.Forall₂ fun e q => e.1 = q.1 ∧ e.2.ReadAs .pipe q.2

variable {es : List (String × Filter)} {qs : List (String × Jq)}

theorem tidy_entries (h : ReadEntries es qs) : Tidy (entryMarks es) := by
  induction h with
  | nil => exact tidy_nil
  | @cons e q es qs h hs ih =>
    obtain ⟨key, f⟩ := e
    have hvalue : Tidy (inside .round f.marks) := h.2.tidy.inside .round
    have hkey : ∀ {ms : List Mark}, Tidy ms →
        Tidy (quoted key :: Mark.sign .colon :: space :: ms) := fun hms =>
      ((hms.cons readable_space (.inl rfl)).cons (readable_sign _) (.inl rfl)).cons
        (readable_quoted key) (.inl rfl)
    cases hs with
    | nil => exact hkey hvalue
    | cons =>
      exact hkey (hvalue.between (readable_sign _) rfl (ih.cons readable_space (.inl rfl)))

theorem tokens_entries (es : List (String × Filter)) :
    tokens (entryMarks es) ++ [.sign (.closing .curly)] =
      Jq.entryTokens (es.map fun e => (e.1, tokens (inside .round e.2.marks))) := by
  induction es with
  | nil => rfl
  | cons e es ih =>
    obtain ⟨key, f⟩ := e
    cases es with
    | nil => simp [entryMarks, Jq.entryTokens]
    | cons e es =>
      rw [List.map_cons] at ih
      rw [List.map_cons, List.map_cons, Jq.entryTokens, ← ih]
      · simp [entryMarks]
      · exact List.cons_ne_nil _ _

theorem readsEntries_tokens (h : ReadEntries es qs) :
    Jq.ReadsEntries (es.map fun e => (e.1, tokens (inside .round e.2.marks))) qs := by
  induction h with
  | nil => exact .nil
  | @cons e q es qs h _ ih =>
    obtain ⟨key, p⟩ := q
    obtain ⟨rfl, hf⟩ := h
    exact .cons hf.group.reads ih

theorem readAs_object (h : ReadEntries es qs) : (object es).ReadAs .term (.object qs) := by
  refine ⟨(tidy_entries h).inside .curly, ?_⟩
  have hreads := (readsEntries_tokens h).object
  rwa [marks, tokens_inside, tokens_entries]

/-! ### Pipes -/

/-- A filter whose text is read as programs piped one into another. -/
structure ReadPiped (f : Filter) (ps : List Jq) : Prop where
  tidy : Tidy f.marks
  piped : Jq.Piped (tokens f.marks) ps

theorem ReadAs.piped (h : f.ReadAs .comma p) : f.ReadPiped [p] := ⟨h.tidy, .one h.reads⟩

theorem ReadPiped.pipe {ps qs : List Jq} (h : f.ReadPiped ps) (h' : g.ReadPiped qs) :
    (Filter.pipe f g).ReadPiped (ps ++ qs) := by
  refine ⟨h.tidy.spaced (readable_sign _) h'.tidy, ?_⟩
  have hpiped := h.piped.append h'.piped
  rwa [marks, tokens_append, tokens_space, tokens_sign, tokens_space]

theorem ReadPiped.readAs {ps : List Jq} (h : f.ReadPiped ps) : f.ReadAs .pipe (Jq.pipeline ps) :=
  ⟨h.tidy, h.piped.reads⟩

/-! ### Texts -/

/-- **The text of a filter** is read as its program. -/
theorem ReadAs.read? (h : f.ReadAs .pipe p) : Jq.read? f.text = some p :=
  Jq.read?_marks (toList_text f) h.tidy.readable h.tidy.loose h.reads

end Filter

end RecordQuery
