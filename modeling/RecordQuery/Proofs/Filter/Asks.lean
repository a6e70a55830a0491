import RecordQuery.Proofs.Filter.Mark

/-! # What a filter asks for

A filter needs values for its parameters and definitions of the functions it calls that are not
built in. Both show in its text, outside quotes: as a variable with the name of a parameter, and as
the name of a defined function in front of its arguments (`Filter.asks`, `Filter.called_marks`). -/

namespace RecordQuery

/-- Something that has to be given to a filter from outside. -/
inductive Ask where
  | parameter (name : String)
  | helper (h : Helper)
  deriving DecidableEq

/-- The defined function of a name. -/
def Helper.ofName? (w : String) : Option Helper := [bitAnd, bitOr].find? fun h => h.name == w

theorem Helper.ofName?_name (h : Helper) : ofName? h.name = some h := by
  cases h <;> decide

theorem Helper.name_of_ofName? {w : String} {h : Helper} (hw : ofName? w = some h) : h.name = w :=
  beq_iff_eq.mp (List.find?_some (p := fun h : Helper => h.name == w) hw)

namespace Mark

/-- What a mark asks for. -/
def ask? : Mark → Option Ask
  | .variable (.named name) => some (.parameter name)
  | .word w => (Helper.ofName? w).map .helper
  | _ => none

@[simp] theorem ask?_space : space.ask? = none := rfl

@[simp] theorem ask?_sign (p : Punctuation) : (sign p).ask? = none := rfl

@[simp] theorem ask?_number (n : Number) : (number n).ask? = none := rfl

@[simp] theorem ask?_quoted (s : String) : (quoted s).ask? = none := rfl

@[simp] theorem ask?_bound (n : Nat) : (Mark.variable (.bound n)).ask? = none := rfl

@[simp] theorem ask?_place : (Mark.variable .place).ask? = none := rfl

@[simp] theorem ask?_named (name : String) :
    (Mark.variable (.named name)).ask? = some (.parameter name) := rfl

@[simp] theorem ask?_helper (h : Helper) : (word h.name).ask? = some (.helper h) := by
  rw [ask?, Helper.ofName?_name]
  rfl

@[simp] theorem ask?_operator (op : Operator) : op.mark.ask? = none := by
  cases op <;> decide

@[simp] theorem ask?_builtin (b : Builtin) : (word b.name).ask? = none := by
  cases b <;> decide

/-- The words of the language. -/
theorem ask?_word {w : String}
    (h : w ∈ ["as", "if", "then", "elif", "else", "end", "true", "false", "null"]) :
    (word w).ask? = none := by
  have hall : ∀ w ∈ ["as", "if", "then", "elif", "else", "end", "true", "false", "null"],
      (word w).ask? = none := by decide
  exact hall w h

theorem ask?_eq_parameter {m : Mark} {name : String} (h : m.ask? = some (.parameter name)) :
    m = .variable (.named name) := by
  cases m with
  | «variable» v =>
    cases v <;> cases h
    rfl
  | word w =>
    obtain ⟨d, -, h⟩ := Option.map_eq_some_iff.mp (show (Helper.ofName? w).map Ask.helper = _ from h)
    cases h
  | _ => cases h

theorem ask?_eq_helper {m : Mark} {h : Helper} (hm : m.ask? = some (.helper h)) :
    m = .word h.name := by
  cases m with
  | «variable» v => cases v <;> cases hm
  | word w =>
    obtain ⟨h', hw, heq⟩ := Option.map_eq_some_iff.mp hm
    cases heq
    rw [Helper.name_of_ofName? hw]
  | _ => cases hm

end Mark

namespace Filter

/-- What a filter asks for, from left to right. -/
def asks (f : Filter) : List Ask := f.marks.filterMap Mark.ask?

theorem mem_asks_parameter {f : Filter} {name : String} :
    .parameter name ∈ f.asks ↔ .variable (.named name) ∈ f.marks := by
  refine List.mem_filterMap.trans ⟨?_, fun h => ⟨_, h, Mark.ask?_named name⟩⟩
  rintro ⟨m, hm, hask⟩
  rw [← Mark.ask?_eq_parameter hask]
  exact hm

theorem mem_asks_helper {f : Filter} {h : Helper} :
    .helper h ∈ f.asks ↔ .word h.name ∈ f.marks := by
  refine List.mem_filterMap.trans ⟨?_, fun hm => ⟨_, hm, Mark.ask?_helper h⟩⟩
  rintro ⟨m, hm, hask⟩
  rw [← Mark.ask?_eq_helper hask]
  exact hm

/-! ### What nodes ask for -/

variable {f g : Filter}

@[simp] theorem asks_group (f : Filter) : (group f).asks = f.asks := by
  simp [asks, marks, Mark.inside, List.filterMap_cons]

@[simp] theorem asks_array (f : Filter) : (array f).asks = f.asks := by
  simp [asks, marks, Mark.inside, List.filterMap_cons]

@[simp] theorem asks_negate (f : Filter) : (negate f).asks = f.asks := by
  simp [asks, marks, List.filterMap_cons]

@[simp] theorem asks_pipe (f g : Filter) : (pipe f g).asks = f.asks ++ g.asks := by
  simp [asks, marks, List.filterMap_cons]

@[simp] theorem asks_operation (op : Operator) (f g : Filter) :
    (operation op f g).asks = f.asks ++ g.asks := by
  simp [asks, marks, List.filterMap_cons]

@[simp] theorem asks_helper (h : Helper) (f g : Filter) :
    (helper h f g).asks = .helper h :: (f.asks ++ g.asks) := by
  simp [asks, marks, Mark.inside, List.filterMap_cons]

@[simp] theorem asks_bound (n : Nat) : (Filter.variable (.bound n)).asks = [] := rfl

@[simp] theorem asks_place : (Filter.variable .place).asks = [] := rfl

@[simp] theorem asks_named (name : String) :
    (Filter.variable (.named name)).asks = [.parameter name] := rfl

@[simp] theorem asks_identity : identity.asks = [] := rfl

@[simp] theorem asks_elements : elements.asks = [] := rfl

@[simp] theorem asks_first : first.asks = [] := rfl

@[simp] theorem asks_null : null.asks = [] := by decide

@[simp] theorem asks_boolean (b : Bool) : (boolean b).asks = [] := by cases b <;> decide

@[simp] theorem asks_string (s : String) : (string s).asks = [] := rfl

@[simp] theorem asks_number (n : Number) : (number n).asks = [] := rfl

@[simp] theorem asks_field (name : String) : (field name).asks = [] := rfl

theorem asks_bind (f g : Filter) {v : Variable} (hv : (Mark.variable v).ask? = none) :
    (bind f v g).asks = f.asks ++ g.asks := by
  simp [asks, marks, Mark.spaced, List.filterMap_cons, hv, Mark.ask?_word]

@[simp] theorem asks_bind_bound (f g : Filter) (n : Nat) :
    (bind f (.bound n) g).asks = f.asks ++ g.asks := asks_bind f g rfl

@[simp] theorem asks_bind_place (f g : Filter) : (bind f .place g).asks = f.asks ++ g.asks :=
  asks_bind f g rfl

theorem asks_joined {between : List Mark} (hb : between.filterMap Mark.ask? = [])
    (fs : List Filter) : (joinedMarks between fs).filterMap Mark.ask? = fs.flatMap asks := by
  induction fs with
  | nil => rfl
  | cons f fs ih =>
    cases fs with
    | nil => exact (List.append_nil _).symm
    | cons g fs =>
      rw [joinedMarks, List.filterMap_append, List.filterMap_append, hb, ih]
      · rfl
      · exact List.cons_ne_nil _ _

@[simp] theorem asks_sequence (fs : List Filter) : (sequence fs).asks = fs.flatMap asks :=
  asks_joined rfl fs

@[simp] theorem asks_call (b : Builtin) (fs : List Filter) :
    (call b fs).asks = fs.flatMap asks := by
  cases fs with
  | nil => simp [asks, marks]
  | cons f fs =>
    have hjoined := @asks_joined [.sign .semicolon, .space] rfl (f :: fs)
    simp [asks, marks, Mark.inside, List.filterMap_cons, hjoined]

@[simp] theorem asks_apply (b : Builtin) : (apply b).asks = [] := asks_call b []

@[simp] theorem asks_digit (n : Nat) : (digit n).asks = [] := rfl

/-- What the branches of a conditional ask for. -/
def branchAsks (b : Branch) : List Ask := (branchMarks b).filterMap Mark.ask?

@[simp] theorem branchAsks_otherwise (f : Filter) : branchAsks (.otherwise f) = f.asks := by
  simp [branchAsks, branchMarks, asks, Mark.spaced, List.filterMap_cons, Mark.ask?_word]

@[simp] theorem branchAsks_elseIf (test yes : Filter) (rest : Branch) :
    branchAsks (.elseIf test yes rest) = test.asks ++ (yes.asks ++ branchAsks rest) := by
  simp [branchAsks, branchMarks, asks, Mark.spaced, List.filterMap_cons, Mark.ask?_word]

@[simp] theorem asks_cond (test yes : Filter) (rest : Branch) :
    (cond test yes rest).asks = test.asks ++ (yes.asks ++ branchAsks rest) := by
  simp [asks, marks, branchAsks, Mark.spaced, List.filterMap_cons, Mark.ask?_word]

@[simp] theorem asks_slice (low high : Option Filter) :
    (slice low high).asks = low.toList.flatMap asks ++ high.toList.flatMap asks := by
  cases low <;> cases high <;> simp [asks, marks, boundMarks, Mark.inside, List.filterMap_cons]

theorem asks_entries (es : List (String × Filter)) :
    (entryMarks es).filterMap Mark.ask? = es.flatMap fun e => e.2.asks := by
  induction es with
  | nil => rfl
  | cons e es ih =>
    obtain ⟨key, f⟩ := e
    cases es with
    | nil => simp [entryMarks, Mark.inside, asks, List.filterMap_cons]
    | cons e es => simp [entryMarks, Mark.inside, asks, List.filterMap_cons, ih]

theorem asks_object (es : List (String × Filter)) :
    (object es).asks = es.flatMap fun e => e.2.asks := by
  rw [← asks_entries]
  simp [asks, marks, Mark.inside, List.filterMap_cons]

end Filter

/-! ### Calls -/

namespace Mark

variable {m : Mark} {ms ns : List Mark}

/-- The name of a defined function stands in front of a parenthesis only. -/
def Called : List Mark → Prop
  | [] => True
  | m :: ms => (∀ h : Helper, m = .word h.name → ms.head? = some (.sign (.opening .round))) ∧
    Called ms

theorem called_nil : Called [] := trivial

theorem Called.append (h : Called ms) (h' : Called ns) : Called (ms ++ ns) := by
  induction ms with
  | nil => exact h'
  | cons m ms ih =>
    refine ⟨fun d hd => ?_, ih h.2⟩
    change (ms ++ ns).head? = _
    rw [List.head?_append, h.1 d hd]
    rfl

theorem called_cons (hm : m.ask? = none) (h : Called ms) : Called (m :: ms) := by
  refine ⟨fun d hd => ?_, h⟩
  rw [hd, ask?_helper] at hm
  cases hm

theorem called_variable (v : Variable) (h : Called ms) : Called (.variable v :: ms) :=
  ⟨nofun, h⟩

theorem called_inside {b : Bracket} (h : Called ms) : Called (inside b ms) :=
  called_cons rfl (h.append (called_cons rfl called_nil))

theorem called_spaced {w : String}
    (hw : w ∈ ["as", "if", "then", "elif", "else", "end", "true", "false", "null"])
    (h : Called ms) : Called (spaced w ++ ms) :=
  called_cons rfl (called_cons (ask?_word hw) (called_cons rfl h))

theorem Called.occurs (h : Called ms) {d : Helper} (hd : .word d.name ∈ ms) :
    [.word d.name, .sign (.opening .round)] <:+: ms := by
  obtain ⟨before, behind, rfl⟩ := List.append_of_mem hd
  induction before with
  | nil =>
    obtain ⟨rest, hrest⟩ := List.head?_eq_some_iff.mp (h.1 d rfl)
    exact ⟨[], rest, by rw [hrest]; rfl⟩
  | cons m before ih =>
    exact (ih h.2 (List.mem_append_right _ List.mem_cons_self)).trans
      (List.suffix_cons _ _).isInfix

end Mark

namespace Filter

open Mark

mutual

/-- **Defined functions** are called wherever their names stand in a filter. -/
theorem called_marks : ∀ f : Filter, Called f.marks
  | .identity | .number _ | .string _ => called_cons rfl called_nil
  | .elements => called_cons rfl (called_inside called_nil)
  | .first | .field _ => called_cons rfl (called_inside (called_cons rfl called_nil))
  | .null | .boolean true | .boolean false => called_cons (ask?_word (by decide)) called_nil
  | .variable v => called_variable v called_nil
  | .slice low high =>
    called_cons rfl (called_inside ((called_bound low).append (called_cons rfl (called_bound high))))
  | .group f => called_inside (called_marks f)
  | .array f => called_inside (called_marks f)
  | .object entries => called_inside (called_entries entries)
  | .sequence fs => called_joined (called_cons rfl (called_cons rfl called_nil)) fs
  | .pipe f g => (called_marks f).append
      (called_cons rfl (called_cons rfl (called_cons rfl (called_marks g))))
  | .negate f => called_cons rfl (called_marks f)
  | .operation op f g => (called_marks f).append
      (called_cons rfl (called_cons (ask?_operator op) (called_cons rfl (called_marks g))))
  | .bind value v body => (called_marks value).append (called_spaced (by decide)
      (called_variable v (called_cons rfl (called_cons rfl (called_cons rfl (called_marks body))))))
  | .cond test yes rest =>
    have hend : Called [space, word "end"] :=
      called_cons rfl (called_cons (ask?_word (by decide)) called_nil)
    called_cons (ask?_word (by decide)) (called_cons rfl ((called_marks test).append
      (called_spaced (by decide) ((called_marks yes).append ((called_branch rest).append hend)))))
  | .call b [] => called_cons (ask?_builtin b) called_nil
  | .call b (f :: fs) => called_cons (ask?_builtin b)
      (called_inside (called_joined (called_cons rfl (called_cons rfl called_nil)) (f :: fs)))
  | .helper h f g =>
    ⟨fun _ _ => rfl, called_inside ((called_marks f).append
      (called_cons rfl (called_cons rfl (called_marks g))))⟩

theorem called_bound : ∀ o : Option Filter, Called (boundMarks o)
  | none => called_nil
  | some f => called_marks f

theorem called_joined {between : List Mark} (hb : Called between) :
    ∀ fs : List Filter, Called (joinedMarks between fs)
  | [] => called_nil
  | [f] => called_marks f
  | f :: g :: fs => (called_marks f).append (hb.append (called_joined hb (g :: fs)))

theorem called_entries : ∀ es : List (String × Filter), Called (entryMarks es)
  | [] => called_nil
  | [(_, f)] => called_cons rfl (called_cons rfl (called_cons rfl (called_inside (called_marks f))))
  | (_, f) :: e :: rest => called_cons rfl (called_cons rfl (called_cons rfl
      ((called_inside (called_marks f)).append
        (called_cons rfl (called_cons rfl (called_entries (e :: rest)))))))

theorem called_branch : ∀ b : Branch, Called (branchMarks b)
  | .otherwise f => called_spaced (by decide) (called_marks f)
  | .elseIf test yes rest => called_spaced (by decide) ((called_marks test).append
      (called_spaced (by decide) ((called_marks yes).append (called_branch rest))))

end

/-- A filter asks for the defined functions that it calls. -/
theorem mem_asks_helper_iff {f : Filter} {h : Helper} :
    .helper h ∈ f.asks ↔ [.word h.name, .sign (.opening .round)] <:+: f.marks :=
  mem_asks_helper.trans
    ⟨(called_marks f).occurs, fun hin => hin.subset List.mem_cons_self⟩

end Filter

end RecordQuery
