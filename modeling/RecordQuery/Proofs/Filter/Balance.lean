import RecordQuery.Proofs.Filter.ReadBack

/-! # Brackets in a filter

A reader of a text keeps the brackets that are open, the innermost one first, and stops where
another bracket than that one is closed (`Bracket.after`). A text is balanced if the reader gets
through it and none is open behind it (`Balanced`). What stands in quotes does not count: it is
taken out of the text of a filter first (`Filter.outline`).

In the marks of a filter brackets come in pairs, with other pairs between (`Filter.nested_marks`),
so the outline of a filter is balanced if its variables have proper names
(`Filter.WellNamed.balanced`). -/

namespace RecordQuery

/-! ### Open brackets -/

namespace Bracket

/-- Closes a bracket, which must be the innermost open one. -/
def close (b : Bracket) : List Bracket → Option (List Bracket)
  | [] => none
  | c :: opened => if c = b then some opened else none

/-- The open brackets behind one more character. -/
def step (opened : List Bracket) : Char → Option (List Bracket)
  | '(' => some (round :: opened)
  | '[' => some (square :: opened)
  | '\x7b' => some (curly :: opened)
  | ')' => close round opened
  | ']' => close square opened
  | '\x7d' => close curly opened
  | _ => some opened

/-- The open brackets behind a text. -/
def after (opened : List Bracket) (cs : List Char) : Option (List Bracket) := cs.foldlM step opened

variable {opened opened' : List Bracket} {c : Char} {cs ds : List Char}

theorem after_append (opened : List Bracket) (cs ds : List Char) :
    after opened (cs ++ ds) = (after opened cs).bind fun opened => after opened ds :=
  List.foldlM_append

/-- The characters that are brackets. -/
def chars : List Char := ['(', '[', '\x7b', ')', ']', '\x7d']

theorem step_of_not_mem (h : c ∉ chars) : step opened c = some opened := by
  unfold step
  split <;> first | rfl | exact absurd (by decide) h

theorem after_of_not_mem (h : ∀ c ∈ cs, c ∉ chars) : after opened cs = some opened := by
  induction cs with
  | nil => rfl
  | cons c cs ih =>
    obtain ⟨hc, hcs⟩ := List.forall_mem_cons.mp h
    rw [after, List.foldlM_cons, step_of_not_mem hc]
    exact ih hcs

theorem close_eq_some {b : Bracket} : close b opened = some opened' ↔ opened = b :: opened' := by
  cases opened with
  | nil => simp [close]
  | cons d opened => simp [close]

/-- Brackets that are open further out play no part. -/
theorem step_within (h : step opened c = some opened') (outer : List Bracket) :
    step (opened ++ outer) c = some (opened' ++ outer) := by
  unfold step at h ⊢
  split at h
  all_goals first
    | exact close_eq_some.mpr (congrArg (· ++ outer) (close_eq_some.mp h))
    | exact congrArg (Option.map (· ++ outer)) h

theorem after_within (h : after opened cs = some opened') (outer : List Bracket) :
    after (opened ++ outer) cs = some (opened' ++ outer) := by
  induction cs generalizing opened with
  | nil =>
    cases h
    rfl
  | cons c cs ih =>
    obtain ⟨opened₁, hstep, hrest⟩ := Option.bind_eq_some_iff.mp h
    rw [after, List.foldlM_cons, step_within hstep outer]
    exact ih hrest

end Bracket

/-- **A balanced text**: each bracket is closed by one of its kind, the innermost one first. -/
def Balanced (cs : List Char) : Prop := Bracket.after [] cs = some []

namespace Balanced

variable {cs ds : List Char}

instance (cs : List Char) : Decidable (Balanced cs) :=
  inferInstanceAs (Decidable (Bracket.after [] cs = some []))

theorem after (h : Balanced cs) (opened : List Bracket) : Bracket.after opened cs = some opened :=
  Bracket.after_within h opened

theorem append (h : Balanced cs) (h' : Balanced ds) : Balanced (cs ++ ds) := by
  rw [Balanced, Bracket.after_append, h]
  exact h'

theorem of_not_mem (h : ∀ c ∈ cs, c ∉ Bracket.chars) : Balanced cs := Bracket.after_of_not_mem h

theorem inParens (h : Balanced cs) : Balanced ('(' :: (cs ++ [')'])) := by
  change Bracket.after [.round] (cs ++ [')']) = some []
  rw [Bracket.after_append, h.after]
  rfl

end Balanced

/-! ### Marks -/

namespace Mark

variable {m : Mark} {ms ns : List Mark} {w : String}

/-- The open brackets behind one more mark. -/
def brackets (opened : List Bracket) : Mark → Option (List Bracket)
  | .sign (.opening b) => some (b :: opened)
  | .sign (.closing b) => b.close opened
  | _ => some opened

/-- Marks with brackets in pairs, in which every word is a name. -/
structure Nested (ms : List Mark) : Prop where
  words : ∀ w, .word w ∈ ms → IsName w
  paired : ∀ opened, ms.foldlM brackets opened = some opened

theorem nested_nil : Nested [] := ⟨nofun, fun _ => rfl⟩

theorem Nested.append (h : Nested ms) (h' : Nested ns) : Nested (ms ++ ns) where
  words w hw := by
    rcases List.mem_append.mp hw with hw | hw
    · exact h.words w hw
    · exact h'.words w hw
  paired opened := by
    rw [List.foldlM_append, h.paired]
    exact h'.paired opened

/-- A mark that is no bracket. -/
theorem Nested.cons (hm : ∀ opened, brackets opened m = some opened)
    (hw : ∀ w, m = .word w → IsName w) (h : Nested ms) : Nested (m :: ms) where
  words w hmem := by
    rcases List.mem_cons.mp hmem with rfl | hmem
    · exact hw w rfl
    · exact h.words w hmem
  paired opened := by
    rw [List.foldlM_cons, hm]
    exact h.paired opened

theorem Nested.word (hw : IsName w) (h : Nested ms) : Nested (.word w :: ms) := by
  refine h.cons (fun _ => rfl) fun w' heq => ?_
  cases heq
  exact hw

theorem Nested.space (h : Nested ms) : Nested (.space :: ms) := h.cons (fun _ => rfl) nofun

/-- Punctuation that is no bracket. -/
theorem Nested.sign {p : Punctuation} (h : Nested ms)
    (hp : ∀ opened, brackets opened (.sign p) = some opened) : Nested (.sign p :: ms) :=
  h.cons hp nofun

theorem Nested.variable {v : Variable} (h : Nested ms) : Nested (.variable v :: ms) :=
  h.cons (fun _ => rfl) nofun

theorem Nested.number {n : Number} (h : Nested ms) : Nested (.number n :: ms) :=
  h.cons (fun _ => rfl) nofun

theorem Nested.quoted {s : String} (h : Nested ms) : Nested (.quoted s :: ms) :=
  h.cons (fun _ => rfl) nofun

theorem Nested.operator {op : Operator} (h : Nested ms) : Nested (op.mark :: ms) := by
  cases op with
  | and | or => exact h.word (isName_of_isVariableName (by decide))
  | _ => exact h.cons (fun _ => rfl) nofun

/-- Marks with a pair of brackets around them. -/
theorem Nested.inside (h : Nested ms) (b : Bracket) : Nested (inside b ms) where
  words w hw := by
    rcases List.mem_cons.mp hw with heq | hw
    · cases heq
    · rcases List.mem_append.mp hw with hw | hw
      · exact h.words w hw
      · cases List.mem_singleton.mp hw
  paired opened := by
    change (ms ++ [Mark.sign (.closing b)]).foldlM brackets (b :: opened) = _
    rw [List.foldlM_append, h.paired]
    simp [brackets, Bracket.close]

theorem nested_spaced (hw : IsName w) (h : Nested ms) : Nested (spaced w ++ ms) :=
  (h.space.word hw).space

/-- A mark in whose text no bracket stands, apart from punctuation. -/
def Plain : Mark → Prop
  | .word w => IsName w
  | .variable v => IsName v.name
  | _ => True

theorem IsName.no_bracket (hw : IsName w) : ∀ c ∈ w.toList, c ∉ '"' :: Bracket.chars := by
  have hall : ('"' :: Bracket.chars).all (fun c =>
      decide (Jq.isNameStart c = false ∧ Jq.isNameChar c = false)) = true := by decide
  have hchar (c : Char) (hc : c ∈ '"' :: Bracket.chars) :
      Jq.isNameStart c = false ∧ Jq.isNameChar c = false :=
    of_decide_eq_true (List.all_eq_true.mp hall c hc)
  obtain ⟨c, cs, heq, hc, hcs⟩ := hw
  rw [heq]
  intro d hd hmem
  rcases List.mem_cons.mp hd with rfl | hd
  · exact absurd hc (by rw [(hchar d hmem).1]; decide)
  · exact absurd (hcs d hd) (by rw [(hchar d hmem).2]; decide)

theorem IsName.no_bracket_variable {v : Variable} (hv : IsName v.name) :
    ∀ c ∈ ("$" ++ v.name).toList, c ∉ '"' :: Bracket.chars := by
  rw [String.toList_append]
  refine List.forall_mem_append.mpr ⟨fun c hc => ?_, hv.no_bracket⟩
  obtain rfl := List.mem_singleton.mp hc
  decide

theorem Numeral.no_bracket {cs : List Char} (h : Numeral cs) : ∀ c ∈ cs, c ∉ Bracket.chars := by
  have hall : Bracket.chars.all (fun c => !isNumeralChar c) = true := by decide
  intro c hc hmem
  have hchar := List.all_eq_true.mp hall c hmem
  rw [h c hc] at hchar
  cases hchar

theorem Plain.clean (h : m.Plain) : m.Clean := by
  intro hq hmem
  cases m with
  | space => exact absurd hmem (by decide)
  | sign p =>
    revert hmem
    cases p
    case opening b => cases b <;> decide
    case closing b => cases b <;> decide
    all_goals decide
  | word w => exact IsName.no_bracket h _ hmem List.mem_cons_self
  | «variable» v => exact IsName.no_bracket_variable h _ hmem List.mem_cons_self
  | number n => exact absurd (n.text_numeral _ hmem) (by decide)
  | quoted s => cases hq

/-- The brackets in the text of a mark are those of the mark. -/
theorem Plain.after (h : m.Plain) (opened : List Bracket) :
    Bracket.after opened m.blanked.text.toList = brackets opened m := by
  cases m with
  | space => rfl
  | sign p =>
    cases p
    case opening b => cases b <;> rfl
    case closing b => cases b <;> exact bind_pure (Bracket.close _ opened)
    all_goals rfl
  | word w =>
    exact Bracket.after_of_not_mem fun c hc hmem =>
      IsName.no_bracket h c hc (List.mem_cons_of_mem _ hmem)
  | «variable» v =>
    exact Bracket.after_of_not_mem fun c hc hmem =>
      IsName.no_bracket_variable h c hc (List.mem_cons_of_mem _ hmem)
  | number n => exact Bracket.after_of_not_mem (Numeral.no_bracket n.text_numeral)
  | quoted s =>
    have hempty : (Json.quote "").toList.all (fun c => decide (c ∉ Bracket.chars)) = true := by
      decide
    exact Bracket.after_of_not_mem fun c hc =>
      of_decide_eq_true (List.all_eq_true.mp hempty c hc)

/-- The brackets in the text of some marks are those of the marks. -/
theorem after_render (h : ∀ m ∈ ms, m.Plain) (opened : List Bracket) :
    Bracket.after opened (render (ms.map blanked)) = ms.foldlM brackets opened := by
  induction ms generalizing opened with
  | nil => rfl
  | cons m ms ih =>
    obtain ⟨hm, hms⟩ := List.forall_mem_cons.mp h
    rw [List.map_cons, render_cons, Bracket.after_append, hm.after, List.foldlM_cons]
    exact Option.bind_congr fun opened _ => ih hms opened

end Mark

/-! ### Filters -/

namespace Filter

open Mark

theorem isName_helper (h : Helper) : IsName h.name :=
  isName_of_isVariableName (by cases h <;> decide)

/-- The words of the language. -/
theorem isName_word {w : String}
    (h : w ∈ ["as", "if", "then", "elif", "else", "end", "true", "false", "null"]) : IsName w := by
  have hall : ["as", "if", "then", "elif", "else", "end", "true", "false", "null"].all
      Compile.isVariableName = true := by decide
  exact isName_of_isVariableName (List.all_eq_true.mp hall w h)

mutual

/-- **The brackets of a filter** come in pairs. -/
theorem nested_marks : ∀ f : Filter, Nested f.marks
  | .identity => nested_nil.sign fun _ => rfl
  | .number _ => nested_nil.number
  | .string _ => nested_nil.quoted
  | .variable _ => nested_nil.variable
  | .elements => (nested_nil.inside .square).sign fun _ => rfl
  | .first => (nested_nil.number.inside .square).sign fun _ => rfl
  | .field _ => (nested_nil.quoted.inside .square).sign fun _ => rfl
  | .null => nested_nil.word (isName_word (by decide))
  | .boolean true => nested_nil.word (isName_word (by decide))
  | .boolean false => nested_nil.word (isName_word (by decide))
  | .slice low high =>
    (((nested_bound low).append ((nested_bound high).sign fun _ => rfl)).inside .square).sign
      fun _ => rfl
  | .group f => (nested_marks f).inside .round
  | .array f => (nested_marks f).inside .square
  | .object entries => (nested_entries entries).inside .curly
  | .sequence fs => nested_joined (nested_nil.space.sign fun _ => rfl) fs
  | .pipe f g => (nested_marks f).append ((nested_marks g).space.sign fun _ => rfl).space
  | .negate f => (nested_marks f).sign fun _ => rfl
  | .operation _ f g => (nested_marks f).append (nested_marks g).space.operator.space
  | .bind value _ body => (nested_marks value).append (nested_spaced (isName_word (by decide))
      ((nested_marks body).space.sign fun _ => rfl).space.variable)
  | .cond test yes rest =>
    have hend : Nested [space, word "end"] := (nested_nil.word (isName_word (by decide))).space
    (((nested_marks test).append (nested_spaced (isName_word (by decide))
      ((nested_marks yes).append ((nested_branch rest).append hend)))).space).word
        (isName_word (by decide))
  | .call b [] => nested_nil.word (readable_builtin b)
  | .call b (f :: fs) =>
    ((nested_joined (nested_nil.space.sign fun _ => rfl) (f :: fs)).inside .round).word
      (readable_builtin b)
  | .helper h f g =>
    (((nested_marks f).append ((nested_marks g).space.sign fun _ => rfl)).inside .round).word
      (isName_helper h)

theorem nested_bound : ∀ o : Option Filter, Nested (boundMarks o)
  | none => nested_nil
  | some f => nested_marks f

theorem nested_joined {between : List Mark} (hb : Nested between) :
    ∀ fs : List Filter, Nested (joinedMarks between fs)
  | [] => nested_nil
  | [f] => nested_marks f
  | f :: g :: fs => (nested_marks f).append (hb.append (nested_joined hb (g :: fs)))

theorem nested_entries : ∀ es : List (String × Filter), Nested (entryMarks es)
  | [] => nested_nil
  | [(_, f)] => (((nested_marks f).inside .round).space.sign fun _ => rfl).quoted
  | (_, f) :: e :: rest => ((((nested_marks f).inside .round).append
      ((nested_entries (e :: rest)).space.sign fun _ => rfl)).space.sign fun _ => rfl).quoted

theorem nested_branch : ∀ b : Branch, Nested (branchMarks b)
  | .otherwise f => nested_spaced (isName_word (by decide)) (nested_marks f)
  | .elseIf test yes rest => nested_spaced (isName_word (by decide)) ((nested_marks test).append
      (nested_spaced (isName_word (by decide)) ((nested_marks yes).append (nested_branch rest))))

end

/-- The text of a filter with nothing left in its quotes. -/
def outline (f : Filter) : List Char := TextState.blank .outside f.text.toList

/-- A filter whose variables have names that are words. -/
def WellNamed (f : Filter) : Prop := ∀ v, .variable v ∈ f.marks → IsName v.name

variable {f : Filter}

theorem WellNamed.plain (h : f.WellNamed) : ∀ m ∈ f.marks, m.Plain := by
  intro m hm
  cases m with
  | word w => exact (nested_marks f).words w hm
  | «variable» v => exact h v hm
  | _ => trivial

theorem WellNamed.clean (h : f.WellNamed) : AllClean f.marks := fun m hm => (h.plain m hm).clean

theorem WellNamed.outline (h : f.WellNamed) : f.outline = render (f.marks.map blanked) := by
  rw [Filter.outline, toList_text]
  exact (strings_render h.clean).1

/-- All quotes are closed. -/
theorem WellNamed.after (h : f.WellNamed) :
    TextState.after .outside f.text.toList = .outside := by
  rw [toList_text]
  exact (strings_render h.clean).2.2

/-- **The outline of a filter** is balanced. -/
theorem WellNamed.balanced (h : f.WellNamed) : Balanced f.outline := by
  rw [h.outline, Balanced, after_render h.plain]
  exact (nested_marks f).paired []

end Filter

end RecordQuery
