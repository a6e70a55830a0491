import RecordQuery.Proofs.Filter.Mark

/-! # Scopes in the text of a filter

Who reads a text from left to right knows at each mark which variables are in scope there (`Scope`).
A variable behind `as` comes into scope at the bar behind it. It stays there to the end of what the
binder stands in: the innermost open bracket, its part up to a semicolon, or the innermost branch of
a conditional. `Filter.occurrences` finds the same on the tree (`reads_marks`). -/

namespace RecordQuery

/-- An occurrence of a variable: where it is bound, or where it is used, with what is in scope
there. -/
inductive Occurrence where
  | binder (v : Variable)
  | use (v : Variable) (scope : List Variable)
  deriving DecidableEq

namespace Occurrence

/-- The variable that occurs. -/
def subject : Occurrence → Variable
  | binder v | use v _ => v

end Occurrence

/-- How much of a binder stands in front of a mark. -/
inductive Binder where
  | none
  | word
  | variable (v : Variable)
  deriving DecidableEq

/-- What is known in front of a mark: the variables in scope, those that were in scope in front of
what is open, and how much of a binder has been read. -/
structure Scope where
  visible : List Variable := []
  outer : List (List Variable) := []
  binder : Binder := .none

namespace Scope

variable {σ σ₁ σ₂ : Scope} {ms ns : List Mark} {os ps : List Occurrence} {Γ : List Variable}
  {Δ : List (List Variable)} {m : Mark} {v w : Variable}

/-- Behind an opening bracket, or the start of a conditional. -/
def enter (σ : Scope) : Scope := { σ with outer := σ.visible :: σ.outer }

/-- At the start of another part of what is open. -/
def restart (σ : Scope) : Scope := { σ with visible := σ.outer.headD [] }

/-- Behind the end of what is open. -/
def leave (σ : Scope) : Scope :=
  { σ with visible := σ.outer.headD [], outer := σ.outer.tail }

/-- Behind a bar. -/
def bar (σ : Scope) : Scope :=
  match σ.binder with
  | .variable v => { σ with visible := v :: σ.visible, binder := .none }
  | _ => σ

/-- What is known behind a mark. -/
def step (σ : Scope) : Mark → Scope
  | .sign (.opening _) | .word "if" => σ.enter
  | .sign (.closing _) | .word "end" => σ.leave
  | .sign .semicolon | .word "then" | .word "elif" | .word "else" => σ.restart
  | .sign .bar => σ.bar
  | .word "as" => { σ with binder := .word }
  | .variable v => if σ.binder = .word then { σ with binder := .variable v } else σ
  | _ => σ

/-- What is known behind a run of marks. -/
def after (σ : Scope) (ms : List Mark) : Scope := ms.foldl step σ

/-- The occurrence that a mark is. -/
def occurrence? (σ : Scope) : Mark → Option Occurrence
  | .variable v => some (if σ.binder = .word then .binder v else .use v σ.visible)
  | _ => none

/-- The occurrences of variables in a run of marks. -/
def occurrences : Scope → List Mark → List Occurrence
  | _, [] => []
  | σ, m :: ms => (σ.occurrence? m).toList ++ (σ.step m).occurrences ms

theorem occurrences_append (ns : List Mark) :
    σ.occurrences (ms ++ ns) = σ.occurrences ms ++ (σ.after ms).occurrences ns := by
  induction ms generalizing σ with
  | nil => rfl
  | cons m ms ih =>
    rw [List.cons_append, occurrences, ih, occurrences, List.append_assoc]
    rfl

/-! ### What is in scope has been bound -/

/-- A variable that is in scope, or will be in scope behind what is open. -/
def Knows (σ : Scope) (v : Variable) : Prop :=
  v ∈ σ.visible ∨ (∃ Γ ∈ σ.outer, v ∈ Γ) ∨ σ.binder = .variable v

theorem knows_enter (h : σ.enter.Knows v) : σ.Knows v := by
  obtain h | ⟨Γ, hΓ, h⟩ | h := h
  · exact .inl h
  · obtain rfl | hΓ := List.mem_cons.mp hΓ
    · exact .inl h
    · exact .inr (.inl ⟨Γ, hΓ, h⟩)
  · exact .inr (.inr h)

theorem knows_restart (h : σ.restart.Knows v) : σ.Knows v := by
  obtain h | h | h := h
  · unfold restart at h
    cases hσ : σ.outer with
    | nil =>
      rw [hσ] at h
      exact absurd h List.not_mem_nil
    | cons Γ Δ =>
      rw [hσ] at h
      exact .inr (.inl ⟨Γ, by rw [hσ]; exact List.mem_cons_self, h⟩)
  · exact .inr (.inl h)
  · exact .inr (.inr h)

theorem knows_leave (h : σ.leave.Knows v) : σ.Knows v := by
  obtain h | ⟨Γ, hΓ, h⟩ | h := h
  · exact knows_restart (.inl h)
  · exact .inr (.inl ⟨Γ, List.mem_of_mem_tail hΓ, h⟩)
  · exact .inr (.inr h)

theorem knows_bar (h : σ.bar.Knows v) : σ.Knows v := by
  unfold bar at h
  split at h
  · next w hw =>
    obtain h | h | h := h
    · obtain rfl | h := List.mem_cons.mp h
      · exact .inr (.inr hw)
      · exact .inl h
    · exact .inr (.inl h)
    · cases h
  · exact h

theorem knows_step (h : (σ.step m).Knows v) : σ.Knows v ∨ σ.occurrence? m = some (.binder v) := by
  unfold step at h
  split at h
  · exact .inl (knows_enter h)
  · exact .inl (knows_enter h)
  · exact .inl (knows_leave h)
  · exact .inl (knows_leave h)
  · exact .inl (knows_restart h)
  · exact .inl (knows_restart h)
  · exact .inl (knows_restart h)
  · exact .inl (knows_restart h)
  · exact .inl (knows_bar h)
  · obtain h | h | h := h
    · exact .inl (.inl h)
    · exact .inl (.inr (.inl h))
    · cases h
  · next w =>
    split at h
    · next hw =>
      obtain h | h | h := h
      · exact .inl (.inl h)
      · exact .inl (.inr (.inl h))
      · cases h
        exact .inr (by rw [occurrence?, if_pos hw])
    · exact .inl h
  · exact .inl h

/-- **What is in scope at a use** was known before, or is bound in the text. -/
theorem bound_of_use (h : .use v Γ ∈ σ.occurrences ms) (hw : w ∈ Γ) :
    σ.Knows w ∨ .binder w ∈ σ.occurrences ms := by
  induction ms generalizing σ with
  | nil => exact absurd h List.not_mem_nil
  | cons m ms ih =>
    rw [occurrences, List.mem_append] at h ⊢
    obtain h | h := h
    · refine .inl (.inl ?_)
      unfold occurrence? at h
      split at h
      · split at h <;> cases List.mem_singleton.mp h
        exact hw
      · exact absurd h List.not_mem_nil
    · obtain hk | hb := ih h
      · obtain hk | hm := knows_step hk
        · exact .inl hk
        · rw [hm]
          exact .inr (.inl (List.mem_singleton_self _))
      · exact .inr (.inr hb)

/-! ### Reading a run of marks -/

/-- A run of marks, the occurrences in it, and what is known behind it. -/
def Reads (σ : Scope) (ms : List Mark) (os : List Occurrence) (σ' : Scope) : Prop :=
  σ.occurrences ms = os ∧ σ.after ms = σ'

/-- What is known where no binder has been started. -/
def plain (Γ : List Variable) (Δ : List (List Variable)) : Scope := ⟨Γ, Δ, .none⟩

theorem reads_nil : Reads σ [] [] σ := ⟨rfl, rfl⟩

theorem Reads.append (h : Reads σ ms os σ₁) (h' : Reads σ₁ ns ps σ₂) :
    Reads σ (ms ++ ns) (os ++ ps) σ₂ := by
  obtain ⟨rfl, rfl⟩ := h
  obtain ⟨rfl, rfl⟩ := h'
  exact ⟨occurrences_append ns, List.foldl_append⟩

theorem Reads.cons (hm : σ.occurrence? m = none) (h : Reads (σ.step m) ms os σ₁) :
    Reads σ (m :: ms) os σ₁ := by
  obtain ⟨rfl, rfl⟩ := h
  refine ⟨?_, rfl⟩
  rw [occurrences, hm]
  rfl

theorem Reads.space (h : Reads σ ms os σ₁) : Reads σ (.space :: ms) os σ₁ := h.cons rfl

theorem reads_use : Reads (plain Γ Δ) [.variable v] [.use v Γ] (plain Γ Δ) := ⟨rfl, rfl⟩

theorem Reads.binder (h : Reads (plain (v :: Γ) Δ) ms os σ₁) :
    Reads (plain Γ Δ) (Mark.spaced "as" ++ .variable v :: .space :: .sign .bar :: .space :: ms)
      (.binder v :: os) σ₁ := by
  obtain ⟨rfl, rfl⟩ := h
  exact ⟨rfl, rfl⟩

theorem Reads.inside {b : Bracket} {Γ' : List Variable}
    (h : Reads (plain Γ (Γ :: Δ)) ms os (plain Γ' (Γ :: Δ))) :
    Reads (plain Γ Δ) (Mark.inside b ms) os (plain Γ Δ) := by
  have hlast : Reads (plain Γ' (Γ :: Δ)) [.sign (.closing b)] [] (plain Γ Δ) := ⟨rfl, rfl⟩
  have hall := h.append hlast
  rw [List.append_nil] at hall
  exact hall.cons rfl

end Scope

/-! ### Trees -/

namespace Filter

mutual

/-- The variables whose scope is still open where a filter ends, the innermost first. -/
def leftOpen : Filter → List Variable
  | .sequence fs => leftOpenAll fs
  | .pipe f g | .operation _ f g => g.leftOpen ++ f.leftOpen
  | .negate f => f.leftOpen
  | .bind value v body => body.leftOpen ++ v :: value.leftOpen
  | _ => []

/-- The variables whose scope is still open behind filters with commas between. -/
def leftOpenAll : List Filter → List Variable
  | [] => []
  | f :: fs => leftOpenAll fs ++ f.leftOpen

end

mutual

/-- The occurrences of variables in a filter, from left to right, in front of which some variables
are in scope. -/
def occurrences (Γ : List Variable) : Filter → List Occurrence
  | .slice none none => []
  | .slice (some f) none | .slice none (some f) => f.occurrences Γ
  | .slice (some f) (some g) => f.occurrences Γ ++ g.occurrences (f.leftOpen ++ Γ)
  | .variable v => [.use v Γ]
  | .group f | .array f | .negate f => f.occurrences Γ
  | .object entries => entryOccurrences Γ entries
  | .sequence fs => sequenceOccurrences Γ fs
  | .pipe f g | .operation _ f g => f.occurrences Γ ++ g.occurrences (f.leftOpen ++ Γ)
  | .bind value v body =>
    value.occurrences Γ ++ .binder v :: body.occurrences (v :: (value.leftOpen ++ Γ))
  | .cond test yes rest =>
    test.occurrences Γ ++ (yes.occurrences Γ ++ branchOccurrences Γ rest)
  | .call _ fs => argumentOccurrences Γ fs
  | .helper _ f g => f.occurrences Γ ++ g.occurrences Γ
  | _ => []

/-- The occurrences in the entries of an object. -/
def entryOccurrences (Γ : List Variable) : List (String × Filter) → List Occurrence
  | [] => []
  | (_, f) :: rest => f.occurrences Γ ++ entryOccurrences Γ rest

/-- The occurrences in filters with commas between. -/
def sequenceOccurrences (Γ : List Variable) : List Filter → List Occurrence
  | [] => []
  | f :: fs => f.occurrences Γ ++ sequenceOccurrences (f.leftOpen ++ Γ) fs

/-- The occurrences in filters with semicolons between. -/
def argumentOccurrences (Γ : List Variable) : List Filter → List Occurrence
  | [] => []
  | f :: fs => f.occurrences Γ ++ argumentOccurrences Γ fs

/-- The occurrences in the branches behind the first one. -/
def branchOccurrences (Γ : List Variable) : Branch → List Occurrence
  | .otherwise f => f.occurrences Γ
  | .elseIf test yes rest =>
    test.occurrences Γ ++ (yes.occurrences Γ ++ branchOccurrences Γ rest)

end

open Scope

variable {Γ : List Variable} {Δ : List (List Variable)}

theorem reads_spaced {ms : List Mark} {os : List Occurrence} {σ : Scope} {w : String}
    (Γ' : List Variable) (hw : w = "then" ∨ w = "elif" ∨ w = "else")
    (h : Reads (plain Γ (Γ :: Δ)) ms os σ) :
    Reads (plain Γ' (Γ :: Δ)) (Mark.spaced w ++ ms) os σ := by
  obtain rfl | rfl | rfl := hw <;> exact (Reads.cons rfl h.space).space

theorem reads_operator {ms : List Mark} {os : List Occurrence} {σ : Scope} (op : Operator)
    (h : Reads (plain Γ Δ) ms os σ) :
    Reads (plain Γ Δ) (.space :: op.mark :: .space :: ms) os σ := by
  refine Reads.space (.cons ?_ ?_)
  · cases op <;> rfl
  · cases op <;> exact h.space

mutual

/-- **Reading the text of a filter** finds the occurrences in the tree. -/
theorem reads_marks : ∀ (f : Filter) (Γ : List Variable) (Δ : List (List Variable)),
    Reads (plain Γ Δ) f.marks (f.occurrences Γ) (plain (f.leftOpen ++ Γ) Δ)
  | .identity, _, _ | .elements, _, _ | .first, _, _ | .field _, _, _ | .number _, _, _ => ⟨rfl, rfl⟩
  | .string _, _, _ | .null, _, _ | .boolean true, _, _ | .boolean false, _, _ => ⟨rfl, rfl⟩
  | .variable v, Γ, Δ => reads_use
  | .slice none none, _, _ => ⟨rfl, rfl⟩
  | .slice (some f) none, Γ, Δ => by
    have hf := (reads_marks f Γ (Γ :: Δ)).append (.cons (m := .sign .colon) rfl reads_nil)
    rw [List.append_nil] at hf
    exact .cons rfl hf.inside
  | .slice none (some f), Γ, Δ =>
    .cons rfl ((reads_marks f Γ (Γ :: Δ)).cons (m := .sign .colon) rfl).inside
  | .slice (some f) (some g), Γ, Δ => by
    have hg := reads_marks g (f.leftOpen ++ Γ) (Γ :: Δ)
    exact .cons rfl ((reads_marks f Γ (Γ :: Δ)).append (hg.cons (m := .sign .colon) rfl)).inside
  | .group f, Γ, Δ => (reads_marks f Γ (Γ :: Δ)).inside
  | .array f, Γ, Δ => (reads_marks f Γ (Γ :: Δ)).inside
  | .object entries, Γ, Δ => (reads_entries entries Γ (Γ :: Δ)).inside
  | .sequence fs, Γ, Δ => reads_sequence fs Γ Δ
  | .pipe f g, Γ, Δ => by
    have hg := reads_marks g (f.leftOpen ++ Γ) Δ
    rw [← List.append_assoc] at hg
    exact (reads_marks f Γ Δ).append (.space (.cons rfl hg.space))
  | .negate f, Γ, Δ => (reads_marks f Γ Δ).cons rfl
  | .operation op f g, Γ, Δ => by
    have hg := reads_marks g (f.leftOpen ++ Γ) Δ
    rw [← List.append_assoc] at hg
    exact (reads_marks f Γ Δ).append (reads_operator op hg)
  | .bind value v body, Γ, Δ => by
    have hbody := reads_marks body (v :: (value.leftOpen ++ Γ)) Δ
    have hopen : body.leftOpen ++ v :: (value.leftOpen ++ Γ) =
        (Filter.bind value v body).leftOpen ++ Γ := by simp [leftOpen]
    rw [hopen] at hbody
    exact (reads_marks value Γ Δ).append hbody.binder
  | .cond test yes rest, Γ, Δ => by
    obtain ⟨Γ', hrest⟩ := reads_branch rest Γ (yes.leftOpen ++ Γ) Δ
    have hend : Reads (plain Γ' (Γ :: Δ)) [.space, .word "end"] [] (plain Γ Δ) := ⟨rfl, rfl⟩
    have hrest := hrest.append hend
    rw [List.append_nil] at hrest
    have hyes := reads_spaced (test.leftOpen ++ Γ) (.inl rfl)
      ((reads_marks yes Γ (Γ :: Δ)).append hrest)
    exact .cons rfl ((reads_marks test Γ (Γ :: Δ)).append hyes).space
  | .call b [], Γ, Δ => by
    cases b <;> exact ⟨rfl, rfl⟩
  | .call b (f :: fs), Γ, Δ => by
    obtain ⟨Γ', hargs⟩ := reads_arguments (f :: fs) Γ Δ
    cases b <;> exact .cons rfl hargs.inside
  | .helper h f g, Γ, Δ => by
    have hg := (reads_marks g Γ (Γ :: Δ)).space
    have hall := (reads_marks f Γ (Γ :: Δ)).append (hg.cons (m := .sign .semicolon) rfl)
    cases h <;> exact .cons rfl hall.inside

theorem reads_entries : ∀ (es : List (String × Filter)) (Γ : List Variable)
    (Δ : List (List Variable)),
    Reads (plain Γ Δ) (entryMarks es) (entryOccurrences Γ es) (plain Γ Δ)
  | [], _, _ => reads_nil
  | [(key, f)], Γ, Δ => by
    have hf := (reads_marks f Γ (Γ :: Δ)).inside (b := .round)
    rw [entryOccurrences, entryOccurrences, List.append_nil]
    exact .cons rfl (.cons rfl hf.space)
  | (key, f) :: e :: rest, Γ, Δ => by
    have hf := (reads_marks f Γ (Γ :: Δ)).inside (b := .round)
    have hrest := (reads_entries (e :: rest) Γ Δ).space.cons (m := .sign .comma) rfl
    exact .cons rfl (.cons rfl (hf.append hrest).space)

theorem reads_sequence : ∀ (fs : List Filter) (Γ : List Variable) (Δ : List (List Variable)),
    Reads (plain Γ Δ) (joinedMarks [.sign .comma, .space] fs) (sequenceOccurrences Γ fs)
      (plain (leftOpenAll fs ++ Γ) Δ)
  | [], _, _ => reads_nil
  | [f], Γ, Δ => by
    rw [sequenceOccurrences, sequenceOccurrences, List.append_nil]
    exact reads_marks f Γ Δ
  | f :: g :: fs, Γ, Δ => by
    have hrest := reads_sequence (g :: fs) (f.leftOpen ++ Γ) Δ
    rw [← List.append_assoc] at hrest
    exact (reads_marks f Γ Δ).append (.cons rfl hrest.space)

theorem reads_arguments : ∀ (fs : List Filter) (Γ : List Variable) (Δ : List (List Variable)),
    ∃ Γ', Reads (plain Γ (Γ :: Δ)) (joinedMarks [.sign .semicolon, .space] fs)
      (argumentOccurrences Γ fs) (plain Γ' (Γ :: Δ))
  | [], _, _ => ⟨_, reads_nil⟩
  | [f], Γ, Δ => by
    rw [argumentOccurrences, argumentOccurrences, List.append_nil]
    exact ⟨_, reads_marks f Γ (Γ :: Δ)⟩
  | f :: g :: fs, Γ, Δ => by
    obtain ⟨Γ', hrest⟩ := reads_arguments (g :: fs) Γ Δ
    exact ⟨Γ', (reads_marks f Γ (Γ :: Δ)).append (.cons rfl hrest.space)⟩

theorem reads_branch : ∀ (b : Branch) (Γ Γ' : List Variable) (Δ : List (List Variable)),
    ∃ Γ'', Reads (plain Γ' (Γ :: Δ)) (branchMarks b) (branchOccurrences Γ b) (plain Γ'' (Γ :: Δ))
  | .otherwise f, Γ, Γ', Δ => ⟨_, reads_spaced Γ' (.inr (.inr rfl)) (reads_marks f Γ (Γ :: Δ))⟩
  | .elseIf test yes rest, Γ, Γ', Δ => by
    obtain ⟨Γ'', hrest⟩ := reads_branch rest Γ (yes.leftOpen ++ Γ) Δ
    have hyes := reads_spaced (test.leftOpen ++ Γ) (.inl rfl)
      ((reads_marks yes Γ (Γ :: Δ)).append hrest)
    exact ⟨Γ'', reads_spaced Γ' (.inr (.inl rfl)) ((reads_marks test Γ (Γ :: Δ)).append hyes)⟩

end

end Filter

end RecordQuery
