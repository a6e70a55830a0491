import RecordQuery.Proofs.Grammar.Spelling

/-! # Cursors in front of a run of tokens

A reader that has to read a run `ls` starts at a cursor with `ls` in front of it (`Cursor.prepend`),
and is to end at the cursor behind `ls`. The lemmas of this module say what the primitive readers do
at such cursors; readers are run by them, and their definitions stay closed elsewhere. -/

namespace RecordQuery

namespace Cursor

/-- The cursor with one more token in front. -/
def push (l : Lexeme) (c : Cursor) : Cursor := ⟨l, c.current :: c.later⟩

/-- The cursor with a run of tokens in front. -/
def prepend (ls : List Lexeme) (c : Cursor) : Cursor := ls.foldr push c

/-- How many tokens are left behind the one to be read next. -/
def size (c : Cursor) : Nat := c.later.length

variable (l : Lexeme) (ls rs : List Lexeme) (c : Cursor)

@[simp] theorem token_push : (c.push l).token = l.token := rfl

@[simp] theorem current_push : (c.push l).current = l := rfl

@[simp] theorem peek_push : (c.push l).peek = c.token := rfl

@[simp] theorem advance_push : (c.push l).advance = c := rfl

@[simp] theorem size_push : (c.push l).size = c.size + 1 := rfl

@[simp] theorem prepend_nil : c.prepend [] = c := rfl

@[simp] theorem prepend_cons : c.prepend (l :: ls) = (c.prepend ls).push l := rfl

@[simp] theorem prepend_append : c.prepend (ls ++ rs) = (c.prepend rs).prepend ls :=
  List.foldr_append

@[simp] theorem size_prepend : (c.prepend ls).size = ls.length + c.size := by
  induction ls with
  | nil => simp
  | cons l ls ih => rw [prepend_cons, size_push, ih, List.length_cons]; omega

theorem lexemes_prepend : (c.prepend ls).current :: (c.prepend ls).later =
    ls ++ c.current :: c.later := by
  induction ls with
  | nil => rfl
  | cons l ls ih => rw [prepend_cons, List.cons_append, ← ih]; rfl

/-- The tokens between a cursor and an earlier one are those that were put in front. -/
theorem upTo_prepend : (c.prepend ls).upTo c = ls.map Lexeme.token := by
  have h : (c.prepend ls).later.length - c.later.length = ls.length := by
    have := size_prepend ls c
    unfold size at this
    omega
  unfold upTo
  rw [h, lexemes_prepend, List.take_left]

theorem eq_cons_of_ofTokens? {ls : List Lexeme} {c : Cursor} (h : ofTokens? ls = some c) :
    ls = c.current :: c.later := by
  cases ls with
  | nil => cases h
  | cons l ls =>
    cases h
    rfl

/-- The cursor at the start of a run that ends with one more token. -/
theorem ofTokens?_append : ofTokens? (ls ++ [l]) = some (prepend ls ⟨l, []⟩) := by
  induction ls with
  | nil => rfl
  | cons m ls ih =>
    rw [prepend_cons, List.cons_append, ofTokens?, push, lexemes_prepend]

theorem token_advance : c.advance.token = c.peek := by
  obtain ⟨l, later⟩ := c
  cases later <;> rfl

/-! ### Cursors in front of the end of the input -/

section Ended

variable {c : Cursor} {l : Lexeme} {ls : List Lexeme}

/-- The last of the tokens that are left is the end of the input. -/
def Ended (c : Cursor) : Prop :=
  (c.current :: c.later).getLast?.map Lexeme.token = some .endOfInput

theorem Ended.behind (h : (c.prepend ls).Ended) : c.Ended := by
  unfold Ended at h ⊢
  rw [lexemes_prepend, List.getLast?_append, List.getLast?_cons, Option.some_or] at h
  rw [List.getLast?_cons]
  exact h

theorem Ended.tail (h : (c.push l).Ended) : c.Ended := @Ended.behind c [l] h

/-- A cursor in front of any other token than the end of the input. -/
theorem Ended.split (h : c.Ended) (hc : c.token ≠ .endOfInput) : ∃ l d, c = push l d := by
  obtain ⟨l, later⟩ := c
  cases later with
  | nil => exact absurd (Option.some.inj h) hc
  | cons m rest => exact ⟨l, ⟨m, rest⟩, rfl⟩

end Ended

end Cursor

namespace Parse

open Cursor

variable {α β : Type} {c c' : Cursor}

/-- A reader goes on where the one before it has ended. -/
theorem run_bind {p : Parse α} {f : α → Parse β} {a : α} (h : p.run c = .ok a c') :
    (p >>= f).run c = (f a).run c' := by
  change EStateM.bind p f c = _
  unfold EStateM.bind
  rw [show p c = .ok a c' from h]
  rfl

/-- A branch on what was read. -/
theorem run_bind_true {p : Parse Bool} {x y : Parse β} (h : p.run c = .ok true c') :
    (p >>= fun b => if b = true then x else y).run c = x.run c' := run_bind h

theorem run_bind_false {p : Parse Bool} {x y : Parse β} (h : p.run c = .ok false c') :
    (p >>= fun b => if b = true then x else y).run c = y.run c' := run_bind h

theorem run_map {p : Parse α} {f : α → β} {a : α} (h : p.run c = .ok a c') :
    (f <$> p).run c = .ok (f a) c' := by
  change EStateM.map f p c = _
  unfold EStateM.map
  rw [show p c = .ok a c' from h]

@[simp] theorem run_pure (a : α) : (pure a : Parse α).run c = .ok a c := rfl

@[simp] theorem run_get_bind (f : Cursor → Parse β) : (get >>= f).run c = (f c).run c := rfl

@[simp] theorem run_pure_bind (a : α) (f : α → Parse β) :
    ((pure a : Parse α) >>= f).run c = (f a).run c := rfl

@[simp] theorem run_bind_assoc {γ : Type} (p : Parse α) (f : α → Parse β) (g : β → Parse γ) :
    ((p >>= f) >>= g).run c = (p >>= fun a => f a >>= g).run c := by
  rw [bind_assoc]

@[simp] theorem run_advance : advance.run c = .ok () c.advance := rfl

@[simp] theorem run_advance_bind (f : Unit → Parse β) :
    (advance >>= f).run c = (f ()).run c.advance := rfl

theorem run_eat {t : Token} {l : Lexeme} (h : l.token = t) : (eat t).run (c.push l) = .ok true c := by
  unfold eat
  rw [run_get_bind, if_pos (show (c.push l).token = t from h)]
  rfl

theorem run_eat_ne {t : Token} (h : c.token ≠ t) : (eat t).run c = .ok false c := by
  unfold eat
  rw [run_get_bind, if_neg h]
  rfl

theorem run_eatKeyword {k : Keyword} {l : Lexeme} (h : l.token = .keyword k) :
    (eatKeyword k).run (c.push l) = .ok true c := run_eat h

theorem run_eatKeyword_ne {k : Keyword} (h : c.token ≠ .keyword k) :
    (eatKeyword k).run c = .ok false c := run_eat_ne h

theorem run_expect {s : Symbol} {l : Lexeme} (h : l.token = .symbol s) :
    (expect s).run (c.push l) = .ok () c := by
  unfold expect
  rw [run_bind (run_eat h)]
  rfl

theorem run_expectKeyword {k : Keyword} {l : Lexeme} (h : l.token = .keyword k) :
    (expectKeyword k).run (c.push l) = .ok () c := by
  unfold expectKeyword
  rw [run_bind (run_eatKeyword h)]
  rfl

theorem run_name {role : NameRole} {n : String} {l : Lexeme} (h : l.token.name? = some n) :
    (name role).run (c.push l) = .ok n c := by
  unfold name
  rw [run_get_bind, token_push]
  unfold Token.name? at h
  split at h
  · next heq => rw [heq]; cases h; rfl
  · next heq => rw [heq]; cases h; rfl
  · cases h

end Parse

end RecordQuery
