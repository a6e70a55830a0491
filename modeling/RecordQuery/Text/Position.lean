/-! # Positions in a text

A position counts the characters before it (`offset`) and says where a reader finds it (`line` and
`column`, both from 1). Only a line feed starts a new line. `Position.after` is the position reached
from another one by reading characters, so the position of every place of a text is
`Position.start.after` of the characters before it. -/

namespace RecordQuery

/-- A place between two characters of a text. -/
structure Position where
  offset : Nat
  line : Nat
  column : Nat
  deriving DecidableEq

namespace Position

/-- The place before the first character. -/
def start : Position := ⟨0, 1, 1⟩

/-- The place behind one more character. -/
def next (p : Position) (c : Char) : Position :=
  if c = '\n' then ⟨p.offset + 1, p.line + 1, 1⟩ else ⟨p.offset + 1, p.line, p.column + 1⟩

/-- The place behind a run of characters. -/
def after (p : Position) (cs : List Char) : Position := cs.foldl next p

/-- How messages name a place. -/
def describe (p : Position) : String := s!"line {p.line}, column {p.column}"

@[simp] theorem after_nil (p : Position) : p.after [] = p := rfl

@[simp] theorem after_cons (p : Position) (c : Char) (cs : List Char) :
    p.after (c :: cs) = (p.next c).after cs := rfl

theorem after_append (p : Position) (cs ds : List Char) :
    p.after (cs ++ ds) = (p.after cs).after ds := List.foldl_append

theorem offset_next (p : Position) (c : Char) : (p.next c).offset = p.offset + 1 := by
  unfold next; split <;> rfl

theorem offset_after (p : Position) (cs : List Char) :
    (p.after cs).offset = p.offset + cs.length := by
  induction cs generalizing p with
  | nil => rfl
  | cons c cs ih => rw [after_cons, ih, offset_next, List.length_cons]; omega

end Position

end RecordQuery
