import RecordQuery.Proofs.Program.Tokens
import RecordQuery.Proofs.Token.Positions

/-! # Where errors of queries point

Whichever stage finds a query without a program, its error points into the query: at a character
where the text has no tokens, and otherwise at the start of one of them. No stage makes up a
position, since each is that of a node of the statement, or of the token a reader stopped at; a text
is related to itself here by the relation that takes each position to a token that starts there. -/

namespace RecordQuery

namespace Program

/-- An error of a query with tokens points at one of them. -/
theorem start_of_ofText {q : String} {ls : List Lexeme} {e : CompileError}
    (hls : tokenize q = .ok ls) (h : ofText q = .error (.fault e)) :
    ∃ l ∈ ls, e.position = l.start := by
  have hkin := kin_ofText hls hls rfl
  rw [h] at hkin
  obtain ⟨hkin⟩ : Stop.Alike _ _ _ := hkin
  obtain ⟨i, l, -, hl, -, hposition, -⟩ := hkin.position
  exact ⟨l, List.mem_of_getElem? hl, hposition⟩

/-- **Errors point into the query**, with the line and the column that a reader counts: at one of
its characters where the text has no tokens, and at the start of one of its tokens otherwise, of
which the end of the input is one. -/
theorem position_of_ofText {q : String} {e : CompileError} (h : ofText q = .error (.fault e)) :
    Position.Of q.toList e.position ∧
      ((∃ fault, tokenize q = .error fault ∧ e.position.offset < q.toList.length) ∨
        ∃ ls, tokenize q = .ok ls ∧ ∃ l ∈ ls, e.position = l.start) := by
  cases hls : tokenize q with
  | error fault =>
    obtain ⟨htrue, hlt⟩ := error_of_tokenize hls
    unfold ofText Statement.ofText Parse.onText at h
    rw [hls] at h
    cases h
    exact ⟨htrue, .inl ⟨fault, rfl, hlt⟩⟩
  | ok ls =>
    obtain ⟨l, hl, hposition⟩ := start_of_ofText hls h
    refine ⟨?_, .inr ⟨ls, rfl, l, hl, hposition⟩⟩
    rw [hposition]
    exact start_of_tokenize hls l hl

/-- A term of `ORDER BY` that names no result column is found long after reading, and its error
points at the term, on the second line. -/
theorem position_of_ofText_order : let q := "SELECT a\nORDER BY b"
    ∃ e, ofText q = .error (.fault e) ∧ e.position = ⟨18, 2, 10⟩ ∧ Position.Of q.toList e.position ∧
      ((∃ fault, tokenize q = .error fault ∧ e.position.offset < q.toList.length) ∨
        ∃ ls, tokenize q = .ok ls ∧ ∃ l ∈ ls, e.position = l.start) := by
  intro q
  obtain ⟨e | _, h, hposition⟩ := error_of_any (r := ofText q)
    (p := fun stop => match stop with
      | .fault e => e.position = ⟨18, 2, 10⟩
      | .panic => false) (by decide +kernel)
  · exact ⟨e, h, of_decide_eq_true hposition, position_of_ofText h⟩
  · cases hposition

end Program

end RecordQuery
