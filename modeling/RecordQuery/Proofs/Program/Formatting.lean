import RecordQuery.Proofs.Program.Keys
import RecordQuery.Proofs.Program.Tokens
import RecordQuery.Proofs.Token.Recased
import RecordQuery.Proofs.Token.Spread

/-! # Formatting

A query is formatted by the blanks and comments around its tokens and by the case of its letters.
Another format keeps the tokens (`tokensOf_spread`, `tokensOf_recased`), and with them the key of
the query and its program. -/

namespace RecordQuery

/-- **Another format** of a query: the texts of its tokens with other blanks and closed comments
around them, and with ASCII letters of another case outside of quotes and comments. -/
def Reformats (text : List Char) (ls : List Lexeme) (new : List Char) : Prop :=
  ∃ opening body, Closed opening ∧ Spread text ls.dropLast body ∧
    Recased .plain (opening ++ body) new

/-- **Formatting never changes the tokens**: a query in another format has the tokens it had, so it
has the same key, and the same program if it has one. -/
theorem tokenize_reformatted {text new : String} {ls : List Lexeme} (h : tokenize text = .ok ls)
    (hnew : Reformats text.toList ls new.toList) :
    (∃ ls', tokenize new = .ok ls' ∧ ls'.map Lexeme.token = ls.map Lexeme.token) ∧
      (∃ k, Cache.key? text = some k ∧ Cache.key? new = some k) ∧
      ∀ p, Program.ofText new = .ok p ↔ Program.ofText text = .ok p := by
  obtain ⟨opening, body, hopening, hbody, hcase⟩ := hnew
  have htokens := tokensOf_recased hcase (tokensOf_spread h hopening hbody)
  obtain ⟨ls', hls', hsame⟩ := tokensOf_ok htokens
  rw [String.ofList_toList] at hls'
  refine ⟨⟨ls', hls', hsame⟩, Cache.key?_eq_iff.mpr ⟨ls, ls', h, hls', hsame.symm⟩, fun p => ?_⟩
  have halike := Program.kin_ofText h hls' hsame.symm
  cases hp : Program.ofText text <;> cases hq : Program.ofText new <;> rw [hp, hq] at halike
  · exact ⟨nofun, nofun⟩
  · exact halike.elim
  · exact halike.elim
  · rw [show _ = _ from halike]

/-- A comment stays inside of a token, and other ones are put between the tokens. -/
theorem tokenize_reformatted_comments :
    let text := "select 'B' where a not/*!*/null"
    let new := "\t/*x*/SELECT -- it's\n'B'\tWhere A NOT/*!*/Null /*\"*/ "
    ∃ ls, tokenize text = .ok ls ∧ Reformats text.toList ls new.toList ∧
      (∃ ls', tokenize new = .ok ls' ∧ ls'.map Lexeme.token = ls.map Lexeme.token) ∧
      (∃ k, Cache.key? text = some k ∧ Cache.key? new = some k) ∧
      ∀ p, Program.ofText new = .ok p ↔ Program.ofText text = .ok p := by
  intro text new
  let ls : List Lexeme := [⟨.keyword .SELECT, ⟨0, 1, 1⟩, 6⟩, ⟨.string "B", ⟨7, 1, 8⟩, 10⟩,
    ⟨.keyword .WHERE, ⟨11, 1, 12⟩, 16⟩, ⟨.identifier "a", ⟨17, 1, 18⟩, 18⟩,
    ⟨.negated .null, ⟨19, 1, 20⟩, 31⟩, ⟨.endOfInput, ⟨31, 1, 32⟩, 31⟩]
  have hls : tokenize text = .ok ls := by decide +kernel
  have hspace : Spacing [' '] := ⟨fun _ => .blank (by decide) .nil, _, rfl, by decide⟩
  have htab : Spacing ['\t'] := ⟨fun _ => .blank (by decide) .nil, _, rfl, by decide⟩
  have hline : Spacing " -- it's\n".toList := by
    refine ⟨fun _ => .blank (by decide) ?_, ' ', rfl, by decide⟩
    exact @Blanks.line " it's".toList [] _ (by decide) .nil
  have hblock : Spacing " /*\"*/ ".toList := by
    refine ⟨fun _ => .blank (by decide) ?_, ' ', rfl, by decide⟩
    exact @Blanks.block ['"'] [' '] _ (by decide) (.blank (by decide) .nil)
  have hopening : Closed "\t/*x*/".toList := fun _ =>
    .blank (by decide) (@Blanks.block ['x'] [] _ (by decide) .nil)
  have hnew : Reformats text.toList ls new.toList := by
    refine ⟨_, _, hopening, .cons (.inl hline) <| .cons (.inl htab) <| .cons (.inl hspace) <|
      .cons (.inl hspace) <| .cons (.inl hblock) .nil, ?_⟩
    decide +kernel
  exact ⟨ls, hls, hnew, tokenize_reformatted hls hnew⟩

end RecordQuery
