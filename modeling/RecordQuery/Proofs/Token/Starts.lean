import RecordQuery.Proofs.Token.Lexed

/-! # Where tokens start

A token starts behind the blanks and comments in front of it, and the next one is read from behind
it, so the tokens of a text start at places that increase (`increasing_of_tokenize`). A token that
begins with `NOT` starts where its `NOT` does. -/

namespace RecordQuery

/-- A place stands in front of another one. -/
def Position.Before (p q : Position) : Prop := p.offset < q.offset

namespace Source

variable {s s' : Source} {l : Lexeme} {done ts : List Lexeme}

/-- Moving to a later part of a text moves by the characters in between. -/
theorem offset_moveTo {rest : List Char} (h : rest <:+ s.rest) :
    (s.moveTo rest).position.offset + rest.length = s.position.offset + s.rest.length := by
  have hlength := h.length_le
  unfold moveTo
  rw [Position.offset_after, List.length_take]
  omega

/-- A token starts in what is left, and what is left behind it starts later. -/
theorem offsets_of_next (h : s.next = (.ok l, s')) : s.position.offset ≤ l.start.offset ∧
    (l.token ≠ .endOfInput → l.start.offset < s'.position.offset) := by
  obtain ⟨cs, hparts⟩ := parts_of_next h
  have hrest := skipTrivia_suffix hparts.skip
  have hhere := offset_moveTo hrest
  have hlength := hrest.length_le
  rw [hparts.start]
  refine ⟨by omega, fun hend => ?_⟩
  have hlexed : Lexed cs l.token (scanToken cs).rest := Scan.lexes_scanToken cs _ hparts.outcome
  rw [hparts.rest] at hlexed
  obtain ⟨c, body, rfl, hbody⟩ := hlexed.suffix hend
  have hbehind := offset_moveTo (s := s.moveTo (c :: body)) (hbody.trans (List.suffix_cons c body))
  have hshorter := hbody.length_le
  rw [← hparts.moved, show (s.moveTo (c :: body)).rest = c :: body from rfl,
    List.length_cons] at hbehind
  omega

theorem Scans.increasing (h : Scans s ts) :
    (∀ l ∈ ts, s.position.offset ≤ l.start.offset) ∧
      (ts.map Lexeme.start).Pairwise Position.Before := by
  induction h with
  | last h _ =>
    exact ⟨List.forall_mem_singleton.mpr (offsets_of_next h).1, List.pairwise_singleton _ _⟩
  | more h hl _ ih =>
    obtain ⟨hfirst, hnext⟩ := offsets_of_next h
    have hstart := hnext hl
    refine ⟨List.forall_mem_cons.mpr ⟨hfirst, fun k hk => ?_⟩,
      List.pairwise_cons.mpr ⟨fun p hp => ?_, ih.2⟩⟩
    · have hk := ih.1 k hk
      omega
    · obtain ⟨k, hk, rfl⟩ := List.mem_map.mp hp
      exact Nat.lt_of_lt_of_le hstart (ih.1 k hk)

/-- Becoming one with the token in front changes no start. -/
theorem starts_push (done : List Lexeme) (l : Lexeme) :
    (push done l).map Lexeme.start = l.start :: done.map Lexeme.start ∨
      (push done l).map Lexeme.start = done.map Lexeme.start := by
  unfold push
  split
  · exact .inl rfl
  · next last before =>
    split
    · next both hboth =>
      refine .inr ?_
      unfold fuse? at hboth
      split at hboth
      · obtain ⟨n, -, rfl⟩ := Option.map_eq_some_iff.mp hboth
        rfl
      · cases hboth
    · exact .inl rfl

/-- The starts of fused tokens are among those of their words, the last one first. -/
theorem starts_foldl_push (ts done : List Lexeme) :
    ((ts.foldl push done).map Lexeme.start).Sublist
      ((ts.map Lexeme.start).reverse ++ done.map Lexeme.start) := by
  induction ts generalizing done with
  | nil => exact List.Sublist.refl _
  | cons t ts ih =>
    refine (ih _).trans ?_
    rw [List.map_cons, List.reverse_cons, List.append_assoc]
    refine List.Sublist.append_left ?_ _
    obtain h | h := starts_push done t <;> rw [h]
    · exact List.Sublist.refl _
    · exact List.sublist_cons_self _ _

end Source

/-- **The tokens of a text** start at places that increase. -/
theorem increasing_of_tokenize {text : String} {ls : List Lexeme} (h : tokenize text = .ok ls) :
    (ls.map Lexeme.start).Pairwise Position.Before := by
  obtain ⟨ts, hscans, rfl⟩ := Source.scans_of_tokenize h
  have hstarts := (Source.starts_foldl_push ts []).reverse
  rw [List.map_nil, List.append_nil, List.reverse_reverse] at hstarts
  rw [List.map_reverse]
  exact hscans.increasing.2.sublist hstarts

end RecordQuery
