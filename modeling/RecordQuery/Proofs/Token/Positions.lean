import RecordQuery.Proofs.Token.Starts

/-! # True positions

The position of a place is what a reader counts: the line is one more than the line feeds in front
of the place, and the column one more than the characters behind the last of them. Every position
that tokenizing gives, in a token or in an error, is true in this sense.

* `Position.line_after`, `Position.column_after`: reading characters counts them.
* `Source.Behind`: a source is what is left of a text behind its place. `Source.next` preserves
  that, also where it fails (`behind_of_next`).
* `Scan.Within`: a scan takes characters from the front of its text, and reports faults at one of
  them, so an error stands at a character of the text (`position_of_error`).
* `error_of_tokenize`, `start_of_tokenize`: the error, or the start of each token, of a text. -/

namespace RecordQuery

namespace Position

/-- **A true position** in a text. -/
structure Of (text : List Char) (p : Position) : Prop where
  offset_le : p.offset ≤ text.length
  line_eq : p.line = 1 + (text.take p.offset).count '\n'
  column_eq : p.column = 1 + ((text.take p.offset).reverse.takeWhile (· ≠ '\n')).length

theorem line_next (p : Position) (c : Char) :
    (p.next c).line = p.line + if c = '\n' then 1 else 0 := by
  unfold next
  split_ifs <;> rfl

theorem line_after (p : Position) (cs : List Char) :
    (p.after cs).line = p.line + cs.count '\n' := by
  induction cs generalizing p with
  | nil => simp
  | cons c cs ih =>
    have hcount : (c :: cs).count '\n' = cs.count '\n' + if c = '\n' then 1 else 0 := by
      simp [List.count_cons]
    rw [after_cons, ih, line_next, hcount]
    omega

/-- The induction takes the last character off, since a line feed resets the column. -/
theorem column_after (cs : List Char) :
    (start.after cs).column = 1 + (cs.reverse.takeWhile (· ≠ '\n')).length := by
  induction cs using List.reverseRecOn with
  | nil => rfl
  | append_singleton cs c ih =>
    rw [after_append, List.reverse_append, List.reverse_singleton, List.singleton_append]
    by_cases hc : c = '\n'
    · simp [hc, next]
    · have hnext : (start.after cs).next c =
          ⟨(start.after cs).offset + 1, (start.after cs).line, (start.after cs).column + 1⟩ :=
        if_neg hc
      simp [hc, hnext, ih]
      omega

/-- The place behind the first characters of a text. -/
theorem Of.after (before rest : List Char) : Of (before ++ rest) (start.after before) := by
  have hoffset : (start.after before).offset = before.length := by
    rw [offset_after, start, Nat.zero_add]
  refine ⟨?_, ?_, ?_⟩
  · rw [hoffset, List.length_append]
    omega
  · rw [hoffset, List.take_left, line_after, start]
  · rw [hoffset, List.take_left, column_after]

end Position

/-! ### Scans take from the front -/

/-- A scan of a text leaves an end of it, and finds faults at one of its characters. -/
structure Scan.Within (cs : List Char) (s : Scan) : Prop where
  rest_suffix : s.rest <:+ cs
  skipped_lt : ∀ m, s.outcome = .error m → m.skipped < cs.length

namespace Scan

variable {cs rest body : List Char} {c : Char} {what : Enclosed} {quote : Char} {skipped : Nat}
  {use : String → List Char → Scan}

theorem within_found {t : Token} (h : rest <:+ cs) : (found t rest).Within cs := ⟨h, nofun⟩

theorem within_fail {fault : LexFault} (h : rest <:+ cs) (hcs : cs ≠ []) :
    (fail fault rest).Within cs := by
  refine ⟨h, fun m hm => ?_⟩
  cases hm
  exact List.length_pos_iff.mpr hcs

theorem within_enclosed (hbody : body <:+ cs) (hskipped : skipped < cs.length)
    (huse : ∀ content rest, rest <:+ cs → (use (String.ofList content) rest).Within cs) :
    (enclosed what quote skipped body use).Within cs := by
  unfold enclosed
  split
  · next content rest hread => exact huse content rest ((readEnclosed_suffix hread).trans hbody)
  · refine ⟨List.nil_suffix, fun m hm => ?_⟩
    cases hm
    exact hskipped

theorem within_blob {x : Char} : (blob body).Within (x :: '\'' :: body) := by
  have hbody : body <:+ x :: '\'' :: body := List.suffix_append [x, '\''] body
  refine within_enclosed hbody (by simp) fun content rest hrest => ?_
  split_ifs
  · exact within_fail hrest (List.cons_ne_nil _ _)
  · exact within_found hrest

theorem within_numberedParameter : (numberedParameter body).Within ('?' :: body) := by
  have hrest : (splitDigits body).2 <:+ '?' :: body :=
    (splitDigits_suffix body).trans (List.suffix_cons _ _)
  unfold numberedParameter
  dsimp only
  split_ifs
  · exact within_found hrest
  · exact within_found hrest
  · exact within_fail hrest (List.cons_ne_nil _ _)

theorem within_namedParameter (sigil : Char) :
    (namedParameter sigil body).Within (sigil :: body) := by
  have hbody : body <:+ sigil :: body := List.suffix_cons _ _
  unfold namedParameter
  split
  · exact within_fail hbody (List.cons_ne_nil _ _)
  · next c name =>
    dsimp only
    split_ifs
    · exact within_enclosed ((List.suffix_cons c name).trans hbody) (by simp)
        fun content rest hrest => within_found hrest
    · exact within_found ((List.dropWhile_suffix _).trans hbody)
    · exact within_fail hbody (List.cons_ne_nil _ _)

theorem within_number (hc : c.isDigit = true ∨ c = '.' ∧ body.head?.any Char.isDigit = true) :
    (number (c :: body)).Within (c :: body) := by
  have hrest : (splitNumber (c :: body)).2 <:+ c :: body :=
    (splitNumber_suffix hc).trans (List.suffix_cons _ _)
  unfold number
  dsimp only
  split
  · exact within_found hrest
  · exact within_fail hrest (List.cons_ne_nil _ _)

/-- **Every scan** leaves an end of its text, also where it fails, and faults are found in front of
that end. -/
theorem within_scanToken (cs : List Char) : (scanToken cs).Within cs := by
  unfold scanToken
  split
  · exact within_found List.suffix_rfl
  · next c body =>
    have hbody : body <:+ c :: body := List.suffix_cons _ _
    have hne : c :: body ≠ [] := List.cons_ne_nil _ _
    split
    · next s both hs =>
      refine within_found ?_
      split
      · exact (List.drop_suffix 1 body).trans hbody
      · exact hbody
    · next hs =>
      refine iteInduction (fun _ => within_fail List.suffix_rfl hne) fun _ => ?_
      refine iteInduction (fun _ => ?_) fun _ => ?_
      · exact within_enclosed hbody (by simp) fun content rest hrest => within_found hrest
      refine iteInduction (fun _ => ?_) fun _ => ?_
      · exact within_enclosed hbody (by simp) fun content rest hrest => within_found hrest
      refine iteInduction (fun hc => ?_) fun _ => ?_
      · obtain ⟨more, rfl⟩ := List.head?_eq_some_iff.mp hc.2
        exact within_blob
      refine iteInduction (fun hc => ?_) fun _ => ?_
      · subst hc
        exact within_numberedParameter
      refine iteInduction (fun _ => within_namedParameter c) fun _ => ?_
      refine iteInduction (fun hc => ?_) fun _ => ?_
      · refine within_number (hc.imp_right fun hdot => ?_)
        subst hdot
        exact ⟨rfl, digit_of_symbolAt? hs⟩
      refine iteInduction (fun _ => ?_) fun _ => within_fail List.suffix_rfl hne
      exact within_found (List.dropWhile_suffix _)

end Scan

/-- The text from the start of an open comment is part of the text, unless it was open before. -/
theorem opening_suffix {mode : Trivia} {cs opening : List Char}
    (h : skipTrivia mode cs = .error opening) :
    mode = .block opening ∨ (opening <:+ cs ∧ opening ≠ []) := by
  fun_induction skipTrivia mode cs with
  | case1 =>
    cases h
    exact .inl rfl
  | case2 | case6 => cases h
  | case3 _ _ _ ih | case7 _ ih | case8 _ _ _ ih =>
    obtain ⟨hsuffix, hne⟩ := (ih h).resolve_left (by simp)
    exact .inr ⟨hsuffix.trans (List.suffix_cons _ _), hne⟩
  | case4 _ _ ih | case9 _ _ ih =>
    obtain ⟨hsuffix, hne⟩ := (ih h).resolve_left (by simp)
    exact .inr ⟨(hsuffix.trans (List.suffix_cons _ _)).trans (List.suffix_cons _ _), hne⟩
  | case5 _ _ ih =>
    obtain hopen | ⟨hsuffix, hne⟩ := ih h
    · cases hopen
      exact .inr ⟨List.suffix_rfl, List.cons_ne_nil _ _⟩
    · exact .inr ⟨(hsuffix.trans (List.suffix_cons _ _)).trans (List.suffix_cons _ _), hne⟩
  | case10 _ _ _ _ ih =>
    obtain hopen | ⟨hsuffix, hne⟩ := ih h
    · exact .inl hopen
    · exact .inr ⟨hsuffix.trans (List.suffix_cons _ _), hne⟩

/-! ### Sources behind their places -/

namespace Source

variable {text rest : List Char} {s s' : Source} {l : Lexeme} {e : LexError} {ts : List Lexeme}

/-- A source is what is left of a text behind the characters that lead to its place. -/
def Behind (text : List Char) (s : Source) : Prop :=
  ∃ before, text = before ++ s.rest ∧ s.position = Position.start.after before

theorem behind_ofString (text : String) : Behind text.toList (ofString text) := ⟨[], rfl, rfl⟩

theorem Behind.position (h : Behind text s) : Position.Of text s.position := by
  obtain ⟨before, rfl, hposition⟩ := h
  rw [hposition]
  exact .after before s.rest

/-- What is left starts where the place says. -/
theorem Behind.offset (h : Behind text s) : s.position.offset + s.rest.length = text.length := by
  obtain ⟨before, rfl, hposition⟩ := h
  rw [hposition, Position.offset_after, List.length_append, Position.start, Nat.zero_add]

theorem Behind.moveTo (h : Behind text s) (hrest : rest <:+ s.rest) :
    Behind text (s.moveTo rest) := by
  obtain ⟨before, rfl, hposition⟩ := h
  obtain ⟨gap, hgap⟩ := hrest
  refine ⟨before ++ gap, ?_, ?_⟩
  · change before ++ s.rest = before ++ gap ++ rest
    rw [← hgap, List.append_assoc]
  · have htake : s.rest.take (s.rest.length - rest.length) = gap := by
      rw [← hgap, List.length_append, Nat.add_sub_cancel, List.take_left]
    rw [Source.moveTo, htake, hposition, Position.after_append]

/-- A place at one of the characters that are left. -/
theorem Behind.character (h : Behind text s) {n : Nat} (hn : n < s.rest.length) :
    Position.Of text (s.position.after (s.rest.take n)) ∧
      (s.position.after (s.rest.take n)).offset < text.length := by
  have hlength := h.offset
  obtain ⟨before, rfl, hposition⟩ := h
  constructor
  · have hsplit : before ++ s.rest = (before ++ s.rest.take n) ++ s.rest.drop n := by
      rw [List.append_assoc, List.take_append_drop]
    rw [hposition, ← Position.after_append, hsplit]
    exact .after _ _
  · rw [Position.offset_after, List.length_take]
    omega

/-- **Reading a token** moves a source to what is left behind it, also where it fails. -/
theorem behind_of_next {r : Except LexError Lexeme} (hs : Behind text s) (h : s.next = (r, s')) :
    Behind text s' := by
  obtain rfl | ⟨cs, hskip, rfl⟩ := moved_of_next h
  · exact hs.moveTo List.nil_suffix
  · exact (hs.moveTo (skipTrivia_suffix hskip)).moveTo (Scan.within_scanToken cs).rest_suffix

/-- A token starts at a true position. -/
theorem position_of_next (hs : Behind text s) (h : s.next = (.ok l, s')) :
    Position.Of text l.start := by
  obtain ⟨cs, hparts⟩ := parts_of_next h
  rw [hparts.start]
  exact (hs.moveTo (skipTrivia_suffix hparts.skip)).position

/-- An error stands at a true position, which is that of a character. -/
theorem position_of_error (hs : Behind text s) (h : s.next = (.error e, s')) :
    Position.Of text e.position ∧ e.position.offset < text.length := by
  unfold next at h
  split at h
  · next opening hopen =>
    cases h
    obtain ⟨hsuffix, hne⟩ := (opening_suffix hopen).resolve_left nofun
    have hcomment := hs.moveTo hsuffix
    have hlength : (s.moveTo opening).position.offset + opening.length = text.length :=
      hcomment.offset
    have hpositive := List.length_pos_iff.mpr hne
    exact ⟨hcomment.position, show (s.moveTo opening).position.offset < text.length by omega⟩
  · next rest hskip =>
    have hhere := hs.moveTo (skipTrivia_suffix hskip)
    dsimp only at h
    split at h
    · cases h
    · next m hm =>
      cases h
      exact hhere.character ((Scan.within_scanToken rest).skipped_lt m hm)

theorem position_of_tokensWithin {n : Nat} {done : List Lexeme} (hs : Behind text s)
    (h : (tokensWithin n done s).1 = .error e) :
    Position.Of text e.position ∧ e.position.offset < text.length := by
  induction n generalizing done s with
  | zero => cases h
  | succ n ih =>
    unfold tokensWithin at h
    split at h
    · next hnext =>
      cases h
      exact position_of_error hs hnext
    · next l s' hnext =>
      split_ifs at h
      exact ih (behind_of_next hs hnext) h

theorem Scans.positions (h : Scans s ts) (hs : Behind text s) :
    ∀ l ∈ ts, Position.Of text l.start := by
  induction h with
  | last hnext _ => exact List.forall_mem_singleton.mpr (position_of_next hs hnext)
  | more hnext _ _ ih =>
    exact List.forall_mem_cons.mpr
      ⟨position_of_next hs hnext, ih (behind_of_next hs hnext)⟩

end Source

/-- **A text without tokens** has its error at the true position of one of its characters. -/
theorem error_of_tokenize {text : String} {e : LexError} (h : tokenize text = .error e) :
    Position.Of text.toList e.position ∧ e.position.offset < text.toList.length :=
  Source.position_of_tokensWithin (Source.behind_ofString text) h

/-- **The tokens of a text** start at true positions. -/
theorem start_of_tokenize {text : String} {ls : List Lexeme} (h : tokenize text = .ok ls) :
    ∀ l ∈ ls, Position.Of text.toList l.start := by
  intro l hl
  obtain ⟨ts, hscans, rfl⟩ := Source.scans_of_tokenize h
  have hmem : l.start ∈ (ts.foldl Source.push []).map Lexeme.start :=
    List.mem_map_of_mem (List.mem_reverse.mp hl)
  have hstart := (Source.starts_foldl_push ts []).subset hmem
  rw [List.map_nil, List.append_nil, List.mem_reverse] at hstart
  obtain ⟨k, hk, hkl⟩ := List.mem_map.mp hstart
  rw [← hkl]
  exact hscans.positions (Source.behind_ofString text) k hk

end RecordQuery
