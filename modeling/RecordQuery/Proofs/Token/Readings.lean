import RecordQuery.Proofs.Token.Passes
import RecordQuery.Proofs.Token.Tiles

/-! # Readings one after another

A source can be asked for its next token or for all tokens up to the end of the input (`Reading`),
and asked again behind that, also where a reading has failed. Whatever it is asked for, and however
often, its place stays a true position of the text and never moves back (`sound_after`).

* `Lexeme.Within`: a token that starts at a true position and spans a part between two offsets. The
  tokens read so far lie in front of the place of the source, and one more keeps that, fused or not
  (`within_push`).
* `Outcome`: what one reading gives and leaves. Both readings have one (`outcome_next`,
  `outcome_tokens`), so any number of them leaves the source behind its place (`behind_after`).
* `exists_yields`: a token takes a character, so token after token comes to the end of the input or
  to an error. The induction is on the characters left. -/

namespace RecordQuery

/-- A token that starts at a true position of a text, and has its span between two offsets. -/
structure Lexeme.Within (text : List Char) (i j : Nat) (l : Lexeme) : Prop where
  start : Position.Of text l.start
  start_ge : i ≤ l.start.offset
  start_le : l.start.offset ≤ l.stop
  stop_le : l.stop ≤ j

theorem Lexeme.Within.mono {text : List Char} {i j i' j' : Nat} {l : Lexeme}
    (h : l.Within text i j) (hi : i' ≤ i) (hj : j ≤ j') : l.Within text i' j' :=
  ⟨h.start, hi.trans h.start_ge, h.start_le, h.stop_le.trans hj⟩

namespace Source

variable {text : List Char} {s s' : Source} {l : Lexeme} {done : List Lexeme} {i j m n : Nat}

/-- What a source can be asked for: its next token, or all tokens up to the end of the input. -/
inductive Reading where
  | one
  | all

/-- What a reading gives, and the source behind it. -/
def Reading.run : Reading → Source → Except LexError (List Lexeme) × Source
  | one, s => (s.next.1.map fun l => [l], s.next.2)
  | all, s => s.tokens

/-- The source behind readings that are made one after another. -/
def after (s : Source) (rs : List Reading) : Source := rs.foldl (fun s r => (r.run s).2) s

/-! ### One token -/

theorem Behind.toAt (h : Behind text s) : s.At text := by
  have hoffset := h.offset
  obtain ⟨before, rfl, hposition⟩ := h
  have hlength : s.position.offset = before.length := by
    rw [List.length_append] at hoffset
    omega
  exact ⟨by rw [hlength, List.drop_left], by omega⟩

/-- Characters are taken from the front, also by a reading that fails. -/
theorem rest_of_next {r : Except LexError Lexeme} (h : s.next = (r, s')) : s'.rest <:+ s.rest := by
  obtain rfl | ⟨cs, hskip, rfl⟩ := moved_of_next h
  · exact List.nil_suffix
  · exact (Scan.within_scanToken cs).rest_suffix.trans (skipTrivia_suffix hskip)

/-- Fewer characters are left at a later place. -/
theorem Behind.offset_le (h : Behind text s) (h' : Behind text s') (hrest : s'.rest <:+ s.rest) :
    s.position.offset ≤ s'.position.offset := by
  have hs := h.offset
  have hs' := h'.offset
  have hlength := hrest.length_le
  omega

theorem onward_of_next {r : Except LexError Lexeme} (hs : Behind text s) (h : s.next = (r, s')) :
    s.position.offset ≤ s'.position.offset :=
  hs.offset_le (behind_of_next hs h) (rest_of_next h)

/-- **A token that is read** spans what is taken. -/
theorem within_of_next (hs : Behind text s) (h : s.next = (.ok l, s')) :
    l.Within text s.position.offset s'.position.offset := by
  obtain ⟨-, hstop, hstart, -, hstands⟩ := stands_of_next hs.toAt h
  exact ⟨position_of_next hs h, hstart, hstands.start_le, hstop.le⟩

/-- A token that is not the end of the input takes a character at least. -/
theorem advances_of_next (h : s.next = (.ok l, s')) (hl : l.token ≠ .endOfInput) :
    s.position.offset < s'.position.offset := by
  obtain ⟨hstart, hbehind⟩ := offsets_of_next h
  exact hstart.trans_lt (hbehind hl)

/-! ### All tokens -/

/-- **One more token** lies with the others in front of the place behind it. A token that it is
fused with starts where the first of the two words does, and ends with the second one. -/
theorem within_push (hdone : ∀ k ∈ done, k.Within text i m) (hl : l.Within text m j) (him : i ≤ m)
    (hmj : m ≤ j) : ∀ k ∈ push done l, k.Within text i j := by
  have hbefore : ∀ k ∈ done, k.Within text i j := fun k hk => (hdone k hk).mono (Nat.le_refl i) hmj
  have hlast : l.Within text i j := hl.mono him (Nat.le_refl j)
  cases done with
  | nil => exact List.forall_mem_singleton.mpr hlast
  | cons last before =>
    have hrest := (List.forall_mem_cons.mp hbefore).2
    cases hf : fuse? last l with
    | none =>
      simp only [push, hf]
      exact List.forall_mem_cons.mpr ⟨hlast, hbefore⟩
    | some both =>
      simp only [push, hf]
      obtain ⟨n, k, -, -, -, rfl⟩ := fuse?_words hf
      have hfirst := hdone last List.mem_cons_self
      have hspan : last.start.offset ≤ l.stop :=
        calc last.start.offset ≤ last.stop := hfirst.start_le
          _ ≤ m := hfirst.stop_le
          _ ≤ l.start.offset := hl.start_ge
          _ ≤ l.stop := hl.start_le
      exact List.forall_mem_cons.mpr ⟨⟨hfirst.start, hfirst.start_ge, hspan, hl.stop_le⟩, hrest⟩

/-- The source behind tokens, and where those lie that were read. -/
theorem within_of_tokensWithin {r : Except LexError (List Lexeme)} (hs : Behind text s)
    (hdone : ∀ k ∈ done, k.Within text i s.position.offset) (hi : i ≤ s.position.offset)
    (h : tokensWithin n done s = (r, s')) :
    Behind text s' ∧ s.position.offset ≤ s'.position.offset ∧
      ∀ ls, r = .ok ls → ∀ k ∈ ls, k.Within text i s'.position.offset := by
  induction n generalizing done s with
  | zero =>
    cases h
    refine ⟨hs, Nat.le_refl _, fun ls hls k hk => hdone k ?_⟩
    cases hls
    exact List.mem_reverse.mp hk
  | succ n ih =>
    unfold tokensWithin at h
    split at h
    · next e s₁ hnext =>
      cases h
      exact ⟨behind_of_next hs hnext, onward_of_next hs hnext, nofun⟩
    · next l s₁ hnext =>
      have hbehind := behind_of_next hs hnext
      have honward := onward_of_next hs hnext
      have hpush := within_push hdone (within_of_next hs hnext) hi honward
      split_ifs at h with hend
      · cases h
        refine ⟨hbehind, honward, fun ls hls k hk => hpush k ?_⟩
        cases hls
        exact List.mem_reverse.mp hk
      · obtain ⟨hlast, hmore, htokens⟩ := ih hbehind hpush (hi.trans honward) h
        exact ⟨hlast, honward.trans hmore, htokens⟩

/-! ### Readings -/

/-- **What one reading gives and leaves.** -/
structure Outcome (text : List Char) (s : Source) (r : Except LexError (List Lexeme))
    (s' : Source) : Prop where
  behind : Behind text s'
  onward : s.position.offset ≤ s'.position.offset
  tokens : ∀ ls, r = .ok ls → ∀ l ∈ ls, l.Within text s.position.offset s'.position.offset
  error : ∀ e, r = .error e → Position.Of text e.position

theorem outcome_next (hs : Behind text s) : Outcome text s (s.next.1.map fun l => [l]) s.next.2 := by
  rcases hnext : s.next with ⟨e | l, s'⟩
  · have herror := position_of_error hs hnext
    refine ⟨behind_of_next hs hnext, onward_of_next hs hnext, nofun, fun f hf => ?_⟩
    cases hf
    exact herror.1
  · have hwithin := within_of_next hs hnext
    refine ⟨behind_of_next hs hnext, onward_of_next hs hnext, fun ls hls => ?_, nofun⟩
    cases hls
    exact List.forall_mem_singleton.mpr hwithin

theorem outcome_tokens (hs : Behind text s) : Outcome text s s.tokens.1 s.tokens.2 := by
  have hnone : ∀ k ∈ ([] : List Lexeme), k.Within text s.position.offset s.position.offset := nofun
  have htokens : tokensWithin (s.rest.length + 1) [] s = (s.tokens.1, s.tokens.2) := rfl
  obtain ⟨hbehind, honward, hwithin⟩ := within_of_tokensWithin hs hnone (Nat.le_refl _) htokens
  exact ⟨hbehind, honward, hwithin, fun e he => (position_of_tokensWithin hs he).1⟩

theorem outcome_run (hs : Behind text s) (r : Reading) : Outcome text s (r.run s).1 (r.run s).2 := by
  cases r with
  | one => exact outcome_next hs
  | all => exact outcome_tokens hs

/-- **Readings leave a source behind its place**, however many they are. -/
theorem behind_after (hs : Behind text s) (rs : List Reading) : Behind text (s.after rs) := by
  induction rs generalizing s with
  | nil => exact hs
  | cons r rs ih => exact ih (outcome_run hs r).behind

/-! ### The end of reading -/

/-- Nothing is left to be read: the next token is the end of the input, or there is an error. -/
def Stops (s : Source) : Prop :=
  (∃ e, s.next.1 = .error e) ∨ ∃ l, s.next.1 = .ok l ∧ l.token = .endOfInput

/-- **Token after token** comes to an end, with no more tokens than characters. -/
theorem exists_yields (s : Source) :
    ∃ ws s', Yields s ws s' ∧ ws.length + s'.rest.length ≤ s.rest.length ∧ s'.Stops := by
  induction hn : s.rest.length using Nat.strong_induction_on generalizing s with
  | _ n ih =>
    rcases hnext : s.next with ⟨e | l, s₁⟩
    · exact ⟨[], s, .nil, by rw [hn, List.length_nil, Nat.zero_add], .inl ⟨e, by rw [hnext]⟩⟩
    · by_cases hl : l.token = .endOfInput
      · exact ⟨[], s, .nil, by rw [hn, List.length_nil, Nat.zero_add],
          .inr ⟨l, by rw [hnext], hl⟩⟩
      · have hlength := length_of_next hnext hl
        obtain ⟨ws, s', hyields, hle, hstops⟩ := ih s₁.rest.length (by omega) s₁ rfl
        refine ⟨l :: ws, s', .cons hnext hl hyields, ?_, hstops⟩
        rw [List.length_cons]
        omega

/-- All tokens are read up to the end of the input, whatever the bound on them. -/
theorem ends_of_tokens {ls : List Lexeme} (h : s.tokens.1 = .ok ls) :
    ∃ before last, ls = before ++ [last] ∧ last.token = .endOfInput := by
  rw [tokens_eq] at h
  rcases hread : s.readAll.1 with e | ws
  · rw [hread] at h
    cases h
  · rw [hread] at h
    cases h
    obtain ⟨before, last, heq, hlast, -⟩ := (scans_of_readAll hread).ends_foldl_push
    exact ⟨before, last, heq, hlast⟩

/-- **A sound source** of a text: its place is true; every reading leaves it there or further on,
and gives tokens in between, or an error, at true positions; a token that is not the end of the
input moves it on; and token after token, or all at once, it comes to the end of the input or to an
error, with no more tokens than characters are left. -/
structure Sound (text : List Char) (s : Source) : Prop where
  position : Position.Of text s.position
  onward : ∀ r : Reading, s.position.offset ≤ (r.run s).2.position.offset
  tokens : ∀ (r : Reading) (ls : List Lexeme), (r.run s).1 = .ok ls →
    ∀ l ∈ ls, l.Within text s.position.offset (r.run s).2.position.offset
  error : ∀ (r : Reading) (e : LexError), (r.run s).1 = .error e → Position.Of text e.position
  advances : ∀ l s', s.next = (.ok l, s') → l.token ≠ .endOfInput →
    s.position.offset < s'.position.offset
  ends : ∃ ws s', Yields s ws s' ∧ s.position.offset + ws.length ≤ text.length ∧ s'.Stops
  whole : ∀ ls, s.tokens.1 = .ok ls → ∃ before last, ls = before ++ [last] ∧
    last.token = .endOfInput

/-- **Positions stay true, and reading comes to an end**, for every text and behind any readings of
it, those that failed included. -/
theorem sound_after (text : String) (rs : List Reading) :
    Sound text.toList ((ofString text).after rs) := by
  have hbehind := behind_after (behind_ofString text) rs
  obtain ⟨ws, s', hyields, hlength, hstops⟩ := exists_yields ((ofString text).after rs)
  have hoffset := hbehind.offset
  exact {
    position := hbehind.position
    onward := fun r => (outcome_run hbehind r).onward
    tokens := fun r => (outcome_run hbehind r).tokens
    error := fun r => (outcome_run hbehind r).error
    advances := fun _ _ h hl => advances_of_next h hl
    ends := ⟨ws, s', hyields, by omega, hstops⟩
    whole := fun _ h => ends_of_tokens h }

end Source

end RecordQuery
