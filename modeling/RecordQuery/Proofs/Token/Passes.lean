import RecordQuery.Proofs.Token.Behind

/-! # Reading and fusing apart

Tokens are fused while they are read: the last one so far is looked at again when the next one
comes. The same comes out of two passes. The first one reads token after token, up to the end of the
input or an error (`Source.readAll`). The second one goes over these from left to right and joins
each `NOT` with an operator word right behind it (`Joins`). A source may stand anywhere in a text,
also behind tokens that were read and errors that were met.

* `joins_iff`: what is joined is what is fused, so there is one result only.
* `tokensWithin_eq`: reading with tokens in front is reading first and pushing afterwards. The
  induction is on the bound, which is never met.
* `tokens_two_passes`: one pass is two passes, with the same errors and the same source behind. -/

namespace RecordQuery.Source

open Grammar

variable {s s' : Source} {l : Lexeme} {e : LexError} {ws ls done : List Lexeme} {n : Nat}

/-! ### The first pass -/

/-- **Reading token after token**, up to the end of the input or an error, and the source behind. -/
def readAll (s : Source) : Except LexError (List Lexeme) × Source :=
  match h : s.next with
  | (.error e, s') => (.error e, s')
  | (.ok l, s') =>
    if hl : l.token = .endOfInput then (.ok [l], s')
    else
      have := length_of_next h hl
      (s'.readAll.1.map (l :: ·), s'.readAll.2)
termination_by s.rest.length

/-- What the first pass makes of the next token. -/
theorem readAll_eq {r : Except LexError Lexeme} (h : s.next = (r, s')) : s.readAll =
    match r with
    | .error e => (.error e, s')
    | .ok l =>
      if l.token = .endOfInput then (.ok [l], s')
      else (s'.readAll.1.map (l :: ·), s'.readAll.2) := by
  rw [readAll]
  split
  · next h' =>
    rw [h] at h'
    cases h'
    rfl
  · next h' =>
    rw [h] at h'
    cases h'
    rfl

/-- Tokens that were read one after another are the first pass. -/
theorem scans_of_readAll (h : s.readAll.1 = .ok ws) : Scans s ws := by
  induction hn : s.rest.length using Nat.strong_induction_on generalizing s ws with
  | _ n ih =>
    rcases hnext : s.next with ⟨e | l, s'⟩
    · rw [readAll_eq hnext] at h
      cases h
    · rw [readAll_eq hnext] at h
      dsimp only at h
      split_ifs at h with hl
      · cases h
        exact .last hnext hl
      · have hlength := length_of_next hnext hl
        rcases hrest : s'.readAll.1 with e | ts
        · rw [hrest] at h
          cases h
        · rw [hrest] at h
          cases h
          exact .more hnext hl (ih s'.rest.length (by omega) hrest rfl)

/-! ### The second pass -/

/-- **What a run of tokens is joined to**, from left to right. -/
inductive Joins : List Lexeme → List Lexeme → Prop
  | nil : Joins [] []
  | pair {a b : Lexeme} {n : Negatable} {ws ls : List Lexeme} (ha : a.token = .keyword .NOT)
      (hb : b.token = .keyword n.keyword) (h : Joins ws ls) :
      Joins (a :: b :: ws) (⟨.negated n, a.start, b.stop⟩ :: ls)
  | single {a : Lexeme} {ws ls : List Lexeme} (hn : ∀ b ∈ ws.head?, ¬ Fusable a b)
      (h : Joins ws ls) : Joins (a :: ws) (a :: ls)

theorem fuse_of_joins (h : Joins ws ls) : fuse ws = ls := by
  induction h with
  | nil => rfl
  | pair ha hb _ ih => rw [fuse_pair ha hb, ih]
  | single hn _ ih => rw [fuse_cons fun ha b hb => fuses_eq_false (hn b hb) ha, ih]

/-- Every run of tokens is joined to one. -/
theorem exists_joins : ∀ ws : List Lexeme, ∃ ls, Joins ws ls
  | [] => ⟨[], .nil⟩
  | [a] => ⟨[a], .single nofun .nil⟩
  | a :: b :: ws => by
    by_cases hab : Fusable a b
    · obtain ⟨n, ha, hb⟩ := hab
      obtain ⟨ls, h⟩ := exists_joins ws
      exact ⟨_, .pair ha hb h⟩
    · obtain ⟨ls, h⟩ := exists_joins (b :: ws)
      refine ⟨_, .single (fun c hc => ?_) h⟩
      obtain rfl := Option.some.inj hc
      exact hab

theorem joins_iff : Joins ws ls ↔ fuse ws = ls := by
  constructor
  · exact fuse_of_joins
  · rintro rfl
    obtain ⟨ls, h⟩ := exists_joins ws
    rw [fuse_of_joins h]
    exact h

/-! ### One pass -/

theorem tokensWithin_eq (hn : s.rest.length < n) : tokensWithin n done s =
    (s.readAll.1.map fun ws => (ws.foldl push done).reverse, s.readAll.2) := by
  induction n generalizing done s with
  | zero => omega
  | succ n ih =>
    rw [tokensWithin]
    rcases hnext : s.next with ⟨e | l, s'⟩
    · rw [readAll_eq hnext]
      rfl
    · rw [readAll_eq hnext]
      dsimp only
      split_ifs with hl
      · rfl
      · have hlength := length_of_next hnext hl
        rw [ih (by omega)]
        rcases s'.readAll.1 with e | ts <;> rfl

theorem tokens_eq (s : Source) : s.tokens = (s.readAll.1.map fuse, s.readAll.2) :=
  tokensWithin_eq (Nat.lt_succ_self _)

/-- **One pass is two passes**, for every source. They leave the same source behind, and both fail,
with the same error, or neither does. What is read then is what the tokens of the first pass are
joined to. Nothing in it is left to join, and the end of the input stands at its end and nowhere
else. -/
theorem tokens_two_passes (s : Source) :
    s.tokens.2 = s.readAll.2 ∧ (∀ e, s.tokens.1 = .error e ↔ s.readAll.1 = .error e) ∧
      ∀ ls, s.tokens.1 = .ok ls ↔ ∃ ws, s.readAll.1 = .ok ws ∧ Joins ws ls ∧
        (ls.IsChain fun a b => ¬ Fusable a b) ∧
        ∃ before last, ls = before ++ [last] ∧ last.token = .endOfInput ∧
          ∀ l ∈ before, l.token ≠ .endOfInput := by
  rw [tokens_eq]
  refine ⟨rfl, fun e => ?_, fun ls => ?_⟩
  · rcases s.readAll.1 with e' | ws
    · exact Iff.rfl
    · exact iff_of_false nofun nofun
  · rcases hread : s.readAll.1 with e | ws
    · exact iff_of_false nofun fun ⟨ws, h, _⟩ => nomatch h
    · constructor
      · intro h
        obtain rfl : fuse ws = ls := Except.ok.inj h
        refine ⟨ws, rfl, joins_iff.mpr rfl, ?_, (scans_of_readAll hread).ends_foldl_push⟩
        exact List.isChain_reverse.mpr (Settles.foldl_push List.isChain_nil)
      · rintro ⟨ws', hws, hjoins, -⟩
        obtain rfl := Except.ok.inj hws
        exact congrArg Except.ok (joins_iff.mp hjoins)

end RecordQuery.Source
