import RecordQuery.Proofs.Token.Faithful
import RecordQuery.Proofs.Token.Positions

/-! # Tokens of a text behind another one

What is read of a text does not depend on the text in front of it, apart from the places: a source
that stands behind more text yields the same tokens, each at the place where its own place comes to
stand (`Scans.behind`). Fusing commutes with that (`fuse_behind`), and takes notice of a token in
front of others only where that is a `NOT` (`fuse_cons`, `fuse_pair`). -/

namespace RecordQuery

/-- Where a place in a text comes to stand when there is another text in front. -/
def Position.behind (front text : List Char) (p : Position) : Position :=
  Position.start.after (front ++ text.take p.offset)

/-- A token of a text, with another text in front. -/
def Lexeme.behind (front text : List Char) (l : Lexeme) : Lexeme :=
  ⟨l.token, l.start.behind front text, front.length + l.stop⟩

open Grammar

namespace Source

variable {front text : List Char} {s s₁ s' : Source} {l : Lexeme} {ts ws : List Lexeme}

/-! ### Reading behind another text -/

/-- Two sources with the same text left, one of them behind another text. -/
theorem Behind.place (hs : Behind text s) (hs' : Behind (front ++ text) s')
    (h : s'.rest = s.rest) : s'.position = s.position.behind front text := by
  obtain ⟨before, rfl, hposition⟩ := hs
  obtain ⟨before', hsplit, hposition'⟩ := hs'
  rw [h, ← List.append_assoc] at hsplit
  have hoffset : s.position.offset = before.length := by
    rw [hposition, Position.offset_after, Position.start, Nat.zero_add]
  rw [hposition', Position.behind, hoffset, List.take_left, List.append_cancel_right hsplit]

/-- **One token** is read behind another text as it is read without it. -/
theorem next_behind (hs : Behind text s) (hs' : Behind (front ++ text) s')
    (hskip : skipTrivia .outside s'.rest = skipTrivia .outside s.rest)
    (h : s.next = (.ok l, s₁)) :
    ∃ s₁', s'.next = (.ok (l.behind front text), s₁') ∧ s₁'.rest = s₁.rest := by
  obtain ⟨cs, hparts⟩ := parts_of_next h
  rw [hparts.skip] at hskip
  obtain ⟨l', s₁', h', htoken, hrest⟩ := next_of_scan s' cs hskip hparts.scan
  obtain ⟨cs', hparts'⟩ := parts_of_next h'
  obtain rfl : cs' = cs := Except.ok.inj (hparts'.skip.symm.trans hskip)
  have hplace : (s'.moveTo cs').position = (s.moveTo cs').position.behind front text :=
    (hs.moveTo (skipTrivia_suffix hparts.skip)).place (hs'.moveTo (skipTrivia_suffix hskip)) rfl
  have hstart' := hparts'.start
  have hstop' := hparts'.stop
  have hoffset := (behind_of_next hs h).offset
  have hoffset' := (behind_of_next hs' h').offset
  rw [hrest, List.length_append] at hoffset'
  have hl : l' = l.behind front text := by
    obtain ⟨token, start, stop⟩ := l'
    dsimp only at htoken hstart' hstop'
    rw [Lexeme.behind, htoken, hstart', hplace, ← hparts.start, hstop', hparts.stop]
    congr 1
    omega
  exact ⟨s₁', hl ▸ h', hrest⟩

/-- **A text behind another one** has its own tokens. -/
theorem Scans.behind (h : Scans s ts) (hs : Behind text s) (hs' : Behind (front ++ text) s')
    (hskip : skipTrivia .outside s'.rest = skipTrivia .outside s.rest) :
    Scans s' (ts.map (Lexeme.behind front text)) := by
  induction h generalizing s' with
  | last h hl =>
    obtain ⟨_, h', -⟩ := next_behind hs hs' hskip h
    exact .last h' hl
  | more h hl _ ih =>
    obtain ⟨_, h', hrest⟩ := next_behind hs hs' hskip h
    exact .more h' hl (ih (behind_of_next hs h) (behind_of_next hs' h') (by rw [hrest]))

theorem Yields.stands (h : Yields s ws s') (hs : Behind text s) : Behind text s' := by
  induction h with
  | nil => exact hs
  | cons h _ _ ih => exact ih (behind_of_next hs h)

/-! ### Fusing behind another text -/

theorem fuse?_behind (a b : Lexeme) : fuse? (a.behind front text) (b.behind front text) =
    (fuse? a b).map (Lexeme.behind front text) := by
  unfold fuse?
  dsimp only [Lexeme.behind]
  split
  · rw [Option.map_map]
    rfl
  · rfl

theorem push_behind (done : List Lexeme) (l : Lexeme) :
    push (done.map (Lexeme.behind front text)) (l.behind front text) =
      (push done l).map (Lexeme.behind front text) := by
  cases done with
  | nil => rfl
  | cons last before =>
    simp only [List.map_cons, push, fuse?_behind]
    cases fuse? last l <;> rfl

theorem fuse_behind (ts : List Lexeme) :
    fuse (ts.map (Lexeme.behind front text)) = (fuse ts).map (Lexeme.behind front text) := by
  suffices h : ∀ done, (ts.map (Lexeme.behind front text)).foldl push
      (done.map (Lexeme.behind front text)) =
        (ts.foldl push done).map (Lexeme.behind front text) by
    rw [fuse, fuse, List.map_reverse, ← h []]
    rfl
  induction ts with
  | nil => exact fun _ => rfl
  | cons t ts ih =>
    intro done
    rw [List.map_cons, List.foldl_cons, List.foldl_cons, push_behind, ih]

/-! ### Fusing with a token in front -/

/-- Only the last token so far is looked at. -/
theorem push_append (hws : ws ≠ []) (done : List Lexeme) (l : Lexeme) :
    push (ws ++ done) l = push ws l ++ done ∧ push ws l ≠ [] := by
  cases ws with
  | nil => exact absurd rfl hws
  | cons last before =>
    simp only [List.cons_append, push]
    cases fuse? last l <;> exact ⟨rfl, List.cons_ne_nil _ _⟩

theorem foldl_push_append (hws : ws ≠ []) (ts done : List Lexeme) :
    ts.foldl push (ws ++ done) = ts.foldl push ws ++ done := by
  induction ts generalizing ws with
  | nil => rfl
  | cons t ts ih =>
    obtain ⟨happend, hne⟩ := push_append hws done t
    rw [List.foldl_cons, List.foldl_cons, happend, ih hne]

/-- A token in front of others that it does not fuse with. -/
theorem fuse_cons {a : Lexeme}
    (h : a.token = .keyword .NOT → ∀ b ∈ ts.head?, b.token.fuses = false) :
    fuse (a :: ts) = a :: fuse ts := by
  cases ts with
  | nil => rfl
  | cons b ts =>
    have hpush : push [a] b = [b] ++ [a] :=
      push_eq_cons fun ha => h (eq_of_beq ha) b rfl
    rw [fuse, List.foldl_cons, List.foldl_cons]
    change (ts.foldl push (push [a] b)).reverse = _
    rw [hpush, foldl_push_append (List.cons_ne_nil _ _), List.reverse_append]
    rfl

/-- A `NOT` in front of a word that it fuses with. -/
theorem fuse_pair {a b : Lexeme} {n : Negatable} (ha : a.token = .keyword .NOT)
    (hb : b.token = .keyword n.keyword) :
    fuse (a :: b :: ts) = ⟨.negated n, a.start, b.stop⟩ :: fuse ts := by
  have hfuse : fuse (a :: b :: ts) = fuse (⟨.negated n, a.start, b.stop⟩ :: ts) := by
    simp only [fuse, List.foldl_cons]
    rw [show push [] a = [a] from rfl, push_pair ha hb]
    rfl
  rw [hfuse, fuse_cons fun h => by cases h]

theorem tokenize_of_scans {text : String} (h : Scans (ofString text) ts) :
    tokenize text = .ok (fuse ts) :=
  tokensWithin_of_scans h (Nat.lt_succ_self _)

end Source

end RecordQuery
