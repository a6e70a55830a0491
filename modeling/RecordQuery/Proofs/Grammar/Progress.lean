import RecordQuery.Proofs.Grammar.Descents
import RecordQuery.Proofs.Grammar.IsNot

/-! # The progress of readers

A parser can be asked for a query, for an expression, or for an expression up to the end of the
input (`Request`), and asked again where the request before has stopped, also if that has failed.
Wherever it stands by then, it gets on (`getsOn_after`): it never moves back or past the end of the
input, what it reads has a token at least, and its descents are fewer than a multiple of the tokens
left.

* `Request.descents`: the descents of a request, counted by the readers of `Descents`.
* `Boundless`: no bound of the readers is ever met, on nested calls or on steps. So the readers
  satisfy the equations of the grammar without a bound (`unfolds`), and a request ends for that
  reason and not because a bound stops it.
* `served`: what becomes of one request. The run of requests is by induction from there, since each
  leaves the parser at a place of the same tokens. -/

namespace RecordQuery

/-! ### Places in a list of tokens -/

namespace Cursor

variable {c : Cursor} {i : Nat} {ls ms : List Lexeme}

/-- A cursor that stands at a place of a list of tokens. -/
def StandsAt (ls : List Lexeme) (i : Nat) (c : Cursor) : Prop := ls.drop i = c.current :: c.later

theorem StandsAt.lt (h : c.StandsAt ls i) : i < ls.length := by
  by_contra hi
  have hnil : ls.drop i = [] := List.drop_eq_nil_of_le (Nat.le_of_not_lt hi)
  cases h.symm.trans hnil

theorem StandsAt.behind (h : (c.prepend ms).StandsAt ls i) : c.StandsAt ls (i + ms.length) := by
  unfold StandsAt at h ⊢
  rw [← List.drop_drop, h, lexemes_prepend, List.drop_left]

theorem StandsAt.ended (h : c.StandsAt ls i)
    (hls : ls.getLast?.map Lexeme.token = some .endOfInput) : c.Ended := by
  unfold Ended
  rw [← h, List.getLast?_drop, if_neg (Nat.not_le_of_lt h.lt), hls]

end Cursor

namespace Parse

open Cursor

variable {α : Type} {c d : Cursor} {i j k m n r : Nat} {t : Tier} {ls : List Lexeme}

/-! ### Readers without a bound -/

/-- The reader of expressions that counts its descents. -/
def countedExpression (i : Nat) : Parse Expr := do
  countedWithin i select (depth (← get)) .or

theorem depth_eq (c : Cursor) : depth c = 13 * c.size + 13 := rfl

@[simp] theorem depth_shift : depth (c.shift k) = depth c := by
  unfold depth
  rw [length_shift]

theorem run_ofTier : (ofTier t).run c = (tierWithin select (depth c) t).run c := by
  unfold ofTier
  rw [run_get_bind]

theorem expression_eq_ofTier : expression = ofTier .or := by
  unfold expression ofTier
  rfl

/-- **Any bound that suffices** reads what the bound for the tokens left does. -/
theorem tracks_ofTier (hc : c.Ended) (hm : depth c ≤ m + t.rank) :
    Tracks i (t.rank + 1) k c (countedWithin i select m t) (ofTier t) := by
  rw [depth_eq] at hm
  have hn : 13 * c.size + 13 ≤ depth c + t.rank := by
    rw [depth_eq]
    exact Nat.le_add_right _ _
  obtain ⟨j, hspends, hrun⟩ := tracks_tierWithin (k := k) hc nestedSelect_counting hm hn
  exact ⟨j, by rw [run_ofTier]; exact hspends, by rw [run_ofTier]; exact hrun⟩

theorem tracks_expression (hc : c.Ended) :
    Tracks i 1 k c (countedExpression i) expression := by
  have hm : depth c ≤ depth c + Tier.or.rank := Nat.le_add_right _ _
  obtain ⟨j, hspends, hrun⟩ := tracks_ofTier (k := k) hc hm
  rw [expression_eq_ofTier]
  refine ⟨j, hspends.mono (Nat.le_add_left 1 _), ?_⟩
  unfold countedExpression
  rw [run_get_bind, depth_shift]
  exact hrun

/-- The reader of a tier beside itself. -/
theorem tracks_ofTier_self (hc : c.Ended) :
    Tracks 0 (t.rank + 1) k c (ofTier t) (ofTier t) := by
  have hm : depth c ≤ depth c + t.rank := Nat.le_add_right _ _
  obtain ⟨j, hspends, hrun⟩ := tracks_ofTier (i := 0) (k := k) hc hm
  refine ⟨j, hspends, ?_⟩
  rw [countedWithin_zero] at hrun
  rw [run_ofTier, depth_shift]
  exact hrun

theorem tracks_expression_self (hc : c.Ended) : Tracks 0 1 k c expression expression := by
  rw [expression_eq_ofTier]
  exact (tracks_ofTier_self hc).mono (Nat.le_add_left 1 _)

/-- Readers side by side, nothing counted, do the same. -/
theorem Tracks.run_eq {p q : Parse α} (h : Tracks 0 r 0 c p q) : p.run c = q.run c := by
  obtain ⟨j, -, hrun⟩ := h
  rwa [shift_zero, Nat.zero_mul, shifted_zero] at hrun

theorem tierWithin_eq_ofTier (hc : c.Ended) (hn : depth c ≤ n + t.rank) :
    (tierWithin select n t).run c = (ofTier t).run c := by
  rw [← countedWithin_zero]
  exact (tracks_ofTier hc hn).run_eq

/-- **The equation of a tier**: its body, given the readers of all tiers themselves. -/
theorem unfold_ofTier (hc : c.Ended) (t : Tier) :
    (ofTier t).run c = (tierBody select ofTier t).run c := by
  -- The readers in the body have one call less than the tokens left would allow at `c`.
  have hsub {u : Tier} {d : Cursor} {k : Nat} (hd : d.Ended)
      (hdepth : depth d ≤ 13 * c.size + 12 + u.rank) :
      Tracks 0 (u.rank + 1) k d (tierWithin select (13 * c.size + 12) u) (ofTier u) := by
    rw [← countedWithin_zero]
    exact tracks_ofTier hd hdepth
  have hnested : Nested 0 c.size (tierWithin select (13 * c.size + 12)) ofTier :=
    fun u d k hd hsize => hsub hd (by rw [depth_eq]; omega)
  have htighter (ht : t ≠ .primary) : Tracks 0 (t.rank + 2) 0 c
      (tierWithin select (13 * c.size + 12) t.tighter) (ofTier t.tighter) := by
    have hrank := Tier.rank_tighter ht
    have h := hsub (u := t.tighter) (k := 0) hc (by rw [depth_eq]; omega)
    rwa [hrank] at h
  have hselect : NestedSelect 0 c.size select select := by
    have h := nestedSelect_counting (i := 0) c.size
    rwa [counting_zero] at h
  rw [run_ofTier, depth_eq, tierWithin]
  exact (tracks_tierBody hc hnested htighter hselect).run_eq

/-- **No bound is met** at a cursor. Every bound on nested calls that suffices for the tokens left
gives the same as any other one, and so does every bound on steps, on items and on the parts of a
name. -/
structure Boundless (c : Cursor) : Prop where
  nested : ∀ n t, depth c ≤ n + t.rank → (tierWithin select n t).run c = (ofTier t).run c
  unfolds : ∀ t, (ofTier t).run c = (tierBody select ofTier t).run c
  steps : ∀ n t e, c.size ≤ n → (extend ofTier t n e).run c = (extend ofTier t c.size e).run c
  items : ∀ n, c.size ≤ n → (commaList expression n).run c = (separated expression).run c
  columns : ∀ n, c.size ≤ n →
    (commaList (resultColumn expression) n).run c = (separated (resultColumn expression)).run c
  terms : ∀ n, c.size ≤ n →
    (commaList (orderingTerm expression) n).run c = (separated (orderingTerm expression)).run c
  parts : ∀ n, c.size ≤ n → (furtherParts n).run c = (furtherParts c.size).run c

theorem boundless (hc : c.Ended) : Boundless c := by
  have hitem (d : Cursor) (k : Nat) (hd : d.Ended) (_ : d.size ≤ c.size) :
      Tracks 0 1 k d expression expression := tracks_expression_self hd
  have hsub : Nested 0 c.size ofTier ofTier := fun t d k hd _ => tracks_ofTier_self hd
  have hlist {α : Type} {p : Parse α} {n : Nat} (hn : c.size ≤ n)
      (hp : ∀ d k, d.Ended → d.size ≤ c.size → Tracks 0 1 k d p p) :
      (commaList p n).run c = (separated p).run c :=
    (tracks_commaList hc hn (Nat.le_refl _) hp).run_eq
  exact {
    nested := fun n t hn => tierWithin_eq_ofTier hc hn
    unfolds := unfold_ofTier hc
    steps := fun n t e hn => (tracks_extend hc hn (Nat.le_refl _) hsub).run_eq
    items := fun n hn => hlist hn hitem
    columns := fun n hn => hlist hn fun d k hd _ =>
      tracks_resultColumn hd fun e k he _ => tracks_expression_self he
    terms := fun n hn => hlist hn fun d k hd _ =>
      tracks_orderingTerm hd (tracks_expression_self hd)
    parts := fun n hn => (tracks_furtherParts hc hn (Nat.le_refl _)).run_eq }

/-! ### Requests -/

/-- What a parser can be asked for: a query, an expression, or an expression up to the end of the
input. -/
inductive Request where
  | query
  | expression
  | whole

namespace Request

/-- What is read for a request. -/
def run : Request → Parse (Statement ⊕ Expr)
  | query => Sum.inl <$> Parse.query
  | expression => Sum.inr <$> Parse.expression
  | whole => Sum.inr <$> wholeExpression

/-- What is read for a request, given the readers of statements and of expressions. -/
def reader (select : SelectReader) (expr : Parse Expr) : Request → Parse (Statement ⊕ Expr)
  | query => do
    let s ← select expr
    let _ ← eat (.symbol .semicolon)
    if (← get).token = .endOfInput then return .inl s
    unexpected .endOfStatement
  | expression => Sum.inr <$> expr
  | whole => do
    let e ← expr
    if (← get).token = .endOfInput then return .inr e
    unexpected .endOfExpression

/-- What is read for a request by readers that count their descents. -/
def counted (r : Request) : Parse (Statement ⊕ Expr) :=
  r.reader (counting 1 select) (countedExpression 1)

end Request

theorem map_unexpected {β : Type} (f : α → β) (expected : Expected) :
    f <$> (unexpected expected : Parse α) = unexpected expected := rfl

/-- Given the readers themselves, the same is read. -/
theorem Request.reader_eq_run (r : Request) : r.reader select Parse.expression = r.run := by
  have hend {α β : Type} (f : α → β) (a : α) (expected : Expected) :
      (f <$> (do
        if (← get).token = .endOfInput then return a
        unexpected expected : Parse α)) = (do
        if (← get).token = .endOfInput then return f a
        unexpected expected) := by
    rw [map_bind]
    refine bind_congr fun c => ?_
    split
    · exact map_pure f a
    · exact map_unexpected f expected
  cases r with
  | query =>
    unfold reader run Parse.query
    simp only [map_bind, hend]
  | expression => rfl
  | whole =>
    unfold reader run wholeExpression
    simp only [map_bind, hend]

theorem tracks_end {a : α} {expected : Expected} : Tracks i 0 k c (do
    if (← get).token = .endOfInput then return a
    unexpected expected) (do
    if (← get).token = .endOfInput then return a
    unexpected expected) := by
  refine tracks_get ?_
  rw [token_shift]
  split
  · exact tracks_pure a
  · exact tracks_unexpected (Nat.zero_le 14)

theorem tracks_request (hc : c.Ended) (r : Request) : Tracks 1 0 k c r.counted r.run := by
  rw [← r.reader_eq_run, Request.counted]
  cases r with
  | query =>
    have hselect : Tracks 1 0 k c (counting 1 select (countedExpression 1)) (select expression) :=
      nestedSelect_counting (c.size + 1) _ _ c k hc (Nat.lt_succ_self _)
        fun e k he _ => tracks_expression he
    refine hselect.bind hc fun s d k hd _ => ?_
    exact (tracks_eat hd (by nofun)).bind hd fun _ _ _ _ _ => tracks_end
  | expression => exact ((tracks_expression hc).map hc).weaken
  | whole =>
    exact (tracks_expression hc).weaken.bind hc fun _ _ _ _ _ => tracks_end

/-! ### Places and descents of requests -/

/-- The cursor at which a run has stopped, whether it has failed or not. -/
def left : EStateM.Result ParseError Cursor α → Cursor
  | .ok _ c => c
  | .error _ c => c

/-- The cursor behind a request. -/
def Request.behind (r : Request) (c : Cursor) : Cursor := left (r.run.run c)

/-- **The descents of a request**: by so much the counting readers have moved the end of the token
at which they stop. -/
def Request.descents (r : Request) (c : Cursor) : Nat :=
  (left (r.counted.run c)).current.stop - (r.behind c).current.stop

/-- The cursor behind requests that are made one after another. -/
def after (c : Cursor) (rs : List Request) : Cursor := rs.foldl (fun c r => r.behind c) c

theorem Request.descents_eq {q : Request} (h : q.counted.run c = shifted k (q.run.run c)) :
    q.descents c = k := by
  have hstop (x : EStateM.Result ParseError Cursor (Statement ⊕ Expr)) :
      (left (shifted k x)).current.stop = (left x).current.stop + k := by
    cases x <;> rfl
  unfold descents behind
  rw [h, hstop, Nat.add_sub_cancel_left]

/-- What a run has spent in all, on the tokens it has passed. -/
theorem Spends.left {x : EStateM.Result ParseError Cursor α} (h : Spends r c j x) :
    ∃ ls, c = (left x).prepend ls ∧ j + r ≤ 14 * (ls.length + 1) := by
  cases h with
  | @ok a d ls hls hj => exact ⟨ls, hls, by omega⟩
  | @error e d ls hls hj he => exact ⟨ls, hls, hj⟩

theorem Spends.fault {x : EStateM.Result ParseError Cursor α} {e : ParseError} (h : Spends r c j x)
    (hx : x = .error e d) : e.fault ≠ .tooDeep := by
  subst hx
  cases h with
  | error hls hj he => exact he

/-- **What becomes of a request** that is made at the place `i` and stops at the place `j`, with an
answer or with a fault of its own. -/
structure Request.Served (ls : List Lexeme) (i j : Nat) (c : Cursor) (q : Request) : Prop where
  onward : i ≤ j
  place : (q.behind c).StandsAt ls j
  bounded : q.descents c ≤ 14 * (j + 1 - i)
  counted : q.counted.run c = shifted (q.descents c) (q.run.run c)
  ends : ∀ e d, q.run.run c = .error e d → e.fault ≠ .tooDeep

theorem served (hls : ls.getLast?.map Lexeme.token = some .endOfInput) (hc : c.StandsAt ls i)
    (q : Request) : ∃ j, q.Served ls i j c := by
  obtain ⟨n, hspends, hrun⟩ := tracks_request (k := 0) (hc.ended hls) q
  rw [shift_zero, Nat.zero_add, Nat.one_mul] at hrun
  have hdescents := Request.descents_eq hrun
  obtain ⟨ms, hms, hn⟩ := hspends.left
  have hplace : (q.behind c).StandsAt ls (i + ms.length) := by
    rw [hms] at hc
    exact hc.behind
  exact ⟨i + ms.length, {
    onward := Nat.le_add_right _ _
    place := hplace
    bounded := by omega
    counted := by rw [hdescents]; exact hrun
    ends := fun e d he => hspends.fault he }⟩

/-- A name alone is read by one descent to each tier. -/
example : Request.expression.descents
    ⟨⟨.identifier "x", .start, 1⟩, [⟨.endOfInput, ⟨1, 1, 2⟩, 1⟩]⟩ = 13 := by decide +kernel

/-- A reader that moves on by a token at least, where it succeeds. -/
def MovesOn (ls : List Lexeme) (i : Nat) (c : Cursor) (p : Parse α) : Prop :=
  ∀ a d, p.run c = .ok a d → ∃ j, i < j ∧ d.StandsAt ls j

theorem Tracks.movesOn {p q : Parse α} (h : Tracks m (r + 1) k c p q) (hc : c.StandsAt ls i) :
    MovesOn ls i c q := by
  intro a d hrun
  obtain ⟨j, hspends, -⟩ := h
  rw [hrun] at hspends
  cases hspends with
  | @ok _ _ ms hms hj =>
    rw [hms] at hc
    exact ⟨i + ms.length, by omega, hc.behind⟩

/-- **A parser that gets on** at the place `i` of its tokens, in front of the end of the input or at
it. -/
structure GetsOn (ls : List Lexeme) (i : Nat) (c : Cursor) : Prop where
  place : c.StandsAt ls i
  inside : i < ls.length
  request : ∀ q : Request, ∃ j, q.Served ls i j c
  tier : ∀ t, MovesOn ls i c (ofTier t)
  column : MovesOn ls i c (resultColumn expression)
  term : MovesOn ls i c (orderingTerm expression)
  source : MovesOn ls i c fromClause
  limit : MovesOn ls i c (limitClause expression)
  boundless : Boundless c

theorem getsOn (hls : ls.getLast?.map Lexeme.token = some .endOfInput) (hc : c.StandsAt ls i) :
    GetsOn ls i c := by
  have hend := hc.ended hls
  have hexpr (d : Cursor) (k : Nat) (hd : d.Ended) (_ : d.size ≤ c.size) :
      Tracks 0 1 k d expression expression := tracks_expression_self hd
  have hlimit : Tracks 0 14 0 c (limitClause expression) (limitClause expression) :=
    tracks_limitClause hend fun d k hd _ => (tracks_expression_self hd).weaken
  exact {
    place := hc
    inside := hc.lt
    request := served hls hc
    tier := fun t => (tracks_ofTier_self (k := 0) hend).movesOn hc
    column := (tracks_resultColumn (k := 0) hend hexpr).movesOn hc
    term := (tracks_orderingTerm hend (tracks_expression_self (k := 0) hend)).movesOn hc
    source := (tracks_fromClause (i := 0) (k := 0) hend).movesOn hc
    limit := hlimit.movesOn hc
    boundless := Parse.boundless hend }

/-- **A parser always gets on.** From any place of tokens that end with the end of the input, and
behind any requests, those that failed included, it stands at that place or behind it and gets on
there. -/
theorem getsOn_after (hls : ls.getLast?.map Lexeme.token = some .endOfInput)
    (hc : c.StandsAt ls i) (rs : List Request) : ∃ j, i ≤ j ∧ GetsOn ls j (after c rs) := by
  induction rs generalizing c i with
  | nil => exact ⟨i, Nat.le_refl i, getsOn hls hc⟩
  | cons q rs ih =>
    obtain ⟨j, hserved⟩ := served hls hc q
    obtain ⟨l, hl, hgets⟩ := ih hserved.place
    exact ⟨l, hserved.onward.trans hl, hgets⟩

/-- An expression is read up to the word `SELECT`, and the statement behind it up to its end. -/
theorem getsOn_expression_query : ∃ c j, tokenize "x = 1 SELECT -y" = .ok (c.current :: c.later) ∧
    (Request.expression.behind c).token = .keyword .SELECT ∧
    (after c [.expression, .query]).token = .endOfInput ∧
    GetsOn (c.current :: c.later) j (after c [.expression, .query]) := by
  obtain ⟨c, e, d, htext, -, h⟩ := @run_of_any "x = 1 SELECT -y" _ expression
    (fun c _ _ => decide ((Request.expression.behind c).token = .keyword .SELECT ∧
      (after c [.expression, .query]).token = .endOfInput)) (by decide +kernel)
  obtain ⟨hselect, hend⟩ := of_decide_eq_true h
  have hends := (ready_of_tokenize htext).ends
  have hstart : c.StandsAt (c.current :: c.later) 0 := rfl
  obtain ⟨j, -, hgets⟩ := getsOn_after hends hstart [.expression, .query]
  exact ⟨c, j, htext, hselect, hend, hgets⟩

end Parse

end RecordQuery
