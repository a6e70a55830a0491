import RecordQuery.Proofs.Grammar.Expression
import RecordQuery.Proofs.Grammar.Soundness

/-! # Counted descents

A reader of expressions calls readers of tighter tiers, of nested expressions and of nested
statements. Each of these calls is a descent. They are counted by the readers themselves: at each
descent all tokens that are left have their ends moved by `i` (`tick`), and no reader looks at the
end of a token. So a counted reader does what the plain one does, in front of tokens with other
ends, and the ends tell how many descents it made.

`Tracks i r k c p q` compares two readers at the cursor `c`, the first one in front of tokens with
ends moved by `k`. They end alike, without a fault for want of nested calls, and the first one has
moved the ends by `i` for each of its descents. There are fourteen descents for each token that is
passed, and fourteen more where the readers fail; `r` of them are left over. A reader with `r` above
zero has passed a token where it succeeds.

There is one lemma for each reader. The readers may differ in their bounds, on nested calls and on
steps, as long as both bounds suffice for the tokens that are left (`tracks_extend`,
`tracks_tierWithin`). -/

namespace RecordQuery

/-- The same token with its end moved. -/
def Lexeme.shift (k : Nat) (l : Lexeme) : Lexeme := ⟨l.token, l.start, l.stop + k⟩

namespace Cursor

variable {c d : Cursor} {l : Lexeme} {ls : List Lexeme} {j k : Nat}

/-- The cursor in front of the same tokens with their ends moved. -/
def shift (k : Nat) (c : Cursor) : Cursor := ⟨c.current.shift k, c.later.map (Lexeme.shift k)⟩

@[simp] theorem token_shift : (c.shift k).token = c.token := rfl

@[simp] theorem start_shift : (c.shift k).current.start = c.current.start := rfl

@[simp] theorem length_shift : (c.shift k).later.length = c.later.length := List.length_map _

@[simp] theorem peek_shift : (c.shift k).peek = c.peek := by
  obtain ⟨l, later⟩ := c
  cases later <;> rfl

@[simp] theorem advance_shift : (c.shift k).advance = c.advance.shift k := by
  obtain ⟨l, later⟩ := c
  cases later <;> rfl

theorem map_token_shift (ls : List Lexeme) :
    (ls.map (Lexeme.shift k)).map Lexeme.token = ls.map Lexeme.token := List.map_map

@[simp] theorem third_shift :
    (c.shift k).later[1]?.map Lexeme.token = c.later[1]?.map Lexeme.token := by
  rw [← List.getElem?_map, ← List.getElem?_map]
  exact congrArg (·[1]?) (map_token_shift c.later)

@[simp] theorem upTo_shift : (c.shift k).upTo (d.shift j) = c.upTo d := by
  unfold upTo
  rw [length_shift, length_shift, List.map_take, List.map_take]
  exact congrArg (List.take _) (map_token_shift (c.current :: c.later))

theorem shift_shift : (c.shift k).shift j = c.shift (k + j) := by
  have hlexeme (l : Lexeme) : (l.shift k).shift j = l.shift (k + j) := by
    rw [Lexeme.shift, Lexeme.shift, Lexeme.shift, Nat.add_assoc]
  unfold shift
  rw [hlexeme, List.map_map]
  exact congrArg _ (List.map_congr_left fun l _ => hlexeme l)

@[simp] theorem shift_zero : c.shift 0 = c := congrArg _ (List.map_id _)

theorem Ended.token_of_size (h : c.Ended) (hsize : c.size = 0) : c.token = .endOfInput := by
  by_contra hc
  obtain ⟨l, d, rfl⟩ := h.split hc
  cases hsize

theorem peek_advance {t : Token} (h : c.later[1]?.map Lexeme.token = some t) :
    c.advance.peek = t := by
  obtain ⟨l, later⟩ := c
  match later, h with
  | _ :: _ :: _, h => exact Option.some.inj h

end Cursor

namespace Parse

open Cursor Grammar

/-! ### Counted readers -/

/-- Counts a descent: the ends of all tokens that are left are moved. -/
def tick (i : Nat) : Parse Unit := modify (Cursor.shift i)

/-- A reader of statements that counts itself. -/
def counting (i : Nat) (select : SelectReader) : SelectReader := fun expr => do
  tick i
  select expr

/-- **The reader of a tier that counts its descents**, its own included. -/
def countedWithin (i : Nat) (select : SelectReader) : Nat → Tier → Parse Expr
  | 0, _ => do fail .tooDeep (← get).current.start
  | n + 1, t => do
    tick i
    tierBody (counting i select) (countedWithin i select n) t

/-- What is left behind a run, with the ends of the tokens moved. -/
def shifted {α : Type} (k : Nat) :
    EStateM.Result ParseError Cursor α → EStateM.Result ParseError Cursor α
  | .ok a c => .ok a (c.shift k)
  | .error e c => .error e (c.shift k)

theorem tick_zero {α : Type} (p : Parse α) : (tick 0 >>= fun _ => p) = p := by
  funext c
  change p (c.shift 0) = p c
  rw [shift_zero]

theorem counting_zero (select : SelectReader) : counting 0 select = select :=
  funext fun expr => tick_zero (select expr)

/-- Where nothing is counted, the reader is the plain one. -/
theorem countedWithin_zero (select : SelectReader) (n : Nat) (t : Tier) :
    countedWithin 0 select n t = tierWithin select n t := by
  induction n generalizing t with
  | zero => rfl
  | succ n ih =>
    rw [countedWithin, tick_zero, counting_zero, funext ih]
    rfl

theorem shifted_zero {α : Type} (x : EStateM.Result ParseError Cursor α) : shifted 0 x = x := by
  cases x <;> simp only [shifted, shift_zero]

/-! ### Runs side by side -/

section Tracking

variable {α β : Type} {c d : Cursor} {i r j k m n : Nat}

/-- **What a run spends** on `j` descents, and on `r` more: fourteen are earned with each token that
is passed, and fourteen with a fault that is not the end of a bound. -/
inductive Spends (r : Nat) (c : Cursor) (j : Nat) : EStateM.Result ParseError Cursor α → Prop
  | ok {a : α} {d : Cursor} {ls : List Lexeme} (hc : c = d.prepend ls)
      (hj : j + r ≤ 14 * ls.length) : Spends r c j (.ok a d)
  | error {e : ParseError} {d : Cursor} {ls : List Lexeme} (hc : c = d.prepend ls)
      (hj : j + r ≤ 14 * (ls.length + 1)) (he : e.fault ≠ .tooDeep) : Spends r c j (.error e d)

/-- **Two readers that end alike**, the first one in front of tokens with moved ends, which it moves
further by `i` for each of its descents. -/
def Tracks (i r k : Nat) (c : Cursor) (p q : Parse α) : Prop :=
  ∃ j, Spends r c j (q.run c) ∧ p.run (c.shift k) = shifted (k + i * j) (q.run c)

theorem run_bind_error {p : Parse α} {f : α → Parse β} {e : ParseError} (h : p.run c = .error e d) :
    (p >>= f).run c = .error e d := by
  change EStateM.bind p f c = _
  unfold EStateM.bind
  rw [show p c = .error e d from h]

theorem Spends.mono {r' : Nat} {x : EStateM.Result ParseError Cursor α} (h : Spends r c j x)
    (hr : r' ≤ r) : Spends r' c j x := by
  cases h with
  | ok hc hj => exact .ok hc (by omega)
  | error hc hj he => exact .error hc (by omega) he

/-- What a run spends behind tokens that were passed. -/
theorem Spends.behind {j' : Nat} {ls : List Lexeme} {x : EStateM.Result ParseError Cursor α}
    (h : Spends 0 d j' x) (hc : c = d.prepend ls) (hj : j + r ≤ 14 * ls.length) :
    Spends r c (j + j') x := by
  subst hc
  cases h with
  | @ok a d ms hd hj' =>
    subst hd
    exact .ok (prepend_append ls ms d).symm (by rw [List.length_append]; omega)
  | @error e d ms hd hj' he =>
    subst hd
    exact .error (prepend_append ls ms d).symm (by rw [List.length_append]; omega) he

/-- What a run spends behind one token that was passed. -/
theorem Spends.push {l : Lexeme} {x : EStateM.Result ParseError Cursor α} (h : Spends 0 d j x)
    (hr : r ≤ 14) : Spends r (d.push l) j x := by
  have hbehind : Spends r (d.prepend [l]) (0 + j) x :=
    h.behind rfl (by rw [List.length_singleton]; omega)
  rwa [Nat.zero_add] at hbehind

namespace Tracks

theorem mono {r' : Nat} {p q : Parse α} (h : Tracks i r k c p q) (hr : r' ≤ r) :
    Tracks i r' k c p q := by
  obtain ⟨j, hspends, hrun⟩ := h
  exact ⟨j, hspends.mono hr, hrun⟩

theorem weaken {p q : Parse α} (h : Tracks i r k c p q) : Tracks i 0 k c p q :=
  h.mono (Nat.zero_le r)

/-- **Readers one after another.** The second ones start behind the tokens that the first ones have
passed. -/
theorem bind {p q : Parse α} {f g : α → Parse β} (h : Tracks i r k c p q) (hc : c.Ended)
    (hf : ∀ a d k, d.Ended → 14 * d.size + r ≤ 14 * c.size → Tracks i 0 k d (f a) (g a)) :
    Tracks i r k c (p >>= f) (q >>= g) := by
  obtain ⟨j, hspends, hrun⟩ := h
  cases hq : q.run c with
  | ok a d =>
    rw [hq] at hspends hrun
    cases hspends with
    | @ok _ _ ls hls hj =>
      subst hls
      have hsize : (d.prepend ls).size = ls.length + d.size := size_prepend ls d
      obtain ⟨j', hspends', hrun'⟩ := hf a d (k + i * j) hc.behind (by omega)
      refine ⟨j + j', ?_, ?_⟩
      · rw [run_bind hq]
        exact hspends'.behind rfl hj
      · rw [run_bind hq, run_bind hrun, hrun', Nat.mul_add, Nat.add_assoc]
  | error e d =>
    rw [hq] at hspends hrun
    refine ⟨j, ?_, ?_⟩
    · rw [run_bind_error hq]
      cases hspends with
      | error hls hj he => exact .error hls hj he
    · rw [run_bind_error hq, run_bind_error hrun]
      rfl

end Tracks

/-- Readers that give a value and pass nothing. -/
theorem tracks_of_run {p q : Parse α} {a : α} (hp : p.run (c.shift k) = .ok a (c.shift k))
    (hq : q.run c = .ok a c) : Tracks i 0 k c p q := by
  refine ⟨0, ?_, ?_⟩
  · rw [hq]
    exact .ok (prepend_nil c).symm (Nat.le_refl 0)
  · rw [hq, hp]
    rfl

theorem tracks_pure (a : α) : Tracks i 0 k c (pure a : Parse α) (pure a) := tracks_of_run rfl rfl

/-- Readers at the end of which a value is given. -/
theorem Tracks.bind_pure {p q : Parse α} {f : α → β} (h : Tracks i r k c p q) (hc : c.Ended) :
    Tracks i r k c (p >>= fun a => pure (f a)) (q >>= fun a => pure (f a)) :=
  h.bind hc fun a _ _ _ _ => tracks_pure (f a)

theorem Tracks.map {p q : Parse α} {f : α → β} (h : Tracks i r k c p q) (hc : c.Ended) :
    Tracks i r k c (f <$> p) (f <$> q) := by
  rw [map_eq_pure_bind, map_eq_pure_bind]
  exact h.bind_pure hc

theorem tracks_fail {fault : ParseFault} {place : Position} (hf : fault ≠ .tooDeep) (hr : r ≤ 14) :
    Tracks i r k c (fail fault place : Parse α) (fail fault place) := by
  refine ⟨0, .error (prepend_nil c).symm ?_ hf, rfl⟩
  rw [List.length_nil]
  omega

/-- Behind a fault nothing is read. -/
theorem tracks_fail_bind {fault : ParseFault} {place : Position} {f g : β → Parse α}
    (hf : fault ≠ .tooDeep) : Tracks i 0 k c (fail fault place >>= f) (fail fault place >>= g) :=
  ⟨0, .error (prepend_nil c).symm (Nat.zero_le _) hf, rfl⟩

theorem tracks_get {f g : Cursor → Parse α} (h : Tracks i r k c (f (c.shift k)) (g c)) :
    Tracks i r k c (get >>= f) (get >>= g) := h

/-- A descent that is counted. -/
theorem tracks_tick {p q : Parse α} (h : Tracks i (r + 1) (k + i) c p q) :
    Tracks i r k c (tick i >>= fun _ => p) q := by
  obtain ⟨j, hspends, hrun⟩ := h
  refine ⟨j + 1, ?_, ?_⟩
  · cases hq : q.run c with
    | ok a d =>
      rw [hq] at hspends
      cases hspends with
      | ok hls hj => exact .ok hls (by omega)
    | error e d =>
      rw [hq] at hspends
      cases hspends with
      | error hls hj he => exact .error hls (by omega) he
  · change p.run ((c.shift k).shift i) = _
    rw [shift_shift, hrun, Nat.mul_add, Nat.mul_one, Nat.add_assoc, Nat.add_comm i]

/-! ### Single tokens -/

/-- A token is passed, unless it is the end of the input. -/
theorem tracks_advance {f g : Unit → Parse α} (hc : c.Ended) (ht : c.token ≠ .endOfInput)
    (h : c.advance.Ended → c.advance.size < c.size → Tracks i 0 k c.advance (f ()) (g ())) :
    Tracks i 14 k c (advance >>= f) (advance >>= g) := by
  obtain ⟨l, d, rfl⟩ := hc.split ht
  obtain ⟨j, hspends, hrun⟩ := h hc.tail (Nat.lt_succ_self d.size)
  refine ⟨j, hspends.push (Nat.le_refl 14), ?_⟩
  rw [run_advance_bind, run_advance_bind, advance_shift]
  exact hrun

theorem tracks_eat (hc : c.Ended) {t : Token} (ht : t ≠ .endOfInput) :
    Tracks i 0 k c (eat t) (eat t) := by
  refine tracks_get ?_
  rw [token_shift]
  split
  · next heq =>
    exact (tracks_advance hc (by rw [heq]; exact ht) fun _ _ => tracks_pure true).weaken
  · exact tracks_pure false

/-- A branch on whether a token comes next. -/
theorem tracks_eat_bind {t : Token} {p p' q q' : Parse α} (hc : c.Ended) (ht : t ≠ .endOfInput)
    (hr : r ≤ 14) (hp : ∀ d k, d.Ended → d.size < c.size → Tracks i 0 k d p p')
    (hq : Tracks i r k c q q') :
    Tracks i r k c (eat t >>= fun found => if found = true then p else q)
      (eat t >>= fun found => if found = true then p' else q') := by
  by_cases heq : c.token = t
  · obtain ⟨l, d, rfl⟩ := hc.split (by rw [heq]; exact ht)
    have hl : (push l d).shift k = push (l.shift k) (d.shift k) := rfl
    obtain ⟨j, hspends, hrun⟩ := hp d k hc.tail (Nat.lt_succ_self d.size)
    refine ⟨j, ?_, ?_⟩
    · rw [run_bind_true (run_eat (l := l) heq)]
      exact hspends.push hr
    · rw [hl, run_bind_true (run_eat (l := l) heq), run_bind_true (run_eat (l := l.shift k) heq)]
      exact hrun
  · obtain ⟨j, hspends, hrun⟩ := hq
    refine ⟨j, ?_, ?_⟩
    · rwa [run_bind_false (run_eat_ne heq)]
    · rw [run_bind_false (run_eat_ne heq), run_bind_false (run_eat_ne (c := c.shift k) heq)]
      exact hrun

theorem tracks_unexpected {expected : Expected} (hr : r ≤ 14) :
    Tracks i r k c (unexpected expected : Parse α) (unexpected expected) :=
  tracks_get (tracks_fail (by nofun) hr)

/-- A token that is wanted is passed, or there is a fault. -/
theorem tracks_expect (hc : c.Ended) (s : Symbol) : Tracks i 14 k c (expect s) (expect s) :=
  tracks_eat_bind hc nofun (Nat.le_refl 14) (fun _ _ _ _ => tracks_pure ())
    (tracks_unexpected (Nat.le_refl 14))

theorem tracks_expectKeyword (hc : c.Ended) (w : Keyword) :
    Tracks i 14 k c (expectKeyword w) (expectKeyword w) :=
  tracks_eat_bind hc nofun (Nat.le_refl 14) (fun _ _ _ _ => tracks_pure ())
    (tracks_unexpected (Nat.le_refl 14))

theorem tracks_name (hc : c.Ended) (role : NameRole) :
    Tracks i 14 k c (name role) (name role) := by
  refine tracks_get ?_
  rw [token_shift]
  split
  · next heq => exact tracks_advance hc (by rw [heq]; nofun) fun _ _ => tracks_pure _
  · next heq => exact tracks_advance hc (by rw [heq]; nofun) fun _ _ => tracks_pure _
  · exact tracks_fail (by nofun) (Nat.le_refl 14)
  · exact tracks_unexpected (Nat.le_refl 14)

/-- A name that comes next is passed. -/
theorem tracks_name_bind {role : NameRole} {f g : String → Parse α} (hc : c.Ended)
    (hname : c.token.name?.isSome = true)
    (h : ∀ s, c.advance.Ended → c.advance.size < c.size → Tracks i 0 k c.advance (f s) (g s)) :
    Tracks i 14 k c (name role >>= f) (name role >>= g) := by
  obtain ⟨s, hs⟩ := Option.isSome_iff_exists.mp hname
  obtain ⟨l, d, rfl⟩ := hc.split fun hend => by rw [hend] at hs; cases hs
  obtain ⟨j, hspends, hrun⟩ := h s hc.tail (Nat.lt_succ_self d.size)
  have hl : (push l d).shift k = push (l.shift k) (d.shift k) := rfl
  refine ⟨j, ?_, ?_⟩
  · rw [run_bind (run_name (l := l) hs)]
    exact hspends.push (Nat.le_refl 14)
  · rw [hl, run_bind (run_name (l := l) hs), run_bind (run_name (l := l.shift k) hs)]
    exact hrun

theorem tracks_label? (hc : c.Ended) (role : NameRole) :
    Tracks i 0 k c (label? role) (label? role) := by
  refine tracks_eat_bind hc nofun (Nat.zero_le 14) (fun d k hd _ => ?_) (tracks_get ?_)
  · exact (tracks_name hd role).weaken.bind_pure hd
  · rw [token_shift]
    split
    · exact (tracks_name hc role).weaken.bind_pure hc
    · exact tracks_pure none

/-! ### Lists and clauses -/

/-- **A list of items**, within any bounds that suffice for the tokens that are left. The first of
these items passes a token, so that fewer are left for the others. -/
theorem tracks_commaList {p q : Parse α} (hc : c.Ended) (hm : c.size ≤ m) (hn : c.size ≤ n)
    (h : ∀ d k, d.Ended → d.size ≤ c.size → Tracks i 1 k d p q) :
    Tracks i 1 k c (commaList p m) (commaList q n) := by
  induction m generalizing n c k with
  | zero =>
    have hitem := h c k hc (Nat.le_refl _)
    cases n with
    | zero => exact hitem.bind_pure hc
    | succ n => exact hitem.bind hc fun _ d _ _ hsize => absurd hsize (by omega)
  | succ m ih =>
    have hitem := h c k hc (Nat.le_refl _)
    cases n with
    | zero => exact hitem.bind hc fun _ d _ _ hsize => absurd hsize (by omega)
    | succ n =>
      refine hitem.bind hc fun a d k hd hsize => ?_
      refine tracks_eat_bind hd nofun (Nat.zero_le 14) (fun d' k hd' hlt => ?_) (tracks_pure [a])
      have hrest : Tracks i 1 k d' (commaList p m) (commaList q n) :=
        ih hd' (by omega) (by omega) fun e k he hle => h e k he (by omega)
      exact hrest.weaken.bind_pure hd'

theorem tracks_separated {p q : Parse α} (hc : c.Ended)
    (h : ∀ d k, d.Ended → d.size ≤ c.size → Tracks i 1 k d p q) :
    Tracks i 1 k c (separated p) (separated q) :=
  tracks_get (tracks_commaList hc length_shift.ge (Nat.le_refl _) h)

theorem tracks_clause? {p q : Parse α} (hc : c.Ended) (w : Keyword)
    (h : ∀ d k, d.Ended → d.size < c.size → Tracks i 0 k d p q) :
    Tracks i 0 k c (clause? w p) (clause? w q) :=
  tracks_eat_bind hc nofun (Nat.zero_le 14)
    (fun d k hd hlt => (h d k hd hlt).bind_pure hd) (tracks_pure none)

end Tracking

/-! ### Expressions -/

section Expressions

variable {c : Cursor} {i k m n : Nat} {sub sub' : Tier → Parse Expr} {t : Tier} {left : Expr}
  {s : Step}

/-- Readers of nested expressions that end alike in front of fewer than `n` tokens and the end of
the input. -/
def Nested (i n : Nat) (sub sub' : Tier → Parse Expr) : Prop :=
  ∀ t d k, d.Ended → d.size < n → Tracks i (t.rank + 1) k d (sub t) (sub' t)

theorem Nested.mono (h : Nested i n sub sub') (hm : m ≤ n) : Nested i m sub sub' :=
  fun t d k hd hsize => h t d k hd (hsize.trans_le hm)

/-- A nested expression, of which no more is known than that it ends alike. -/
theorem Nested.tracks (h : Nested i n sub sub') {d : Cursor} (t : Tier) (hd : d.Ended)
    (hsize : d.size < n) : Tracks i 0 k d (sub t) (sub' t) :=
  (h t d k hd hsize).mono (Nat.zero_le _)

theorem Nested.items (h : Nested i n sub sub') {d : Cursor} (hd : d.Ended) (hsize : d.size < n) :
    Tracks i 0 k d (separated (sub .or)) (separated (sub' .or)) :=
  (tracks_separated hd fun e k he hle => h .or e k he (hle.trans_lt hsize)).weaken

theorem step?_shift : step? t (c.shift k) = step? t c := by
  unfold step?
  rw [token_shift, peek_shift]

/-- No step begins with the end of the input. -/
theorem ne_endOfInput_of_step? (h : step? t c = some s) : c.token ≠ .endOfInput := by
  intro hend
  rw [step?_eq_none (by rw [hend]; nofun)] at h
  cases h

/-- **A step** passes a token. -/
theorem tracks_takeStep (hc : c.Ended) (hs : step? t c = some s) (h : Nested i c.size sub sub') :
    Tracks i 14 k c (takeStep sub t left s) (takeStep sub' t left s) := by
  have ht := ne_endOfInput_of_step? hs
  cases s with
  | binary op =>
    refine tracks_advance hc ht fun hd hlt => tracks_get ?_
    refine (h.tracks _ hd hlt).bind hd fun right e k he _ => ?_
    rw [start_shift]
    split
    · exact tracks_fail_bind (by nofun)
    · exact tracks_pure _
  | is =>
    refine tracks_advance hc ht fun hd hlt => ?_
    refine tracks_eat_bind hd nofun (Nat.zero_le 14) (fun _ _ _ _ => tracks_pure _) ?_
    refine (tracks_eat hd (by nofun)).bind hd fun found e k he hle => ?_
    exact (h.tracks _ he (by omega)).bind_pure he
  | listed negated =>
    obtain ⟨-, -, hparen⟩ := stands_of_step? hs
    refine tracks_advance hc ht fun hd hlt => ?_
    refine (tracks_advance hd (by rw [token_advance, hparen]; nofun) fun he hle => ?_).weaken
    refine (h.items he (by omega)).bind he fun items f k hf _ => ?_
    exact (tracks_expect hf _).weaken.bind_pure hf
  | between negated =>
    refine tracks_advance hc ht fun hd hlt => ?_
    refine (h.tracks _ hd hlt).bind hd fun low e k he hle => ?_
    refine (tracks_expectKeyword he _).weaken.bind he fun _ f k hf hle' => ?_
    exact (h.tracks _ hf (by omega)).bind_pure hf
  | nullTest op => exact tracks_advance hc ht fun _ _ => tracks_pure _

/-- **Step after step**, within any bounds that suffice for the tokens that are left. -/
theorem tracks_extend (hc : c.Ended) (hm : c.size ≤ m) (hn : c.size ≤ n)
    (h : Nested i c.size sub sub') :
    Tracks i 0 k c (extend sub t m left) (extend sub' t n left) := by
  induction m generalizing n c k left with
  | zero =>
    have hstop : step? t c = none := by
      by_contra hs
      obtain ⟨s, hs⟩ := Option.ne_none_iff_exists'.mp hs
      exact ne_endOfInput_of_step? hs (hc.token_of_size (by omega))
    exact tracks_of_run rfl (run_extend_none sub' n hstop)
  | succ m ih =>
    rcases hs : step? t c with _ | s
    · exact tracks_of_run (run_extend_none sub (m + 1) (step?_shift.trans hs))
        (run_extend_none sub' n hs)
    · have ht := ne_endOfInput_of_step? hs
      obtain ⟨n, rfl⟩ : ∃ n', n = n' + 1 :=
        Nat.exists_eq_succ_of_ne_zero fun hzero => ht (hc.token_of_size (by omega))
      refine tracks_get ?_
      rw [step?_shift, hs]
      refine ((tracks_takeStep hc hs h).bind hc fun e d k hd hsize => ?_).weaken
      exact ih hd (by omega) (by omega) (h.mono (by omega))

theorem ne_endOfInput_of_leading? {op : UnaryOp} (h : UnaryOp.leading? c.token = some op) :
    c.token ≠ .endOfInput := by
  intro hend
  rw [hend] at h
  cases h

theorem tracks_signed (hc : c.Ended) (h : Nested i c.size sub sub')
    (hprimary : Tracks i 13 k c (sub .primary) (sub' .primary)) :
    Tracks i 13 k c (signed sub) (signed sub') := by
  refine tracks_get ?_
  rw [token_shift]
  split
  · next hnull =>
    refine (tracks_advance hc (by rw [hnull]; nofun) fun _ _ => ?_).mono (Nat.le_succ 13)
    exact tracks_pure _
  · split
    · next op hop =>
      refine (tracks_advance hc (ne_endOfInput_of_leading? hop) fun hd hlt => ?_).mono
        (Nat.le_succ 13)
      exact (h.tracks _ hd hlt).bind_pure hd
    · exact hprimary

theorem run_furtherParts_none (n : Nat) (h : c.token ≠ .symbol .dot) :
    (furtherParts n).run c = .ok [] c := by
  cases n with
  | zero => rfl
  | succ n =>
    unfold furtherParts
    rw [run_get_bind, if_neg h]
    rfl

/-- The parts of a name, within any bounds that suffice for the tokens that are left. -/
theorem tracks_furtherParts (hc : c.Ended) (hm : c.size ≤ m) (hn : c.size ≤ n) :
    Tracks i 0 k c (furtherParts m) (furtherParts n) := by
  induction m generalizing n c k with
  | zero =>
    have hend := hc.token_of_size (by omega)
    exact tracks_of_run rfl (run_furtherParts_none n (by rw [hend]; nofun))
  | succ m ih =>
    by_cases hdot : c.token = .symbol .dot
    · have ht : c.token ≠ .endOfInput := by rw [hdot]; nofun
      obtain ⟨n, rfl⟩ : ∃ n', n = n' + 1 :=
        Nat.exists_eq_succ_of_ne_zero fun hzero => ht (hc.token_of_size (by omega))
      have hpart : Tracks i 0 k c (do
          advance
          let part ← name .columnName
          return part :: (← furtherParts m)) (do
          advance
          let part ← name .columnName
          return part :: (← furtherParts n)) := by
        refine (tracks_advance hc ht fun hd hlt => ?_).weaken
        refine (tracks_name hd _).weaken.bind hd fun part e k he hle => ?_
        exact (ih he (by omega) (by omega)).bind_pure he
      refine tracks_get ?_
      rw [token_shift, peek_shift, if_pos hdot, if_pos hdot]
      split
      · exact tracks_fail_bind (by nofun)
      · exact hpart
    · exact tracks_of_run (run_furtherParts_none (m + 1) hdot) (run_furtherParts_none n hdot)

theorem tracks_columnRef (hc : c.Ended) : Tracks i 14 k c columnRef columnRef := by
  refine tracks_get ((tracks_name hc _).bind hc fun first d k hd _ => tracks_get ?_)
  refine (tracks_furtherParts hd length_shift.ge (Nat.le_refl _)).bind hd fun further e k _ _ => ?_
  split
  · exact tracks_pure _
  · exact tracks_pure _
  · exact tracks_pure _
  · exact tracks_fail (by nofun) (Nat.zero_le 14)

theorem tracks_call (hc : c.Ended) (h : Nested i c.size sub sub')
    (hname : c.token.name?.isSome = true) (hparen : c.peek = .symbol .leftParen) :
    Tracks i 14 k c (call sub) (call sub') := by
  refine tracks_get (tracks_name_bind hc hname fun function hd hlt => ?_)
  have ht : c.advance.token ≠ .endOfInput := by rw [token_advance, hparen]; nofun
  refine (tracks_advance hd ht fun he hle => ?_).weaken
  have hclose (args : List Expr) {f : Cursor} {k : Nat} (hf : f.Ended) : Tracks i 0 k f (do
      expect .rightParen
      return Expr.call function args c.current.start) (do
      expect .rightParen
      return Expr.call function args c.current.start) :=
    (tracks_expect hf _).weaken.bind_pure hf
  refine tracks_eat_bind he nofun (Nat.zero_le 14) (fun f k hf _ => ?_) (tracks_get ?_)
  · exact (tracks_expect hf _).weaken.bind_pure hf
  · rw [token_shift]
    split
    · exact hclose [] he
    · exact (h.items he (by omega)).bind he fun args f k hf _ => hclose args hf

/-- Readers of nested statements that end alike in front of fewer than `n` tokens and the end of the
input, if the readers of expressions that they are given do. -/
def NestedSelect (i n : Nat) (S S' : SelectReader) : Prop :=
  ∀ p q d k, d.Ended → d.size < n → (∀ e k, e.Ended → e.size ≤ d.size → Tracks i 1 k e p q) →
    Tracks i 0 k d (S p) (S' q)

theorem tracks_primary {S S' : SelectReader} (hc : c.Ended) (h : Nested i c.size sub sub')
    (hselect : NestedSelect i c.size S S') :
    Tracks i 14 k c (primary S sub) (primary S' sub') := by
  refine tracks_get ?_
  dsimp only
  rw [token_shift, peek_shift]
  split
  · next v hv =>
    exact tracks_advance hc (by rintro hend; rw [hend] at hv; cases hv) fun _ _ => tracks_pure _
  · split
    · next heq => exact tracks_advance hc (by rw [heq]; nofun) fun _ _ => tracks_pure _
    · next heq =>
      refine tracks_advance hc (by rw [heq]; nofun) fun hd hlt => ?_
      refine (h.tracks _ hd hlt).bind hd fun e f k hf _ => ?_
      exact (tracks_expect hf _).weaken.bind_pure hf
    · next heq =>
      refine tracks_advance hc (by rw [heq]; nofun) fun hd hlt => ?_
      refine (tracks_expect hd _).weaken.bind hd fun _ e k he hle => ?_
      refine (hselect _ _ e k he (by omega) fun f k hf hle' =>
        h .or f k hf (by omega)).bind he fun subquery f k hf _ => ?_
      exact (tracks_expect hf _).weaken.bind_pure hf
    · next heq =>
      split
      · next hparen => exact tracks_call hc h (by rw [heq]; rfl) hparen
      · exact tracks_columnRef hc
    · next heq =>
      split
      · next hparen => exact tracks_call hc h (by rw [heq]; rfl) hparen
      · exact tracks_columnRef hc
    · exact tracks_fail (by nofun) (Nat.le_refl 14)
    · exact tracks_unexpected (Nat.le_refl 14)

/-! ### Tiers -/

/-- **The body of a tier**, where the next tighter one ends alike in front of all tokens that are
left, and all tiers do behind the first of them. -/
theorem tracks_tierBody {S S' : SelectReader} (hc : c.Ended) (h : Nested i c.size sub sub')
    (htighter : t ≠ .primary → Tracks i (t.rank + 2) k c (sub t.tighter) (sub' t.tighter))
    (hselect : NestedSelect i c.size S S') :
    Tracks i (t.rank + 2) k c (tierBody S sub t) (tierBody S' sub' t) := by
  have hloop (ht : t ≠ .primary) : Tracks i (t.rank + 2) k c (do
      let left ← sub t.tighter
      extend sub t (← get).later.length left) (do
      let left ← sub' t.tighter
      extend sub' t (← get).later.length left) := by
    refine (htighter ht).bind hc fun left d k hd hsize => tracks_get ?_
    exact tracks_extend hd length_shift.ge (Nat.le_refl _) (h.mono (by omega))
  cases t with
  | primary => exact tracks_primary hc h hselect
  | sign => exact tracks_signed hc h (htighter nofun)
  | _ => exact hloop nofun

/-- **The reader of a tier**, counted or not, with any bounds on nested calls that suffice for the
tokens that are left: thirteen for each of them and for the end of the input. -/
theorem tracks_tierWithin {S : SelectReader} (hc : c.Ended)
    (hselect : ∀ n, NestedSelect i n (counting i S) S) (hm : 13 * c.size + 13 ≤ m + t.rank)
    (hn : 13 * c.size + 13 ≤ n + t.rank) :
    Tracks i (t.rank + 1) k c (countedWithin i S m t) (tierWithin S n t) := by
  -- A tighter tier has one call less and a rank that is higher by one; behind a token thirteen calls
  -- are given back, which is more than a nested expression of the loosest tier lacks.
  induction m generalizing n c k t with
  | zero =>
    have hrank := t.rank_le
    omega
  | succ m ih =>
    have hrank := t.rank_le
    obtain ⟨n, rfl⟩ : ∃ n', n = n' + 1 := Nat.exists_eq_succ_of_ne_zero (by omega)
    refine tracks_tick (tracks_tierBody hc (fun u d k hd hsize => ?_) (fun hp => ?_) (hselect _))
    · exact ih hd (by omega) (by omega)
    · have htighter := Tier.rank_tighter hp
      have hread := ih (t := t.tighter) (k := k + i) (n := n) hc (by omega) (by omega)
      rwa [htighter] at hread

end Expressions

/-! ### Statements -/

section Statements

variable {c : Cursor} {i k : Nat} {p q : Parse Expr}

theorem tracks_resultColumn (hc : c.Ended)
    (h : ∀ d k, d.Ended → d.size ≤ c.size → Tracks i 1 k d p q) :
    Tracks i 1 k c (resultColumn p) (resultColumn q) := by
  refine tracks_get (tracks_eat_bind hc nofun (by decide) (fun _ _ _ _ => tracks_pure _) ?_)
  rw [token_shift, peek_shift, third_shift, start_shift]
  split
  · next hstar =>
    obtain ⟨hname, hdot, hthird⟩ := hstar
    refine (tracks_name_bind hc hname fun table hd _ => ?_).mono (by decide)
    refine (tracks_advance hd (by rw [token_advance, hdot]; nofun) fun he _ => ?_).weaken
    have ht : c.advance.advance.token ≠ .endOfInput := by
      rw [token_advance, peek_advance hthird]
      nofun
    refine (tracks_advance he ht fun _ _ => ?_).weaken
    exact tracks_pure _
  · refine (h c k hc (Nat.le_refl _)).bind hc fun e d k' hd _ => tracks_get ?_
    rw [upTo_shift]
    exact (tracks_label? hd _).bind_pure hd

theorem tracks_fromClause (hc : c.Ended) : Tracks i 14 k c fromClause fromClause := by
  refine (tracks_name hc _).bind hc fun first d k hd _ => ?_
  refine tracks_eat_bind hd nofun (Nat.zero_le 14) (fun e k he _ => ?_) ?_
  · refine (tracks_name he _).weaken.bind he fun second f k hf _ => ?_
    exact (tracks_label? hf _).bind_pure hf
  · exact (tracks_label? hd _).bind_pure hd

theorem tracks_orderingTerm (hc : c.Ended) (h : Tracks i 1 k c p q) :
    Tracks i 1 k c (orderingTerm p) (orderingTerm q) := by
  refine tracks_get (h.bind hc fun e d k hd _ => ?_)
  refine tracks_eat_bind hd nofun (Nat.zero_le 14) (fun _ _ _ _ => tracks_pure _) ?_
  exact tracks_eat_bind hd nofun (Nat.zero_le 14) (fun _ _ _ _ => tracks_pure _) (tracks_pure _)

theorem tracks_limitClause (hc : c.Ended)
    (h : ∀ d k, d.Ended → d.size ≤ c.size → Tracks i 0 k d p q) :
    Tracks i 14 k c (limitClause p) (limitClause q) := by
  refine tracks_get ((tracks_expectKeyword hc _).bind hc fun _ d k hd hsize => ?_)
  refine (h d k hd (by omega)).bind hd fun first e k he hsize' => ?_
  refine tracks_eat_bind he nofun (Nat.zero_le 14) (fun f k hf hlt => ?_) ?_
  · exact (h f k hf (by omega)).bind_pure hf
  · refine tracks_eat_bind he nofun (Nat.zero_le 14) (fun f k hf hlt => ?_) (tracks_pure _)
    exact (h f k hf (by omega)).bind_pure hf

theorem tracks_selectOption (hc : c.Ended) : Tracks i 0 k c selectOption selectOption := by
  refine tracks_eat_bind hc nofun (Nat.zero_le 14) (fun _ _ _ _ => tracks_pure _) ?_
  exact tracks_eat_bind hc nofun (Nat.zero_le 14) (fun _ _ _ _ => tracks_pure _) (tracks_pure _)

theorem tracks_refuseCompound : Tracks i 0 k c refuseCompound refuseCompound := by
  refine tracks_get ?_
  rw [token_shift]
  split
  all_goals first | exact tracks_fail (by nofun) (Nat.zero_le 14) | exact tracks_pure ()

/-- **A statement** passes the word it begins with. -/
theorem tracks_select (hc : c.Ended)
    (h : ∀ d k, d.Ended → d.size ≤ c.size → Tracks i 1 k d p q) :
    Tracks i 14 k c (select p) (select q) := by
  have hnested {d : Cursor} {k : Nat} (hd : d.Ended) (hsize : d.size ≤ c.size) :
      Tracks i 0 k d p q := (h d k hd hsize).weaken
  refine (tracks_expectKeyword hc _).bind hc fun _ d k hd hsize => ?_
  refine (tracks_selectOption hd).bind hd fun option d₁ k hd₁ hsize₁ => ?_
  have hcolumns : Tracks i 1 k d₁ (separated (resultColumn p)) (separated (resultColumn q)) :=
    tracks_separated hd₁ fun e k he hle =>
      tracks_resultColumn he fun f k hf hle' => h f k hf (by omega)
  refine hcolumns.weaken.bind hd₁ fun columns d₂ k hd₂ hsize₂ => ?_
  refine (tracks_clause? hd₂ _ fun e k he _ => (tracks_fromClause he).weaken).bind hd₂
    fun source d₃ k hd₃ hsize₃ => ?_
  refine (tracks_clause? hd₃ _ fun e k he hlt => hnested he (by omega)).bind hd₃
    fun condition d₄ k hd₄ hsize₄ => tracks_get ?_
  rw [token_shift, start_shift]
  split
  · exact tracks_fail_bind (by nofun)
  refine (tracks_clause? hd₄ _ fun e k he hlt => hnested he (by omega)).bind hd₄
    fun group d₅ k hd₅ hsize₅ => ?_
  refine tracks_refuseCompound.bind hd₅ fun _ d₆ k hd₆ hsize₆ => ?_
  refine (tracks_clause? hd₆ _ fun e k he hlt => ?_).bind hd₆ fun orderBy d₇ k hd₇ hsize₇ =>
    tracks_get ?_
  · refine (tracks_expectKeyword he _).weaken.bind he fun _ f k hf hle => ?_
    exact (tracks_separated hf fun g k hg hle' =>
      tracks_orderingTerm hg (h g k hg (by omega))).weaken
  · rw [token_shift]
    split
    · have hlimit := tracks_limitClause (k := k) hd₇ fun e k he hle => hnested he (by omega)
      exact (hlimit.map hd₇).weaken.bind_pure hd₇
    · exact tracks_pure _

/-- A nested statement that counts itself. -/
theorem nestedSelect_counting (n : Nat) : NestedSelect i n (counting i select) select := by
  intro p q d k hd _ h
  have hcounted : Tracks i 13 k d (counting i select p) (select q) :=
    tracks_tick (tracks_select hd h)
  exact hcounted.weaken

end Statements

end Parse

end RecordQuery
