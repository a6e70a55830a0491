import RecordQuery.Proofs.Grammar.Cursor

/-! # What can follow an expression

An expression of a tier ends where the next token continues it at no tighter tier (`Follows`), and
its reader stops there if that token continues it at the tier itself neither (`Closes`). Each token
continues expressions at one tier at most (`Token.tier?`); for `IN` the token behind it decides
which. -/

namespace RecordQuery

theorem Tier.rank_tighter {t : Tier} (h : t ≠ .primary) : t.tighter.rank = t.rank + 1 := by
  cases t <;> first | rfl | exact absurd rfl h

theorem Tier.rank_le_tighter (t : Tier) : t.rank ≤ t.tighter.rank := by
  cases t <;> decide

theorem Tier.rank_le (t : Tier) : t.rank ≤ 12 := by
  cases t <;> decide

/-- The tier at which a token continues an expression, given whether a parenthesis follows it. -/
def Token.tier? (parenthesis : Bool) : Token → Option Tier
  | .keyword .OR => some .or
  | .keyword .AND => some .and
  | .keyword .IN | .negated .membership => some (if parenthesis then .membership else .comparison)
  | .keyword .BETWEEN | .negated .between => some .between
  | .keyword .IS | .keyword .LIKE | .keyword .REGEXP => some .comparison
  | .negated .like | .negated .regexp => some .comparison
  | .symbol .equal | .symbol .doubleEqual => some .comparison
  | .symbol .notEqual | .symbol .lessGreater => some .comparison
  | .symbol .less | .symbol .lessEqual => some .relational
  | .symbol .greater | .symbol .greaterEqual => some .relational
  | .symbol .shiftLeft | .symbol .shiftRight => some .bitwise
  | .symbol .ampersand | .symbol .pipe => some .bitwise
  | .symbol .plus | .symbol .minus => some .additive
  | .symbol .star | .symbol .slash | .symbol .percent => some .multiplicative
  | .symbol .concat => some .concat
  | .keyword .ISNULL | .keyword .NOTNULL | .negated .null => some .nullTest
  | _ => none

/-- Whether a token can neither continue an expression nor make a call or a qualified name of it. -/
def Token.stops (k : Token) : Bool :=
  (k.tier? true).isNone && (k.tier? false).isNone && k != .symbol .leftParen && k != .symbol .dot

theorem Token.stops_of_name {k : Token} {n : String} (h : k.name? = some n) : k.stops = true := by
  unfold name? at h
  split at h
  · rfl
  · rfl
  · cases h

namespace Grammar

open Parse Cursor

variable {t u : Tier} {c : Cursor}

theorem ofToken?_eq_none {k : Token} {b : Bool} (h : k.tier? b ≠ some t) :
    BinaryOp.ofToken? t k = none := by
  unfold BinaryOp.ofToken?
  split <;> first | rfl | exact absurd rfl h

theorem trailing?_eq_none {k : Token} {b : Bool} (h : k.tier? b ≠ some .nullTest) :
    UnaryOp.trailing? k = none := by
  unfold UnaryOp.trailing?
  split <;> first | rfl | exact absurd rfl h

/-- A token makes a step at no other tier than its own. -/
theorem step?_eq_none (h : c.token.tier? (c.peek = .symbol .leftParen) ≠ some t) :
    step? t c = none := by
  unfold step?
  dsimp only
  split
  case h_8 => rw [trailing?_eq_none h]; rfl
  case h_9 => rw [ofToken?_eq_none h]; rfl
  all_goals
    next hk =>
    rw [hk] at h
    simp only [Token.tier?] at h
    grind

/-- Nothing behind an expression continues it at a tighter tier than its own. -/
structure Follows (t : Tier) (c : Cursor) : Prop where
  paren : c.token ≠ .symbol .leftParen
  dot : c.token ≠ .symbol .dot
  step : ∀ u : Tier, t.rank < u.rank → step? u c = none

/-- Nothing behind an expression continues it at its own tier or a tighter one. -/
structure Closes (t : Tier) (c : Cursor) : Prop extends Follows t c where
  own : step? t c = none

theorem Follows.tighter (h : Follows t c) : Follows t.tighter c where
  paren := h.paren
  dot := h.dot
  step u hu := h.step u (Nat.lt_of_le_of_lt t.rank_le_tighter hu)

theorem Follows.closes (h : Follows t c) (ht : t ≠ .primary) : Closes t.tighter c where
  toFollows := h.tighter
  own := h.step _ (by rw [Tier.rank_tighter ht]; omega)

theorem follows_of_tier? (hp : c.token ≠ .symbol .leftParen) (hd : c.token ≠ .symbol .dot)
    (h : ∀ u, c.token.tier? (c.peek = .symbol .leftParen) = some u → u.rank ≤ t.rank) :
    Follows t c where
  paren := hp
  dot := hd
  step u hu := step?_eq_none fun hk => absurd (h u hk) (by omega)

/-- A token that stops an expression stops it at every tier. -/
theorem closes_of_stops (h : c.token.stops = true) : Closes t c := by
  unfold Token.stops at h
  simp only [Bool.and_eq_true, Option.isNone_iff_eq_none, bne_iff_ne] at h
  obtain ⟨⟨⟨h1, h2⟩, hp⟩, hd⟩ := h
  have hk : ∀ b : Bool, c.token.tier? b = none := by
    intro b
    cases b
    · exact h2
    · exact h1
  refine ⟨follows_of_tier? hp hd fun u hu => ?_, step?_eq_none ?_⟩
  · rw [hk] at hu; cases hu
  · rw [hk]; nofun

/-! ### The tokens of operators -/

theorem step?_operator {op : BinaryOp} (h : op.token? = some c.token)
    (hp : op = .membership ∨ op = .notMembership → c.peek ≠ .symbol .leftParen) :
    step? op.tier c = some (.binary op) := by
  unfold step?
  cases op <;> simp only [BinaryOp.token?, Option.some.injEq, reduceCtorEq] at h <;>
    simp_all [BinaryOp.tier, BinaryOp.ofToken?, ← h]

theorem follows_operator {op : BinaryOp} (h : op.token? = some c.token)
    (hp : op = .membership ∨ op = .notMembership → c.peek ≠ .symbol .leftParen) :
    Follows op.tier c := by
  have hk : c.token.tier? (c.peek = .symbol .leftParen) = some op.tier := by
    cases op <;> simp only [BinaryOp.token?, Option.some.injEq, reduceCtorEq] at h <;>
      simp_all [Token.tier?, BinaryOp.tier, ← h]
  refine follows_of_tier? ?_ ?_ fun u hu => ?_
  · rintro hc; rw [hc] at hk; cases hk
  · rintro hc; rw [hc] at hk; cases hk
  · rw [hk] at hu; cases hu; exact Nat.le_refl _

theorem follows_is (h : c.token = .keyword .IS) : Follows .comparison c :=
  follows_of_tier? (by rw [h]; decide) (by rw [h]; decide) fun u hu => by
    rw [h] at hu; cases hu; exact Nat.le_refl _

theorem follows_trailing {op : UnaryOp} (h : UnaryOp.trailing? c.token = some op) :
    Follows .nullTest c := by
  unfold UnaryOp.trailing? at h
  split at h
  case h_4 => cases h
  all_goals
    next hk =>
    exact follows_of_tier? (by rw [hk]; decide) (by rw [hk]; decide) fun u hu => by
      rw [hk] at hu; cases hu; exact Nat.le_refl _

theorem follows_range {negated : Bool} (h : c.token = rangeToken negated) :
    Follows .between c := by
  unfold rangeToken at h
  split at h <;>
    exact follows_of_tier? (by rw [h]; decide) (by rw [h]; decide) fun u hu => by
      rw [h] at hu; cases hu; exact Nat.le_refl _

theorem follows_list {negated : Bool} (h : c.token = listToken negated)
    (hp : c.peek = .symbol .leftParen) : Follows .membership c := by
  unfold listToken at h
  split at h <;>
    exact follows_of_tier? (by rw [h]; decide) (by rw [h]; decide) fun u hu => by
      rw [h, hp] at hu; cases hu; exact Nat.le_refl _

/-- `AND` behind a bound of `BETWEEN`. -/
theorem closes_and (h : c.token = .keyword .AND) : Closes .comparison c := by
  refine ⟨follows_of_tier? (by rw [h]; decide) (by rw [h]; decide) fun u hu => ?_,
    step?_eq_none ?_⟩
  · rw [h] at hu; cases hu; decide
  · rw [h]; nofun

end Grammar

end RecordQuery
