import RecordQuery.Proofs.Grammar.Follow

/-! # The first token of a spelling

What a tree can begin with. Expressions and lists are never empty, and clauses are empty or begin
with their word (`Spells.head`). A result column that is computed never reads like `table.*`
(`Spells.noStar`). -/

namespace RecordQuery

/-- Whether an operand without operators can begin with a token. -/
def Token.opensPrimary (k : Token) : Bool :=
  (Parse.literal? k).isSome || k.name?.isSome || k == .symbol .leftParen || k == .keyword .EXISTS ||
    match k with
    | .parameter _ => true
    | _ => false

/-- Whether an expression can begin with a token. -/
def Token.opens (k : Token) : Bool :=
  k.opensPrimary || (UnaryOp.leading? k).isSome || k == .negated .null

theorem Token.opens_of_opensPrimary {k : Token} (h : k.opensPrimary = true) : k.opens = true := by
  unfold opens; rw [h]; rfl

theorem Token.opensPrimary_of_name {k : Token} {n : String} (h : k.name? = some n) :
    k.opensPrimary = true := by
  unfold opensPrimary; rw [h]; simp

theorem Literal.literal?_token (v : Literal) : Parse.literal? v.token = some v := by
  unfold token
  split <;> rfl

namespace Grammar

open Parse

/-- Whether a spelling of a kind can begin with a token. -/
def Kind.opens : Kind → Token → Bool
  | .expr .primary, k => k.opensPrimary
  | .expr _, k => k.opens
  | .item .column, k | .list .column, k => k.opens || k == .symbol .star
  | .item _, k | .list _, k => k.opens
  | .clause w, k => k == .keyword w.word
  | .sorting, k => k == .keyword .ORDER
  | .limit, k => k == .keyword .LIMIT
  | .statement, k => k == .keyword .SELECT

/-- Whether a kind can be written out by nothing. -/
def Kind.optional : Kind → Bool
  | .clause _ | .sorting | .limit => true
  | _ => false

theorem Kind.opens_tighter {t : Tier} {k : Token} (h : (Kind.expr t.tighter).opens k = true) :
    (Kind.expr t).opens k = true := by
  cases t <;> first | exact h | exact Token.opens_of_opensPrimary h

theorem Kind.opens_expr {t : Tier} {k : Token} (h : (Kind.expr t).opens k = true) :
    k.opens = true := by
  cases t <;> first | exact h | exact Token.opens_of_opensPrimary h

theorem opens_leading {op : UnaryOp} {k : Token} (h : UnaryOp.leading? k = some op) :
    k.opens = true := by
  unfold Token.opens; rw [h]; simp

/-- **The first token.** -/
theorem Spells.head {k : Kind} {a : k.Value} {ls : List Lexeme} (h : Spells k a ls) :
    (k.optional = true ∧ ls = []) ∨ ∃ l rest, ls = l :: rest ∧ k.opens l.token = true := by
  induction h with
  | literal h =>
    refine Or.inr ⟨_, _, rfl, ?_⟩
    simp [Kind.opens, Token.opensPrimary, h, Literal.literal?_token]
  | parameter h => exact Or.inr ⟨_, _, rfl, by simp [Kind.opens, Token.opensPrimary, h]⟩
  | column h =>
    cases h with
    | bare h => exact Or.inr ⟨_, _, rfl, Token.opensPrimary_of_name h⟩
    | table h _ _ => exact Or.inr ⟨_, _, rfl, Token.opensPrimary_of_name h⟩
    | database h _ _ _ _ => exact Or.inr ⟨_, _, rfl, Token.opensPrimary_of_name h⟩
  | group ho => exact Or.inr ⟨_, _, rfl, by rw [ho]; rfl⟩
  | callStar hf => exact Or.inr ⟨_, _, rfl, Token.opensPrimary_of_name hf⟩
  | callNone hf => exact Or.inr ⟨_, _, rfl, Token.opensPrimary_of_name hf⟩
  | call hf => exact Or.inr ⟨_, _, rfl, Token.opensPrimary_of_name hf⟩
  | existsRow hx => exact Or.inr ⟨_, _, rfl, by rw [hx]; rfl⟩
  | notNull h => exact Or.inr ⟨_, _, rfl, by rw [h]; rfl⟩
  | leading ho => exact Or.inr ⟨_, _, rfl, opens_leading ho⟩
  | trailing _ _ ih | isNotNull _ _ _ ih =>
    obtain ⟨h, -⟩ | ⟨l, rest, rfl, h⟩ := ih
    · cases h
    · exact Or.inr ⟨l, _, rfl, h⟩
  | operator _ _ _ _ ih _ | is _ _ _ _ _ ih _ | isNot _ _ _ _ _ ih _ | listed _ _ _ _ _ ih _ =>
    obtain ⟨h, -⟩ | ⟨l, rest, rfl, h⟩ := ih
    · cases h
    · exact Or.inr ⟨l, _, rfl, h⟩
  | between _ _ _ _ _ ih _ _ =>
    obtain ⟨h, -⟩ | ⟨l, rest, rfl, h⟩ := ih
    · cases h
    · exact Or.inr ⟨l, _, rfl, h⟩
  | loosen _ ih =>
    obtain ⟨h, -⟩ | ⟨l, rest, rfl, h⟩ := ih
    · cases h
    · exact Or.inr ⟨l, _, rfl, Kind.opens_tighter h⟩
  | expression _ ih =>
    obtain ⟨h, -⟩ | ih := ih
    · cases h
    · exact Or.inr ih
  | star h => exact Or.inr ⟨_, _, rfl, by rw [h]; rfl⟩
  | qualifiedStar hn =>
    refine Or.inr ⟨_, _, rfl, ?_⟩
    simp [Kind.opens, Token.opens_of_opensPrimary (Token.opensPrimary_of_name hn)]
  | @computed _ l _ _ _ _ _ ih =>
    obtain ⟨h, -⟩ | ⟨_, _, he, h⟩ := ih
    · cases h
    · cases he
      have ho : l.token.opens = true := h
      exact Or.inr ⟨l, _, rfl, by simp [Kind.opens, ho]⟩
  | @term _ l _ _ _ _ _ ih =>
    obtain ⟨h, -⟩ | ⟨_, _, he, h⟩ := ih
    · cases h
    · cases he
      exact Or.inr ⟨l, _, rfl, h⟩
  | @one i _ _ _ ih =>
    obtain ⟨h, -⟩ | ⟨l, rest, rfl, h⟩ := ih
    · cases h
    · exact Or.inr ⟨l, _, rfl, by cases i <;> exact h⟩
  | @more i _ _ _ _ _ _ _ _ ih _ =>
    obtain ⟨h, -⟩ | ⟨l, rest, rfl, h⟩ := ih
    · cases h
    · exact Or.inr ⟨l, _, rfl, by cases i <;> exact h⟩
  | absent => exact Or.inl ⟨rfl, rfl⟩
  | present hw _ _ => exact Or.inr ⟨_, _, rfl, by rw [hw]; simp [Kind.opens]⟩
  | unsorted => exact Or.inl ⟨rfl, rfl⟩
  | sorted ho => exact Or.inr ⟨_, _, rfl, by rw [ho]; rfl⟩
  | unlimited => exact Or.inl ⟨rfl, rfl⟩
  | count hw => exact Or.inr ⟨_, _, rfl, by rw [hw]; rfl⟩
  | countOffset hw => exact Or.inr ⟨_, _, rfl, by rw [hw]; rfl⟩
  | offsetCount hw => exact Or.inr ⟨_, _, rfl, by rw [hw]; rfl⟩
  | statement h => exact Or.inr ⟨_, _, rfl, by rw [h]; rfl⟩

theorem Spells.ne_nil {k : Kind} {a : k.Value} {ls : List Lexeme} (h : Spells k a ls)
    (hk : k.optional = false) : ls ≠ [] := by
  obtain ⟨ho, -⟩ | ⟨l, rest, rfl, -⟩ := h.head
  · rw [hk] at ho; cases ho
  · exact List.cons_ne_nil l rest

theorem Spells.head_expr {t : Tier} {e : Expr} {ls : List Lexeme} (h : Spells (.expr t) e ls) :
    ∃ l rest, ls = l :: rest ∧ l.token.opens = true := by
  obtain ⟨ho, -⟩ | ⟨l, rest, rfl, ho⟩ := h.head
  · cases ho
  · exact ⟨l, rest, rfl, Kind.opens_expr ho⟩

theorem Spells.head_list {i : Item} {as : List i.Value} {ls : List Lexeme}
    (h : Spells (.list i) as ls) : ∃ l rest, ls = l :: rest ∧ (Kind.list i).opens l.token = true := by
  obtain ⟨ho, -⟩ | ho := h.head
  · cases ho
  · exact ho

/-! ### Computed columns are no qualified stars -/

/-- A run of tokens does not read like `table.*`. -/
def NoStar (ls : List Lexeme) : Prop :=
  ∀ l d s rest, ls = l :: d :: s :: rest → l.token.name?.isSome = true →
    d.token = .symbol .dot → s.token ≠ .symbol .star

theorem noStar_cons {l : Lexeme} {rest : List Lexeme} (h : l.token.name? = none) :
    NoStar (l :: rest) := by
  intro _ _ _ _ he hl
  cases he
  rw [h] at hl
  cases hl

theorem noStar_second {l d : Lexeme} {rest : List Lexeme} (h : d.token ≠ .symbol .dot) :
    NoStar (l :: d :: rest) := by
  intro _ _ _ _ he _ hd
  cases he
  exact absurd hd h

theorem noStar_third {l d s : Lexeme} {rest : List Lexeme} (h : s.token ≠ .symbol .star) :
    NoStar (l :: d :: s :: rest) := by
  intro _ _ _ _ he
  cases he
  exact fun _ _ => h

theorem name?_of_leading? {op : UnaryOp} {k : Token} (h : UnaryOp.leading? k = some op) :
    k.name? = none := by
  unfold UnaryOp.leading? at h
  split at h <;> first | rfl | cases h

theorem token?_ne_dot {op : BinaryOp} {k : Token} (h : op.token? = some k) : k ≠ .symbol .dot := by
  rintro rfl
  cases op <;> cases h

theorem ne_star_of_name {k : Token} {n : String} (h : k.name? = some n) : k ≠ .symbol .star := by
  rintro rfl; cases h

theorem trailing?_ne_dot {op : UnaryOp} {k : Token} (h : UnaryOp.trailing? k = some op) :
    k ≠ .symbol .dot := by
  rintro rfl; cases h

theorem Spells.noStar_append {k : Kind} {a : k.Value} {ls : List Lexeme} (h : Spells k a ls)
    {t : Tier} (hk : k = .expr t) (d : Lexeme) (rest : List Lexeme)
    (hd : d.token ≠ .symbol .dot) : NoStar (ls ++ d :: rest) := by
  induction h generalizing t d rest with
  | literal h => exact noStar_second hd
  | parameter h => exact noStar_second hd
  | column h =>
    cases h with
    | bare h => exact noStar_second hd
    | table _ _ h => exact noStar_third (ne_star_of_name h)
    | database _ _ h _ _ => exact noStar_third (ne_star_of_name h)
  | group ho => exact noStar_cons (by rw [ho]; rfl)
  | callStar _ ho => exact noStar_second (by rw [ho]; nofun)
  | callNone _ ho => exact noStar_second (by rw [ho]; nofun)
  | call _ ho => exact noStar_second (by rw [ho]; nofun)
  | existsRow hx => exact noStar_cons (by rw [hx]; rfl)
  | notNull h => exact noStar_cons (by rw [h]; rfl)
  | leading ho => exact noStar_cons (name?_of_leading? ho)
  | trailing _ ho ih =>
    rw [List.append_assoc]
    exact ih rfl _ _ (trailing?_ne_dot ho)
  | operator _ ho _ _ ih _ =>
    rw [List.append_assoc]
    exact ih rfl _ _ (token?_ne_dot ho)
  | is _ hi _ _ _ ih _ =>
    rw [List.append_assoc]
    exact ih rfl _ _ (by rw [hi]; nofun)
  | isNot _ hi _ _ _ ih _ =>
    rw [List.append_assoc]
    exact ih rfl _ _ (by rw [hi]; nofun)
  | isNotNull _ hi _ ih =>
    rw [List.append_assoc]
    exact ih rfl _ _ (by rw [hi]; nofun)
  | between _ hb _ _ _ ih _ _ =>
    rw [List.append_assoc]
    exact ih rfl _ _ (by rw [hb]; unfold rangeToken; split <;> nofun)
  | listed _ hi _ _ _ ih _ =>
    rw [List.append_assoc]
    exact ih rfl _ _ (by rw [hi]; unfold listToken; split <;> nofun)
  | loosen _ ih => exact ih rfl d rest hd
  | _ => cases hk

/-- **A computed column is no qualified star.** -/
theorem Spells.noStar {t : Tier} {e : Expr} {ls : List Lexeme} (h : Spells (.expr t) e ls)
    {d : Lexeme} (rest : List Lexeme) (hd : d.token ≠ .symbol .dot) : NoStar (ls ++ d :: rest) :=
  h.noStar_append rfl d rest hd

end Grammar

end RecordQuery
