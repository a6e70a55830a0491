import Mathlib.Data.List.Chain
import RecordQuery.Proofs.Grammar.Head
import RecordQuery.Query.Caption

/-! # Tokens side by side

What the grammar lets stand in front of a dot and behind one, and behind a token that can sign an
operand (`Token.Meets`). A run of tokens is `Linked` if all its neighbours are such, and if it can
be put between other runs: it does not begin with a dot, and ends neither with a dot nor with a
sign. Every spelling is linked (`Spells.linked`), nested statements included. -/

namespace RecordQuery

/-- Tokens that the grammar lets stand side by side: a dot stands behind a name and in front of a
name or a star, and behind a minus, a plus or a tilde there is an operand, whether or not the token
signs it. -/
structure Token.Meets (a b : Token) : Prop where
  dotted : b = .symbol .dot → a.name?.isSome = true
  qualified : a = .symbol .dot → b.name?.isSome = true ∨ b = .symbol .star
  signed : a.canSign = true → b.opens = true

/-- Whether a token is bound to the one behind it: a dot, or a token that can sign an operand. -/
def Token.binds (k : Token) : Bool := k == .symbol .dot || k.canSign

theorem Token.ne_dot_of_binds {k : Token} (h : k.binds = false) : k ≠ .symbol .dot := by
  rintro rfl
  cases h

theorem Token.canSign_of_binds {k : Token} (h : k.binds = false) : k.canSign = false :=
  (Bool.or_eq_false_iff.mp h).2

theorem Token.binds_of_name {k : Token} {n : String} (h : k.name? = some n) : k.binds = false := by
  cases k <;> first | rfl | cases h

theorem Token.ne_dot_of_opens {k : Token} (h : k.opens = true) : k ≠ .symbol .dot := by
  rintro rfl
  cases h

namespace Grammar

/-- A run of tokens whose neighbours meet, and which other runs can stand in front of and behind. -/
structure Linked (ls : List Lexeme) : Prop where
  chain : ls.IsChain fun a b => a.token.Meets b.token
  head : ∀ l ∈ ls.head?, l.token ≠ .symbol .dot
  last : ∀ l ∈ ls.getLast?, l.token.binds = false

variable {l m d : Lexeme} {ls rs : List Lexeme} {k : Token} {n : String}

theorem linked_nil : Linked [] := ⟨.nil, nofun, nofun⟩

/-- A token that is bound to nothing meets whatever can stand at the head of a run. -/
theorem meets_of_binds {a b : Token} (ha : a.binds = false) (hb : b ≠ .symbol .dot) :
    a.Meets b where
  dotted h := absurd h hb
  qualified h := absurd h (Token.ne_dot_of_binds ha)
  signed h := by
    rw [Token.canSign_of_binds ha] at h
    cases h

theorem Linked.append (h : Linked ls) (hr : Linked rs) : Linked (ls ++ rs) where
  chain := List.isChain_append.mpr ⟨h.chain, hr.chain, fun a ha b hb =>
    meets_of_binds (h.last a ha) (hr.head b hb)⟩
  head := by
    cases ls with
    | nil => exact hr.head
    | cons l ls => exact h.head
  last := by
    rw [List.getLast?_append]
    cases hlast : rs.getLast? with
    | none => exact h.last
    | some b =>
      rintro _ ⟨⟩
      exact hr.last b hlast

theorem linked_single (hl : l.token.binds = false) : Linked [l] where
  chain := .singleton l
  head := by
    rintro _ ⟨⟩
    exact Token.ne_dot_of_binds hl
  last := by
    rintro _ ⟨⟩
    exact hl

theorem linked_cons (hl : l.token.binds = false) (h : Linked ls) : Linked (l :: ls) :=
  (linked_single hl).append h

theorem linked_eq (hl : l.token = k) (hk : k.binds = false) (h : Linked ls) : Linked (l :: ls) :=
  linked_cons (hl ▸ hk) h

theorem linked_name (hl : l.token.name? = some n) (h : Linked ls) : Linked (l :: ls) :=
  linked_cons (Token.binds_of_name hl) h

/-- A token in front of a run that it meets. -/
theorem linked_meets (hl : l.token ≠ .symbol .dot) (hlm : l.token.Meets m.token)
    (h : Linked (m :: ls)) : Linked (l :: m :: ls) where
  chain := .cons_cons hlm h.chain
  head := by
    rintro _ ⟨⟩
    exact hl
  last := h.last

/-- A token in front of an operand, which it may sign. -/
theorem linked_operand {t : Tier} {e : Expr} (hl : l.token ≠ .symbol .dot)
    (he : Spells (.expr t) e ls) (h : Linked ls) : Linked (l :: ls) := by
  obtain ⟨m, rest, rfl, hm⟩ := he.head_expr
  exact linked_meets hl ⟨fun hd => absurd hd (Token.ne_dot_of_opens hm), fun hd => absurd hd hl,
    fun _ => hm⟩ h

/-- A name, a dot, and what the name qualifies. -/
theorem linked_dot (hl : l.token.name? = some n) (hd : d.token = .symbol .dot)
    (hm : m.token.name?.isSome = true ∨ m.token = .symbol .star) (h : Linked (m :: ls)) :
    Linked (l :: d :: m :: ls) where
  chain := by
    refine .cons_cons ⟨fun _ => by rw [hl]; rfl, fun hk => ?_, fun hk => ?_⟩
      (.cons_cons ⟨fun hk => ?_, fun _ => hm, fun hk => ?_⟩ h.chain)
    · exact absurd hk (Token.ne_dot_of_binds (Token.binds_of_name hl))
    · rw [Token.canSign_of_binds (Token.binds_of_name hl)] at hk
      cases hk
    · exact absurd hk (h.head m rfl)
    · rw [hd] at hk
      cases hk
  head := by
    rintro _ ⟨⟩
    exact Token.ne_dot_of_binds (Token.binds_of_name hl)
  last := h.last

theorem linked_qualified (hl : l.token.name? = some n) (hd : d.token = .symbol .dot) {n' : String}
    (hm : m.token.name? = some n') (h : Linked (m :: ls)) : Linked (l :: d :: m :: ls) :=
  linked_dot hl hd (.inl (by rw [hm]; rfl)) h

/-! ### Spellings -/

theorem SpellsRef.linked {ref : ColumnRef} (h : SpellsRef ref ls) : Linked ls := by
  cases h with
  | bare h => exact linked_name h linked_nil
  | table hl hd hm => exact linked_qualified hl hd hm (linked_name hm linked_nil)
  | database hl hd hm he ho =>
    exact linked_qualified hl hd hm (linked_qualified hm he ho (linked_name ho linked_nil))

theorem SpellsLabel.linked {label : Option String} (h : SpellsLabel label ls) : Linked ls := by
  cases h with
  | absent => exact linked_nil
  | plain h => exact linked_name h linked_nil
  | marked ha h => exact linked_eq ha rfl (linked_name h linked_nil)

theorem SpellsSource.linked {source : Option FromClause} (h : SpellsSource source ls) :
    Linked ls := by
  cases h with
  | absent => exact linked_nil
  | bare hf hl h => exact linked_eq hf rfl (linked_name hl h.linked)
  | qualified hf hl hd hm h =>
    exact linked_eq hf rfl (linked_qualified hl hd hm (linked_name hm h.linked))

theorem SpellsOption.linked {option : Option SelectOption} (h : SpellsOption option ls) :
    Linked ls := by
  cases h with
  | absent => exact linked_nil
  | distinct h | all h => exact linked_eq h rfl linked_nil

theorem SpellsDirection.linked {direction : Option Direction} (h : SpellsDirection direction ls) :
    Linked ls := by
  cases h with
  | absent => exact linked_nil
  | ascending h | descending h => exact linked_eq h rfl linked_nil

theorem binds_literal (v : Literal) : v.token.binds = false := by
  unfold Literal.token
  split <;> rfl

theorem binds_trailing {op : UnaryOp} (h : UnaryOp.trailing? k = some op) : k.binds = false := by
  unfold UnaryOp.trailing? at h
  split at h <;> first | rfl | cases h

theorem leading?_ne_dot {op : UnaryOp} (h : UnaryOp.leading? k = some op) : k ≠ .symbol .dot := by
  rintro rfl
  cases h

theorem binds_range (negated : Bool) : (rangeToken negated).binds = false := by
  cases negated <;> rfl

theorem binds_list (negated : Bool) : (listToken negated).binds = false := by
  cases negated <;> rfl

/-- **Every spelling is linked.** -/
theorem Spells.linked {k : Kind} {a : k.Value} (h : Spells k a ls) : Linked ls := by
  induction h with
  | @literal v _ h => exact linked_eq h (binds_literal v) linked_nil
  | parameter h | notNull h | star h => exact linked_eq h rfl linked_nil
  | column h => exact h.linked
  | group ho _ hc ih => exact linked_eq ho rfl (ih.append (linked_eq hc rfl linked_nil))
  | callStar hf ho hs hc =>
    exact linked_name hf (linked_eq ho rfl (linked_eq hs rfl (linked_eq hc rfl linked_nil)))
  | callNone hf ho hc => exact linked_name hf (linked_eq ho rfl (linked_eq hc rfl linked_nil))
  | call hf ho _ hc ih =>
    exact linked_name hf (linked_eq ho rfl (ih.append (linked_eq hc rfl linked_nil)))
  | existsRow hx ho _ hc ih =>
    exact linked_eq hx rfl (linked_eq ho rfl (ih.append (linked_eq hc rfl linked_nil)))
  | leading ho h _ ih => exact linked_operand (leading?_ne_dot ho) h ih
  | trailing _ ho ih => exact ih.append (linked_cons (binds_trailing ho) linked_nil)
  | operator _ ho hr _ ihl ihr => exact ihl.append (linked_operand (token?_ne_dot ho) hr ihr)
  | is _ hi _ _ _ ihl ihr => exact ihl.append (linked_eq hi rfl ihr)
  | isNot _ hi hn _ _ ihl ihr => exact ihl.append (linked_eq hi rfl (linked_eq hn rfl ihr))
  | isNotNull _ hi hn ihl => exact ihl.append (linked_eq hi rfl (linked_eq hn rfl linked_nil))
  | between _ hb _ ha _ ihv ihlo ihhi =>
    exact ihv.append (linked_eq hb (binds_range _) (ihlo.append (linked_eq ha rfl ihhi)))
  | listed _ hi ho _ hc ihv ih =>
    exact ihv.append (linked_eq hi (binds_list _) (linked_eq ho rfl
      (ih.append (linked_eq hc rfl linked_nil))))
  | loosen _ ih | expression _ ih | one _ ih => exact ih
  | qualifiedStar hn hd hs => exact linked_dot hn hd (.inr hs) (linked_eq hs rfl linked_nil)
  | computed _ ha ih => exact ih.append ha.linked
  | term _ hd ih => exact ih.append hd.linked
  | more _ hc _ ih ihs => exact ih.append (linked_eq hc rfl ihs)
  | absent | unsorted | unlimited => exact linked_nil
  | @present w _ _ _ hl _ ih => exact linked_eq hl (by cases w <;> rfl) ih
  | sorted ho hb _ ih => exact linked_eq ho rfl (linked_eq hb rfl ih)
  | count hw _ ih => exact linked_eq hw rfl ih
  | countOffset hw _ ho _ ih ihf => exact linked_eq hw rfl (ih.append (linked_eq ho rfl ihf))
  | offsetCount hw _ hc _ ih ihf => exact linked_eq hw rfl (ih.append (linked_eq hc rfl ihf))
  | statement h ho _ hf _ _ _ _ ihc ihw ihh ihb ihm =>
    exact linked_eq h rfl (ho.linked.append (ihc.append
      (hf.linked.append (ihw.append (ihh.append (ihb.append ihm))))))

end Grammar

end RecordQuery
