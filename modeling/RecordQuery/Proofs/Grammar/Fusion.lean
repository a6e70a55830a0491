import RecordQuery.Proofs.Grammar.Head

/-! # Spellings and the words they are written in

Words become tokens one by one, and a `NOT` fuses with some of the words behind it (`Source.push`).
A run of tokens is `Settled` if nothing in it is left to fuse; then it is what its own words fuse to
(`fuse_words`). Every spelling is settled, so it does not matter whether a tree is written in words
or in tokens. -/

namespace RecordQuery

/-- The tokens that a run of words comes to. -/
def Source.fuse (ws : List Lexeme) : List Lexeme := (ws.foldl push []).reverse

/-- Whether a `NOT` fuses with a token behind it. -/
def Token.fuses : Token → Bool
  | .keyword k => (Negatable.ofKeyword? k).isSome
  | _ => false

namespace Grammar

/-- The words of a run of tokens: two for each token that begins with `NOT`. -/
inductive Words : List Lexeme → List Lexeme → Prop
  | nil : Words [] []
  | single {l : Lexeme} {ws ls : List Lexeme} (hl : ∀ n, l.token ≠ .negated n) (h : Words ws ls) :
      Words (l :: ws) (l :: ls)
  | pair {a b : Lexeme} {n : Negatable} {ws ls : List Lexeme} (ha : a.token = .keyword .NOT)
      (hb : b.token = .keyword n.keyword) (h : Words ws ls) :
      Words (a :: b :: ws) (⟨.negated n, a.start, b.stop⟩ :: ls)

/-- Nothing is left to fuse in a run of tokens, nor does it end with `NOT`; the flag says whether it
stands behind a `NOT`. -/
def Settled : Bool → List Lexeme → Prop
  | behind, [] => behind = false
  | behind, l :: ls =>
    (behind = true → l.token.fuses = false) ∧ Settled (l.token == .keyword .NOT) ls

/-! ### Fusing -/

/-- Whether the last token so far, which is the first one of the list, is a `NOT`. -/
def endsNot (done : List Lexeme) : Bool :=
  match done with
  | [] => false
  | last :: _ => last.token == .keyword .NOT

theorem fuse?_eq_none {a b : Lexeme}
    (h : a.token = .keyword .NOT → b.token.fuses = false) : Source.fuse? a b = none := by
  unfold Source.fuse?
  split
  · next k ha hb =>
    have hf := h ha
    rw [hb] at hf
    rw [Option.not_isSome_iff_eq_none.mp (Bool.eq_false_iff.mp hf)]
    rfl
  · rfl

theorem push_eq_cons {done : List Lexeme} {l : Lexeme}
    (h : endsNot done = true → l.token.fuses = false) : Source.push done l = l :: done := by
  cases done with
  | nil => rfl
  | cons last before =>
    have hn : Source.fuse? last l = none := fuse?_eq_none fun ha => h (beq_iff_eq.mpr ha)
    simp only [Source.push, hn]

theorem push_pair {done : List Lexeme} {a b : Lexeme} {n : Negatable}
    (ha : a.token = .keyword .NOT) (hb : b.token = .keyword n.keyword) :
    Source.push (a :: done) b = ⟨.negated n, a.start, b.stop⟩ :: done := by
  simp only [Source.push, Source.fuse?, ha, hb, Negatable.ofKeyword?_keyword, Option.map_some]

/-- The words of settled tokens are pushed token by token. -/
theorem foldl_push {ws ls : List Lexeme} (h : Words ws ls) :
    ∀ done, Settled (endsNot done) ls → ws.foldl Source.push done = ls.reverse ++ done := by
  induction h with
  | nil => intro done _; rfl
  | @single l ws ls hl h ih =>
    intro done hs
    obtain ⟨hf, hs⟩ := hs
    rw [List.foldl_cons, push_eq_cons hf, ih (l :: done) hs, List.reverse_cons, List.append_assoc]
    rfl
  | @pair a b n ws ls ha hb h ih =>
    intro done hs
    obtain ⟨-, hs⟩ := hs
    have hnot : Source.push done a = a :: done := push_eq_cons fun _ => by rw [ha]; rfl
    rw [List.foldl_cons, List.foldl_cons, hnot, push_pair ha hb,
      ih (⟨.negated n, a.start, b.stop⟩ :: done) hs, List.reverse_cons, List.append_assoc]
    rfl

/-- **Settled tokens** are what their words fuse to. -/
theorem fuse_words {ws ls : List Lexeme} (hs : Settled false ls) (h : Words ws ls) :
    Source.fuse ws = ls := by
  unfold Source.fuse
  rw [foldl_push h [] hs, List.append_nil, List.reverse_reverse]

theorem Words.append {ws ws' ls ls' : List Lexeme} (h : Words ws ls) (h' : Words ws' ls') :
    Words (ws ++ ws') (ls ++ ls') := by
  induction h with
  | nil => exact h'
  | single hl _ ih => exact .single hl ih
  | pair ha hb _ ih => exact .pair ha hb ih

/-! ### Runs of settled tokens -/

variable {l : Lexeme} {ls rs : List Lexeme} {b : Bool}

theorem Settled.append (h : Settled b ls) (hr : Settled false rs) : Settled b (ls ++ rs) := by
  induction ls generalizing b with
  | nil =>
    have hb : b = false := h
    rw [hb]
    exact hr
  | cons l ls ih => exact ⟨h.1, ih h.2⟩

/-- Whether a run is settled does not depend on the places of its tokens. -/
theorem Settled.of_tokens (h : Settled b ls) (htokens : rs.map Lexeme.token = ls.map Lexeme.token) :
    Settled b rs := by
  induction ls generalizing b rs with
  | nil =>
    obtain rfl := List.map_eq_nil_iff.mp htokens
    exact h
  | cons l ls ih =>
    obtain ⟨r, rs, rfl, hr, hrs⟩ := List.map_eq_cons_iff.mp htokens
    exact ⟨hr ▸ h.1, hr ▸ ih h.2 hrs⟩

theorem settled_cons (hl : l.token ≠ .keyword .NOT) (h : Settled false ls) :
    Settled false (l :: ls) := by
  refine ⟨nofun, ?_⟩
  rw [beq_eq_false_iff_ne.mpr hl]
  exact h

theorem settled_single (hl : l.token ≠ .keyword .NOT) : Settled false [l] := settled_cons hl rfl

theorem ne_not_of_name {n : String} (h : l.token.name? = some n) : l.token ≠ .keyword .NOT := by
  rintro hk
  rw [hk] at h
  cases h

theorem ne_not_of_eq {k : Token} (h : l.token = k) (hk : k ≠ .keyword .NOT) :
    l.token ≠ .keyword .NOT := by rw [h]; exact hk

theorem not_fuses_of_opens {k : Token} (h : k.opens = true) (hn : k ≠ .keyword .NULL) :
    k.fuses = false := by
  unfold Token.fuses
  split
  · next w =>
    cases w <;> first | rfl | exact absurd rfl hn | cases h
  · rfl

/-- A `NOT` in front of an operand that does not begin with `NULL`. -/
theorem settled_not {t : Tier} {e : Expr} (hs : Spells (.expr t) e ls) (h : Settled false ls)
    (hn : ¬ Begins (.keyword .NULL) ls) : Settled true ls := by
  obtain ⟨f, rest, rfl, ho⟩ := hs.head_expr
  refine ⟨fun _ => not_fuses_of_opens ho ?_, h.2⟩
  rintro hk
  exact hn (by rw [Begins, List.head?_cons, Option.map_some, hk])

theorem SpellsRef.settled {ref : ColumnRef} (h : SpellsRef ref ls) : Settled false ls := by
  cases h with
  | bare h => exact settled_single (ne_not_of_name h)
  | table hl hd hm =>
    exact settled_cons (ne_not_of_name hl) (settled_cons (ne_not_of_eq hd nofun)
      (settled_single (ne_not_of_name hm)))
  | database hl hd hm he ho =>
    exact settled_cons (ne_not_of_name hl) (settled_cons (ne_not_of_eq hd nofun)
      (settled_cons (ne_not_of_name hm) (settled_cons (ne_not_of_eq he nofun)
        (settled_single (ne_not_of_name ho)))))

theorem SpellsLabel.settled {label : Option String} (h : SpellsLabel label ls) :
    Settled false ls := by
  cases h with
  | absent => rfl
  | plain h => exact settled_single (ne_not_of_name h)
  | marked ha h => exact settled_cons (ne_not_of_eq ha nofun) (settled_single (ne_not_of_name h))

theorem SpellsSource.settled {source : Option FromClause} (h : SpellsSource source ls) :
    Settled false ls := by
  cases h with
  | absent => rfl
  | bare hf hl h =>
    exact settled_cons (ne_not_of_eq hf nofun) (settled_cons (ne_not_of_name hl) h.settled)
  | qualified hf hl hd hm h =>
    exact settled_cons (ne_not_of_eq hf nofun) (settled_cons (ne_not_of_name hl)
      (settled_cons (ne_not_of_eq hd nofun) (settled_cons (ne_not_of_name hm) h.settled)))

theorem SpellsOption.settled {option : Option SelectOption} (h : SpellsOption option ls) :
    Settled false ls := by
  cases h with
  | absent => rfl
  | distinct h | all h => exact settled_single (ne_not_of_eq h nofun)

theorem SpellsDirection.settled {direction : Option Direction} (h : SpellsDirection direction ls) :
    Settled false ls := by
  cases h with
  | absent => rfl
  | ascending h | descending h => exact settled_single (ne_not_of_eq h nofun)

theorem ne_not_of_literal {v : Literal} : v.token ≠ .keyword .NOT := by
  unfold Literal.token
  split <;> nofun

theorem ne_not_of_token? {op : BinaryOp} {k : Token} (h : op.token? = some k) :
    k ≠ .keyword .NOT := by
  rintro rfl
  cases op <;> cases h

theorem ne_not_of_trailing {op : UnaryOp} {k : Token} (h : UnaryOp.trailing? k = some op) :
    k ≠ .keyword .NOT := by
  rintro rfl
  cases h

theorem leading?_not {op : UnaryOp} {k : Token} (h : UnaryOp.leading? k = some op)
    (hk : k = .keyword .NOT) : op = .not := by
  rw [hk] at h
  cases h
  rfl

theorem ne_not_range {negated : Bool} : rangeToken negated ≠ .keyword .NOT := by
  cases negated <;> nofun

theorem ne_not_list {negated : Bool} : listToken negated ≠ .keyword .NOT := by
  cases negated <;> nofun

/-- **Every spelling is settled.** -/
theorem Spells.settled {k : Kind} {a : k.Value} (h : Spells k a ls) : Settled false ls := by
  induction h with
  | literal h => exact settled_single (ne_not_of_eq h ne_not_of_literal)
  | parameter h => exact settled_single (ne_not_of_eq h nofun)
  | column h => exact h.settled
  | group ho _ hc ih =>
    exact settled_cons (ne_not_of_eq ho nofun) (ih.append (settled_single (ne_not_of_eq hc nofun)))
  | callStar hf ho hs hc =>
    exact settled_cons (ne_not_of_name hf) (settled_cons (ne_not_of_eq ho nofun)
      (settled_cons (ne_not_of_eq hs nofun) (settled_single (ne_not_of_eq hc nofun))))
  | callNone hf ho hc =>
    exact settled_cons (ne_not_of_name hf) (settled_cons (ne_not_of_eq ho nofun)
      (settled_single (ne_not_of_eq hc nofun)))
  | call hf ho _ hc ih =>
    exact settled_cons (ne_not_of_name hf) (settled_cons (ne_not_of_eq ho nofun)
      (ih.append (settled_single (ne_not_of_eq hc nofun))))
  | existsRow hx ho _ hc ih =>
    exact settled_cons (ne_not_of_eq hx nofun) (settled_cons (ne_not_of_eq ho nofun)
      (ih.append (settled_single (ne_not_of_eq hc nofun))))
  | notNull h => exact settled_single (ne_not_of_eq h nofun)
  | @leading op o _ _ ho h hn ih =>
    refine ⟨nofun, ?_⟩
    by_cases hk : o.token = .keyword .NOT
    · rw [hk]
      exact settled_not h ih (hn (leading?_not ho hk))
    · rw [beq_eq_false_iff_ne.mpr hk]
      exact ih
  | trailing _ ho ih => exact ih.append (settled_single (ne_not_of_trailing ho))
  | operator _ ho _ _ ihl ihr => exact ihl.append (settled_cons (ne_not_of_token? ho) ihr)
  | is _ hi _ _ _ ihl ihr => exact ihl.append (settled_cons (ne_not_of_eq hi nofun) ihr)
  | isNot _ hi hn hr hb ihl ihr =>
    refine ihl.append (settled_cons (ne_not_of_eq hi nofun) ⟨nofun, ?_⟩)
    rw [hn]
    exact settled_not hr ihr hb
  | isNotNull _ hi hn ihl =>
    exact ihl.append (settled_cons (ne_not_of_eq hi nofun)
      (settled_single (ne_not_of_eq hn nofun)))
  | between _ hb _ ha _ ihv ihlo ihhi =>
    exact ihv.append (settled_cons (ne_not_of_eq hb ne_not_range)
      (ihlo.append (settled_cons (ne_not_of_eq ha nofun) ihhi)))
  | listed _ hi ho _ hc ihv ih =>
    exact ihv.append (settled_cons (ne_not_of_eq hi ne_not_list)
      (settled_cons (ne_not_of_eq ho nofun)
        (ih.append (settled_single (ne_not_of_eq hc nofun)))))
  | loosen _ ih => exact ih
  | expression _ ih => exact ih
  | star h => exact settled_single (ne_not_of_eq h nofun)
  | qualifiedStar hn hd hs =>
    exact settled_cons (ne_not_of_name hn) (settled_cons (ne_not_of_eq hd nofun)
      (settled_single (ne_not_of_eq hs nofun)))
  | computed _ ha ih => exact ih.append ha.settled
  | term _ hd ih => exact ih.append hd.settled
  | one _ ih => exact ih
  | more _ hc _ ih ihs => exact ih.append (settled_cons (ne_not_of_eq hc nofun) ihs)
  | absent => rfl
  | @present w _ _ _ hl _ ih =>
    exact settled_cons (ne_not_of_eq hl (by cases w <;> nofun)) ih
  | unsorted => rfl
  | sorted ho hb _ ih =>
    exact settled_cons (ne_not_of_eq ho nofun) (settled_cons (ne_not_of_eq hb nofun) ih)
  | unlimited => rfl
  | count hw _ ih => exact settled_cons (ne_not_of_eq hw nofun) ih
  | countOffset hw _ ho _ ih ihf =>
    exact settled_cons (ne_not_of_eq hw nofun)
      (ih.append (settled_cons (ne_not_of_eq ho nofun) ihf))
  | offsetCount hw _ hc _ ih ihf =>
    exact settled_cons (ne_not_of_eq hw nofun)
      (ih.append (settled_cons (ne_not_of_eq hc nofun) ihf))
  | statement h ho _ hf _ _ _ _ ihc ihw ihh ihb ihm =>
    exact settled_cons (ne_not_of_eq h nofun) (ho.settled.append (ihc.append
      (hf.settled.append (ihw.append (ihh.append (ihb.append ihm))))))

end Grammar

end RecordQuery
