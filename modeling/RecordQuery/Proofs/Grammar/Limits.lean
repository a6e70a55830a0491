import RecordQuery.Proofs.Grammar.RoundTrip
import RecordQuery.Proofs.Query.Rows

/-! # Limits as they are written

An operand of a limit says an integer where its tokens, parentheses aside, are a literal behind any
number of plus signs and then at most one minus sign (`SignedInteger`). That is a statement about
tokens, and the integer is read from the tree; they agree on every spelling of every expression
(`Spells.writesInteger`), by induction on the spelling: what stands between two operands or behind
one is no sign, so what is written with it is no integer.

A limit is written in three forms (`LimitForm`). What is spelled by one of them is spelled by the
other one with the same operands (`LimitForm.Writes.spells`), and a statement is the same whichever
of its spellings the limit has (`Spells.before_limit`). -/

namespace RecordQuery.Grammar

/-! ### Integers among tokens -/

/-- Whether a token is a parenthesis. -/
def isParen : Token → Bool
  | .symbol .leftParen | .symbol .rightParen => true
  | _ => false

/-- The tokens of a run, parentheses aside. -/
def unparenthesized (ls : List Lexeme) : List Token :=
  (ls.map Lexeme.token).filter (!isParen ·)

/-- **Tokens of an integer**: a literal behind any number of plus signs and then at most one minus
sign. -/
inductive SignedInteger : List Token → Int → Prop
  | literal (n : Int64) : SignedInteger [.number (.integer n)] n.toInt
  | negated (n : Int64) : SignedInteger [.symbol .minus, .number (.integer n)] (-n.toInt)
  | plus {ts : List Token} {i : Int} (h : SignedInteger ts i) :
    SignedInteger (.symbol .plus :: ts) i

section

variable {ts us : List Token} {k : Token} {i : Int} {e l : Expr} {ls ms : List Lexeme} {f : Lexeme}

@[simp] theorem unparenthesized_append :
    unparenthesized (ls ++ ms) = unparenthesized ls ++ unparenthesized ms := by
  unfold unparenthesized
  rw [List.map_append, List.filter_append]

theorem unparenthesized_cons (h : isParen f.token = false) :
    unparenthesized (f :: ls) = f.token :: unparenthesized ls := by
  unfold unparenthesized
  rw [List.map_cons, List.filter_cons_of_pos (by rw [h]; rfl)]

theorem unparenthesized_paren (h : isParen f.token = true) :
    unparenthesized (f :: ls) = unparenthesized ls := by
  unfold unparenthesized
  rw [List.map_cons, List.filter_cons_of_neg (by rw [h]; decide)]

/-- Whether the tokens of an integer can begin with a token. -/
def beginsInteger : Token → Bool
  | .symbol .plus | .symbol .minus | .number (.integer _) => true
  | _ => false

theorem SignedInteger.head (h : SignedInteger (k :: ts) i) : beginsInteger k = true := by
  rcases h with n | n | h <;> rfl

/-- In front of the last token of an integer there are signs only. -/
theorem SignedInteger.signs (h : SignedInteger (ts ++ us) i) (hu : us ≠ []) :
    ∀ k ∈ ts, k.canSign = true := by
  generalize hall : ts ++ us = all at h
  induction h generalizing ts with
  | literal n =>
    rcases ts with _ | ⟨k, ts⟩
    · exact nofun
    · have hnil := (List.append_eq_nil_iff.mp (List.cons.inj hall).2).2
      exact absurd hnil hu
  | negated n =>
    rcases ts with _ | ⟨k, _ | ⟨k', ts⟩⟩
    · exact nofun
    · rw [(List.cons.inj hall).1]
      exact List.forall_mem_singleton.mpr rfl
    · have hnil := (List.append_eq_nil_iff.mp (List.cons.inj (List.cons.inj hall).2).2).2
      exact absurd hnil hu
  | plus _ ih =>
    rcases ts with _ | ⟨k, ts⟩
    · exact nofun
    · obtain ⟨rfl, hrest⟩ := List.cons.inj hall
      exact List.forall_mem_cons.mpr ⟨rfl, ih hrest⟩

/-! ### Integers in trees -/

/-- The tokens of an expression, parentheses aside, are those of an integer exactly if the
expression is one. They are never signs alone, and a single literal only if the expression is that
literal. -/
structure WritesInteger (e : Expr) (ts : List Token) : Prop where
  solid : ∃ k ∈ ts, k.canSign = false
  literal : ∀ n, ts = [.number (.integer n)] ↔ e = .literal (.number (.integer n))
  signed : ∀ i, SignedInteger ts i ↔ e.integer? = some i

theorem not_literal (he : e.integer? = none) (n : Int64) : e ≠ .literal (.number (.integer n)) := by
  rintro rfl
  cases he

theorem writesInteger_of_head (he : e.integer? = none) (hk : beginsInteger k = false)
    (hsolid : ∃ x ∈ k :: ts, x.canSign = false) : WritesInteger e (k :: ts) where
  solid := hsolid
  literal n := by
    refine ⟨fun h => ?_, fun h => absurd h (not_literal he n)⟩
    rw [(List.cons.inj h).1] at hk
    cases hk
  signed i := by
    refine ⟨fun h => ?_, fun h => ?_⟩
    · rw [h.head] at hk
      cases hk
    · rw [he] at h
      cases h

/-- What has more tokens behind those of an expression is no integer. -/
theorem WritesInteger.behind (h : WritesInteger l ts) (hu : us ≠ []) (he : e.integer? = none) :
    WritesInteger e (ts ++ us) := by
  obtain ⟨k, hk, hsolid⟩ := h.solid
  have hnot (i : Int) : ¬ SignedInteger (ts ++ us) i := by
    intro hi
    rw [hi.signs hu k hk] at hsolid
    cases hsolid
  refine ⟨⟨k, List.mem_append_left us hk, hsolid⟩, fun n => ?_, fun i => ?_⟩
  · refine ⟨fun heq => ?_, fun heq => absurd heq (not_literal he n)⟩
    refine absurd ?_ (hnot n.toInt)
    rw [heq]
    exact .literal n
  · refine ⟨fun hi => absurd hi (hnot i), fun hi => ?_⟩
    rw [he] at hi
    cases hi

theorem WritesInteger.plus (h : WritesInteger e ts) :
    WritesInteger (.unary .plus e) (.symbol .plus :: ts) where
  solid := by
    obtain ⟨k, hk, hsolid⟩ := h.solid
    exact ⟨k, List.mem_cons_of_mem _ hk, hsolid⟩
  literal n := ⟨nofun, nofun⟩
  signed i := by
    refine Iff.trans ⟨?_, .plus⟩ (h.signed i)
    rintro (_ | _ | hi)
    exact hi

theorem integer?_negate (h : (Expr.unary .negate e).integer? = some i) :
    ∃ n : Int64, e = .literal (.number (.integer n)) ∧ i = -n.toInt := by
  unfold Expr.integer? at h
  split at h
  · next heq => cases heq
  · next n heq =>
    cases heq
    cases h
    exact ⟨n, rfl, rfl⟩
  · next heq => cases heq
  · cases h

theorem WritesInteger.negate (h : WritesInteger e ts) :
    WritesInteger (.unary .negate e) (.symbol .minus :: ts) where
  solid := by
    obtain ⟨k, hk, hsolid⟩ := h.solid
    exact ⟨k, List.mem_cons_of_mem _ hk, hsolid⟩
  literal n := ⟨nofun, nofun⟩
  signed i := by
    constructor
    · intro hi
      generalize hall : Token.symbol .minus :: ts = all at hi
      rcases hi with n | n | hi
      · cases hall
      · rw [(h.literal n).mp (List.cons.inj hall).2]
        rfl
      · cases hall
    · intro hi
      obtain ⟨n, he, rfl⟩ := integer?_negate hi
      rw [(h.literal n).mpr he]
      exact .negated n

theorem plain_of_name {c : String} (h : k.name? = some c) :
    isParen k = false ∧ beginsInteger k = false ∧ k.canSign = false := by
  unfold Token.name? at h
  split at h
  · exact ⟨rfl, rfl, rfl⟩
  · exact ⟨rfl, rfl, rfl⟩
  · cases h

/-- What begins with a token that is no sign, no parenthesis and no integer literal is no integer.
-/
theorem writesInteger_of_first (hk : isParen f.token = false ∧ beginsInteger f.token = false ∧
    f.token.canSign = false) (he : e.integer? = none) :
    WritesInteger e (unparenthesized (f :: ls)) := by
  obtain ⟨hparen, hbegins, hsign⟩ := hk
  rw [unparenthesized_cons hparen]
  exact writesInteger_of_head he hbegins ⟨f.token, List.mem_cons_self, hsign⟩

theorem WritesInteger.before (h : WritesInteger l (unparenthesized ls))
    (hk : isParen f.token = false) (he : e.integer? = none) :
    WritesInteger e (unparenthesized (ls ++ f :: ms)) := by
  rw [unparenthesized_append, unparenthesized_cons hk]
  exact h.behind (List.cons_ne_nil _ _) he

/-- The tokens of a kind, where it is that of an expression. -/
def IntegerWritten : (k : Kind) → k.Value → List Lexeme → Prop
  | .expr _, e, ls => WritesInteger e (unparenthesized ls)
  | _, _, _ => True

theorem writesInteger_literal {v : Literal} (h : f.token = v.token) :
    WritesInteger (.literal v) (unparenthesized [f]) := by
  rcases v with n | _ | _ | b | _ | _ | _ | _
  · rcases n with n | d | x
    · rw [unparenthesized_cons (by rw [h]; rfl), h]
      refine ⟨⟨_, List.mem_cons_self, rfl⟩, fun m => ?_, fun i => ?_⟩
      · constructor <;> (intro heq; cases heq; rfl)
      · constructor
        · rintro (n | _ | _)
          rfl
        · intro hi
          cases hi
          exact .literal n
    · exact writesInteger_of_first (by rw [h]; exact ⟨rfl, rfl, rfl⟩) rfl
    · exact writesInteger_of_first (by rw [h]; exact ⟨rfl, rfl, rfl⟩) rfl
  · exact writesInteger_of_first (by rw [h]; exact ⟨rfl, rfl, rfl⟩) rfl
  · exact writesInteger_of_first (by rw [h]; exact ⟨rfl, rfl, rfl⟩) rfl
  · rcases b with _ | _ <;> exact writesInteger_of_first (by rw [h]; exact ⟨rfl, rfl, rfl⟩) rfl
  all_goals exact writesInteger_of_first (by rw [h]; exact ⟨rfl, rfl, rfl⟩) rfl

theorem writesInteger_leading {op : UnaryOp} (ho : UnaryOp.leading? f.token = some op)
    (h : WritesInteger e (unparenthesized ls)) :
    WritesInteger (.unary op e) (unparenthesized (f :: ls)) := by
  obtain ⟨k, hk, hsolid⟩ := h.solid
  have hothers {k' : Token} : ∃ x ∈ k' :: unparenthesized ls, x.canSign = false :=
    ⟨k, List.mem_cons_of_mem _ hk, hsolid⟩
  unfold UnaryOp.leading? at ho
  split at ho
  · next hf =>
    cases ho
    rw [unparenthesized_cons (by rw [hf]; rfl), hf]
    exact h.negate
  · next hf =>
    cases ho
    rw [unparenthesized_cons (by rw [hf]; rfl), hf]
    exact h.plus
  · next hf =>
    cases ho
    rw [unparenthesized_cons (by rw [hf]; rfl), hf]
    exact writesInteger_of_head rfl rfl hothers
  · next hf =>
    cases ho
    rw [unparenthesized_cons (by rw [hf]; rfl), hf]
    exact writesInteger_of_head rfl rfl hothers
  · cases ho

theorem writesInteger_trailing {op : UnaryOp} (h : WritesInteger e (unparenthesized ls))
    (ho : UnaryOp.trailing? f.token = some op) :
    WritesInteger (.unary op e) (unparenthesized (ls ++ [f])) := by
  unfold UnaryOp.trailing? at ho
  split at ho
  · next hf =>
    cases ho
    exact h.before (by rw [hf]; rfl) rfl
  · next hf =>
    cases ho
    exact h.before (by rw [hf]; rfl) rfl
  · next hf =>
    cases ho
    exact h.before (by rw [hf]; rfl) rfl
  · cases ho

theorem isParen_of_token? {op : BinaryOp} (h : op.token? = some k) : isParen k = false := by
  rcases op <;> cases h <;> rfl

theorem Spells.integerWritten {k : Kind} {a : k.Value} (h : Spells k a ls) :
    IntegerWritten k a ls := by
  induction h with
  | literal h => exact writesInteger_literal h
  | parameter h => exact writesInteger_of_first (by rw [h]; exact ⟨rfl, rfl, rfl⟩) rfl
  | column h =>
    rcases h with h | ⟨h, -, -⟩ | ⟨h, -, -, -, -⟩
    · exact writesInteger_of_first (plain_of_name h) rfl
    · exact writesInteger_of_first (plain_of_name h) rfl
    · exact writesInteger_of_first (plain_of_name h) rfl
  | @group o c e ls ho _ hc ih =>
    -- Both parentheses are set aside, so the tokens are those of what stands in them.
    have hclose : unparenthesized [c] = [] := unparenthesized_paren (by rw [hc]; rfl)
    change WritesInteger e (unparenthesized (o :: (ls ++ [c])))
    rw [unparenthesized_paren (by rw [ho]; rfl), unparenthesized_append, hclose, List.append_nil]
    exact ih
  | callStar hf | callNone hf => exact writesInteger_of_first (plain_of_name hf) rfl
  | call hf => exact writesInteger_of_first (plain_of_name hf) rfl
  | existsRow hx => exact writesInteger_of_first (by rw [hx]; exact ⟨rfl, rfl, rfl⟩) rfl
  | notNull h => exact writesInteger_of_first (by rw [h]; exact ⟨rfl, rfl, rfl⟩) rfl
  | leading ho _ _ ih => exact writesInteger_leading ho ih
  | trailing _ ho ih => exact writesInteger_trailing ih ho
  | operator _ ho _ _ ihl _ => exact ihl.before (isParen_of_token? ho) rfl
  | is _ hi _ _ _ ihl _ => exact ihl.before (by rw [hi]; rfl) rfl
  | isNot _ hi _ _ _ ihl _ => exact ihl.before (by rw [hi]; rfl) rfl
  | isNotNull _ hi _ ihl => exact ihl.before (by rw [hi]; rfl) rfl
  | @between _ _ negated _ _ _ _ _ _ _ hb _ _ _ ihv _ _ =>
    exact ihv.before (by rw [hb]; rcases negated with _ | _ <;> rfl) rfl
  | @listed _ _ _ negated _ _ _ _ _ hi _ _ _ ihv _ =>
    exact ihv.before (by rw [hi]; rcases negated with _ | _ <;> rfl) rfl
  | loosen _ ih => exact ih
  | _ => trivial

/-- **An operand is an integer** exactly if its tokens are those of one, parentheses aside. -/
theorem Spells.signedInteger {t : Tier} (h : Spells (.expr t) e ls) (i : Int) :
    SignedInteger (unparenthesized ls) i ↔ e.integer? = some i :=
  h.integerWritten.signed i

end

/-! ### Forms of limits -/

/-- How a limit is written: the runs of tokens of its operands, in the order of the text. -/
inductive LimitForm where
  | count (n : List Lexeme)
  | countOffset (n m : List Lexeme)
  | offsetCount (m n : List Lexeme)

namespace LimitForm

/-- The tokens of a limit. -/
def tokens : LimitForm → List Token
  | count n => .keyword .LIMIT :: n.map Lexeme.token
  | countOffset n m =>
    .keyword .LIMIT :: (n.map Lexeme.token ++ .keyword .OFFSET :: m.map Lexeme.token)
  | offsetCount m n =>
    .keyword .LIMIT :: (m.map Lexeme.token ++ .symbol .comma :: n.map Lexeme.token)

/-- The run of the count. -/
def countRun : LimitForm → List Lexeme
  | count n | countOffset n _ | offsetCount _ n => n

/-- The run of the offset, if there is one. -/
def offsetRun? : LimitForm → Option (List Lexeme)
  | count _ => none
  | countOffset _ m | offsetCount m _ => some m

/-- The runs of the operands, the count first. -/
def runs (form : LimitForm) : List (List Lexeme) := form.countRun :: form.offsetRun?.toList

/-- The other form with the same operands; a limit without an offset has none. -/
def swapped : LimitForm → LimitForm
  | count n => count n
  | countOffset n m => offsetCount m n
  | offsetCount m n => countOffset n m

@[simp] theorem countRun_swapped (form : LimitForm) : form.swapped.countRun = form.countRun := by
  rcases form with _ | _ | _ <;> rfl

@[simp] theorem offsetRun?_swapped (form : LimitForm) :
    form.swapped.offsetRun? = form.offsetRun? := by
  rcases form with _ | _ | _ <;> rfl

/-- The runs of a form write out the operands of a limit. -/
structure Writes (form : LimitForm) (l : LimitClause) : Prop where
  count : Spells (.expr .or) l.count form.countRun
  offset : Option.Rel (Spells (.expr .or)) l.offset form.offsetRun?

variable {form : LimitForm} {l : LimitClause} {ms : List Lexeme}

theorem Writes.swapped (h : form.Writes l) : form.swapped.Writes l where
  count := by
    rw [countRun_swapped]
    exact h.count
  offset := by
    rw [offsetRun?_swapped]
    exact h.offset

theorem writes_of_spells (h : Spells .limit (some l) ms) :
    ∃ form : LimitForm, ms.map Lexeme.token = form.tokens ∧ form.Writes l := by
  cases h with
  | @count w e n hw h =>
    refine ⟨.count n, ?_, h, .none⟩
    rw [List.map_cons, hw]
    rfl
  | @countOffset w o e f n m hw h ho hf =>
    refine ⟨.countOffset n m, ?_, h, .some hf⟩
    rw [List.map_cons, List.map_append, List.map_cons, hw, ho]
    rfl
  | @offsetCount w c e f m n hw h hc hf =>
    refine ⟨.offsetCount m n, ?_, hf, .some h⟩
    rw [List.map_cons, List.map_append, List.map_cons, hw, hc]
    rfl

/-- What a form writes out is spelled by its tokens. -/
theorem Writes.spells (h : form.Writes l) :
    ∃ ms : List Lexeme, ms.map Lexeme.token = form.tokens ∧ Spells .limit (some l) ms := by
  obtain ⟨count, offset, place⟩ := l
  have hcount : Spells (.expr .or) count form.countRun := h.count
  have hoffset : Option.Rel (Spells (.expr .or)) offset form.offsetRun? := h.offset
  obtain ⟨w, hw, rfl⟩ : ∃ w : Lexeme, w.token = .keyword .LIMIT ∧ w.start = place :=
    ⟨⟨.keyword .LIMIT, place, 0⟩, rfl, rfl⟩
  rcases form with n | ⟨n, m⟩ | ⟨m, n⟩
  · cases hoffset
    refine ⟨w :: n, ?_, .count hw hcount⟩
    rw [List.map_cons, hw]
    rfl
  · cases hoffset with
    | some hoffset =>
      refine ⟨w :: (n ++ bare (.keyword .OFFSET) :: m), ?_,
        .countOffset hw hcount rfl hoffset⟩
      rw [List.map_cons, List.map_append, hw]
      rfl
  · cases hoffset with
    | some hoffset =>
      refine ⟨w :: (m ++ bare (.symbol .comma) :: n), ?_, .offsetCount hw hoffset rfl hcount⟩
      rw [List.map_cons, List.map_append, hw]
      rfl

end LimitForm

/-- The limit stands behind the rest of a statement, and any other spelling of it may stand there.
-/
theorem Spells.before_limit {st : Statement} {ls : List Lexeme} (h : Spells .statement st ls) :
    ∃ front ms : List Lexeme, ls = front ++ ms ∧ Spells .limit st.limit ms ∧
      ∀ ms', Spells .limit st.limit ms' → Spells .statement st (front ++ ms') := by
  cases h with
  | @statement s option columns source condition groupCondition orderBy limit os cs fs ws hs bs ms
      hselect ho hc hf hw hh hb hm =>
    refine ⟨s :: (os ++ (cs ++ (fs ++ (ws ++ (hs ++ bs))))), ms, by simp, hm, fun ms' hms' => ?_⟩
    have hstatement := Spells.statement hselect ho hc hf hw hh hb hms'
    simpa using hstatement

end RecordQuery.Grammar
