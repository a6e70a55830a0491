import RecordQuery.Proofs.Grammar.Print
import RecordQuery.Proofs.Grammar.Soundness

/-! # The words of an expression

Reading an expression loses nothing, adds nothing, and keeps the order. The words of a tree
(`Expr.words`) are its leaves and operators from left to right, and those of a token
(`Token.words`) are what it says apart from parentheses and quotes: an operator that begins with
`NOT` has two, and so has `NOTNULL`. The words of the tree are those of the tokens that it was read
from (`words_of_read`), for every list of tokens without `EXISTS` that is accepted, fused or not.

* `Passed`: between two cursors stand some words. Such steps go one after another (`Passed.trans`).
* `Accounts`: whatever a reader gives has the words that stand between the cursors. There is one
  lemma for each reader; `accounts_tierWithin` goes by induction on the nested calls. -/

namespace RecordQuery

/-! ### Words -/

/-- The words of a token. -/
def Token.words : Token → List Token
  | .symbol .leftParen | .symbol .rightParen | .endOfInput => []
  | .quotedIdentifier name => [.identifier name]
  | .negated n => [.keyword .NOT, .keyword n.keyword]
  | .keyword .NOTNULL => [.keyword .NOT, .keyword .NULL]
  | t => [t]

/-- The words of an operator of two operands. -/
def BinaryOp.words : BinaryOp → List Token
  | .is => [.keyword .IS]
  | .isNot => [.keyword .IS, .keyword .NOT]
  | op => op.token?.toList.flatMap Token.words

/-- The words of a column: each qualifier with a dot behind it, and the name. -/
def ColumnRef.words (ref : ColumnRef) : List Token :=
  (ref.database.toList ++ ref.table.toList).flatMap (fun q => [.identifier q, .symbol .dot]) ++
    [.identifier ref.column]

mutual

/-- **The words of an expression**: its leaves and operators, as a query has them from left to
right. Those of a nested statement are left out. -/
def Expr.words : Expr → List Token
  | .literal v => [v.token]
  | .column ref => ref.words
  | .parameter p _ => [.parameter p]
  | .unary op e => if op.isTrailing then e.words ++ op.token.words else op.token.words ++ e.words
  | .binary op l r => l.words ++ (op.words ++ r.words)
  | .between negated v low high => v.words ++ ((Grammar.rangeToken negated).words ++
      (low.words ++ .keyword .AND :: high.words))
  | .listed negated v items => v.words ++ ((Grammar.listToken negated).words ++ listWords items)
  | .call name args _ => .identifier name :: listWords args
  | .callStar name _ => [.identifier name, .symbol .star]
  | .existsRow _ _ => [.keyword .EXISTS]

/-- The words of expressions with commas between. -/
def listWords : List Expr → List Token
  | [] => []
  | [e] => e.words
  | e :: es => e.words ++ .symbol .comma :: listWords es

end

theorem listWords_cons {e : Expr} {es : List Expr} (h : es ≠ []) :
    listWords (e :: es) = e.words ++ .symbol .comma :: listWords es := by
  cases es with
  | nil => exact absurd rfl h
  | cons f es => rw [listWords]; exact nofun

theorem Token.words_rightParen : (Token.symbol .rightParen).words = [] := rfl

theorem Literal.words_token (v : Literal) : v.token.words = [v.token] := by
  cases v with
  | boolean b => cases b <;> rfl
  | _ => rfl

theorem Token.words_of_name? {t : Token} {n : String} (h : t.name? = some n) :
    t.words = [.identifier n] := by
  unfold Token.name? at h
  split at h <;> cases h <;> rfl

namespace Cursor

variable {c d e : Cursor} {ws vs : List Token}

/-- The words that are left, up to the end of the input. -/
def words (c : Cursor) : List Token :=
  ((c.current :: c.later).takeWhile fun l => l.token ≠ .endOfInput).flatMap fun l => l.token.words

/-- The end of the input is still to come. -/
def Ends (c : Cursor) : Prop := ∃ l ∈ c.current :: c.later, l.token = .endOfInput

theorem words_of_end (h : c.token = .endOfInput) : c.words = [] := by
  have htake : (c.current :: c.later).takeWhile (fun l => l.token ≠ .endOfInput) = [] :=
    List.takeWhile_cons_of_neg (fun hc => of_decide_eq_true hc h)
  rw [words, htake, List.flatMap_nil]

/-- No `EXISTS` is still to come. -/
def Flat (c : Cursor) : Prop := ∀ l ∈ c.current :: c.later, l.token ≠ .keyword .EXISTS

/-- **Words passed** from one cursor to another one, in front of the end of the input. -/
structure Passed (ws : List Token) (c d : Cursor) : Prop where
  flat : c.Flat → d.Flat
  ends : d.Ends → c.Ends
  words : d.Ends → c.words = ws ++ d.words

theorem Passed.refl (c : Cursor) : Passed [] c c := ⟨id, id, fun _ => rfl⟩

theorem Passed.trans (h : Passed ws c d) (h' : Passed vs d e) : Passed (ws ++ vs) c e where
  flat hc := h'.flat (h.flat hc)
  ends he := h.ends (h'.ends he)
  words he := by rw [h.words (h'.ends he), h'.words he, List.append_assoc]

/-- A token that is passed is in front of the end of the input. -/
theorem Passed.advance (h : c.token ≠ .endOfInput) : Passed c.token.words c c.advance := by
  obtain ⟨l, later⟩ := c
  cases later with
  | nil =>
    have hends : ¬ Ends ⟨l, []⟩ := by
      rintro ⟨m, hm, hend⟩
      rw [List.mem_singleton.mp hm] at hend
      exact h hend
    exact ⟨id, id, fun he => absurd he hends⟩
  | cons m rest =>
    refine ⟨fun hc => (List.forall_mem_cons.mp hc).2, ?_, fun _ => ?_⟩
    · rintro ⟨n, hn, hend⟩
      exact ⟨n, List.mem_cons_of_mem l hn, hend⟩
    · have htake : (l :: m :: rest).takeWhile (fun l => l.token ≠ .endOfInput) =
          l :: (m :: rest).takeWhile (fun l => l.token ≠ .endOfInput) :=
        List.takeWhile_cons_of_pos (decide_eq_true h)
      change ((l :: m :: rest).takeWhile _).flatMap _ = _
      rw [htake, List.flatMap_cons]
      rfl

end Cursor

namespace Parse

open Cursor Grammar

variable {α β : Type} {c c' : Cursor}

/-- A reader that gives what has the words it has passed. -/
def Accounts (w : α → List Token) (p : Parse α) : Prop :=
  ∀ ⦃c a c'⦄, c.Flat → p.run c = .ok a c' → Passed (w a) c c'

/-! ### Single tokens -/

theorem eat_found {k : Token} {found : Bool} (h : (eat k).run c = .ok found c')
    (hk : k ≠ .endOfInput) : found = true ∧ Passed k.words c c' ∨ found = false ∧ c' = c := by
  unfold eat at h
  rw [run_get_bind] at h
  split at h
  · next hc =>
    cases h
    subst hc
    exact .inl ⟨rfl, .advance hk⟩
  · cases h
    exact .inr ⟨rfl, rfl⟩

theorem eat_passed {k : Token} {x y : Parse β} {b : β}
    (h : (eat k >>= fun found => if found = true then x else y).run c = .ok b c')
    (hk : k ≠ .endOfInput) :
    (∃ d, Passed k.words c d ∧ x.run d = .ok b c') ∨ y.run c = .ok b c' := by
  obtain ⟨found, d, hfound, h₁⟩ := bind_ok h
  rcases eat_found hfound hk with ⟨rfl, hd⟩ | ⟨rfl, rfl⟩
  · exact .inl ⟨d, hd, h₁⟩
  · exact .inr h₁

theorem expect_passed {s : Symbol} {u : Unit} (h : (expect s).run c = .ok u c') :
    Passed (Token.symbol s).words c c' := by
  obtain ⟨d, hd, h⟩ | h := eat_passed h nofun
  · cases h
    exact hd
  · cases h

theorem expectKeyword_passed {k : Keyword} {u : Unit} (h : (expectKeyword k).run c = .ok u c') :
    Passed (Token.keyword k).words c c' := by
  obtain ⟨d, hd, h⟩ | h := eat_passed h nofun
  · cases h
    exact hd
  · cases h

theorem name_advance {role : NameRole} {n : String} (h : (name role).run c = .ok n c') :
    c.token.name? = some n ∧ c' = c.advance := by
  unfold name at h
  rw [run_get_bind] at h
  split at h
  · next m hm =>
    cases h
    exact ⟨congrArg Token.name? hm, rfl⟩
  · next m hm =>
    cases h
    exact ⟨congrArg Token.name? hm, rfl⟩
  · cases h
  · cases h

theorem name_passed {role : NameRole} {n : String} (h : (name role).run c = .ok n c') :
    Passed [.identifier n] c c' := by
  obtain ⟨hn, rfl⟩ := name_advance h
  rw [← Token.words_of_name? hn]
  exact .advance fun hend => by rw [hend] at hn; cases hn

theorem advance_symbol {s : Symbol} (h : c.token = .symbol s) :
    Passed (Token.symbol s).words c c.advance :=
  h ▸ .advance (by rw [h]; nofun)

/-- A parenthesis behind a token has no words. -/
theorem advance_peek (h : c.peek = .symbol .leftParen) : Passed [] c.advance c.advance.advance :=
  advance_symbol (c.token_advance.trans h)

/-! ### Lists -/

section

variable {sub : Tier → Parse Expr} {t : Tier} {left e : Expr} {ws : List Token}

/-- A list has an item, so that each comma stands between two of them. -/
theorem commaList_passed {p : Parse Expr} (hp : Accounts Expr.words p) {n : Nat} {es : List Expr}
    (hc : c.Flat) (h : (commaList p n).run c = .ok es c') : es ≠ [] ∧ Passed (listWords es) c c' := by
  induction n generalizing c es with
  | zero =>
    obtain ⟨e, c₁, he, h₁⟩ := bind_ok h
    cases h₁
    exact ⟨List.cons_ne_nil _ _, hp hc he⟩
  | succ n ih =>
    obtain ⟨e, c₁, he, h₁⟩ := bind_ok h
    have hfirst := hp hc he
    obtain ⟨d, hcomma, h₂⟩ | h₂ := eat_passed h₁ nofun
    · obtain ⟨rest, c₂, hrest, h₃⟩ := bind_ok h₂
      cases h₃
      obtain ⟨hne, hlist⟩ := ih (hcomma.flat (hfirst.flat hc)) hrest
      refine ⟨List.cons_ne_nil _ _, ?_⟩
      rw [listWords_cons hne]
      exact hfirst.trans (hcomma.trans hlist)
    · cases h₂
      exact ⟨List.cons_ne_nil _ _, hfirst⟩

theorem Accounts.separated {p : Parse Expr} (hp : Accounts Expr.words p) :
    Accounts listWords (separated p) :=
  fun _ _ _ hc h => (commaList_passed hp hc h).2

/-! ### Steps -/

theorem words_of_token? {op : BinaryOp} {k : Token} (h : op.token? = some k) :
    k.words = op.words := by
  cases op with
  | is | isNot => cases h
  | _ =>
    obtain rfl := Option.some.inj h
    rfl

theorem trailing?_token {k : Token} {op : UnaryOp} (h : UnaryOp.trailing? k = some op) :
    op.isTrailing = true ∧ k.words = op.token.words ∧ k ≠ .endOfInput := by
  unfold UnaryOp.trailing? at h
  split at h <;> cases h <;> exact ⟨rfl, rfl, nofun⟩

theorem leading?_token {k : Token} {op : UnaryOp} (h : UnaryOp.leading? k = some op) :
    op.isTrailing = false ∧ op.token = k ∧ k ≠ .endOfInput := by
  unfold UnaryOp.leading? at h
  split at h <;> cases h <;> exact ⟨rfl, rfl, nofun⟩

/-- What is read as the right operand of an operator, or as the operands of another step. -/
theorem takeStep_binary_passed {op : BinaryOp} (hsub : ∀ t, Accounts Expr.words (sub t))
    (hc : c.Flat) (hs : Stands t c (.binary op))
    (h : (takeStep sub t left (.binary op)).run c = .ok e c') :
    ∃ ws, Passed ws c c' ∧ e.words = left.words ++ ws := by
  obtain ⟨-, hop, -⟩ := hs
  have hadvance : Passed op.words c c.advance :=
    words_of_token? hop ▸ .advance fun hk => by rw [hk] at hop; cases op <;> cases hop
  unfold takeStep at h
  rw [run_advance_bind, run_get_bind] at h
  obtain ⟨r, c₁, hright, h₁⟩ := bind_ok h
  have hoperand := hsub _ (hadvance.flat hc) hright
  split at h₁
  · cases h₁
  · cases h₁
    exact ⟨_, hadvance.trans hoperand, rfl⟩

theorem takeStep_is_passed (hsub : ∀ t, Accounts Expr.words (sub t)) (hc : c.Flat)
    (hs : Stands t c .is) (h : (takeStep sub t left .is).run c = .ok e c') :
    ∃ ws, Passed ws c c' ∧ e.words = left.words ++ ws := by
  obtain ⟨-, his⟩ := hs
  have hadvance : Passed [.keyword .IS] c c.advance := by
    have := Passed.advance (c := c) (by rw [his]; nofun)
    rwa [his] at this
  unfold takeStep at h
  rw [run_advance_bind] at h
  obtain ⟨d, hnull, h₁⟩ | h₁ := eat_passed h nofun
  · cases h₁
    exact ⟨_, hadvance.trans hnull, rfl⟩
  · obtain ⟨found, c₁, hfound, h₂⟩ := bind_ok h₁
    obtain ⟨r, c₂, hright, h₃⟩ := bind_ok h₂
    cases h₃
    rcases eat_found hfound nofun with ⟨rfl, hnot⟩ | ⟨rfl, rfl⟩
    · have hboth := hadvance.trans hnot
      exact ⟨_, hboth.trans (hsub _ (hboth.flat hc) hright), rfl⟩
    · exact ⟨_, hadvance.trans (hsub _ (hadvance.flat hc) hright), rfl⟩

theorem takeStep_listed_passed {negated : Bool} (hsub : ∀ t, Accounts Expr.words (sub t))
    (hc : c.Flat) (hs : Stands t c (.listed negated))
    (h : (takeStep sub t left (.listed negated)).run c = .ok e c') :
    ∃ ws, Passed ws c c' ∧ e.words = left.words ++ ws := by
  obtain ⟨-, hin, hparen⟩ := hs
  have hadvance : Passed (listToken negated).words c c.advance :=
    hin ▸ .advance (by rw [hin]; cases negated <;> nofun)
  have hopen : Passed [] c.advance c.advance.advance := advance_peek hparen
  unfold takeStep at h
  rw [run_advance_bind, run_advance_bind] at h
  obtain ⟨items, c₁, hitems, h₁⟩ := bind_ok h
  have hbefore := hadvance.trans hopen
  have hlist := (hsub .or).separated (hbefore.flat hc) hitems
  obtain ⟨u, c₂, hclose, h₂⟩ := bind_ok h₁
  have hall := hbefore.trans (hlist.trans (expect_passed hclose))
  cases h₂
  refine ⟨_, hall, ?_⟩
  simp only [Token.words_rightParen, List.append_nil]
  rfl

theorem takeStep_between_passed {negated : Bool} (hsub : ∀ t, Accounts Expr.words (sub t))
    (hc : c.Flat) (hs : Stands t c (.between negated))
    (h : (takeStep sub t left (.between negated)).run c = .ok e c') :
    ∃ ws, Passed ws c c' ∧ e.words = left.words ++ ws := by
  obtain ⟨-, hbetween⟩ := hs
  have hadvance : Passed (rangeToken negated).words c c.advance :=
    hbetween ▸ .advance (by rw [hbetween]; cases negated <;> nofun)
  unfold takeStep at h
  rw [run_advance_bind] at h
  obtain ⟨low, c₁, hlow, h₁⟩ := bind_ok h
  have hlower := hsub _ (hadvance.flat hc) hlow
  obtain ⟨u, c₂, hand, h₂⟩ := bind_ok h₁
  have hboth := hadvance.trans (hlower.trans (expectKeyword_passed hand))
  obtain ⟨high, c₃, hhigh, h₃⟩ := bind_ok h₂
  have hupper := hsub _ (hboth.flat hc) hhigh
  cases h₃
  refine ⟨_, hboth.trans hupper, ?_⟩
  simp only [List.append_assoc]
  rfl

/-- A step adds the words behind those of its operand. -/
theorem takeStep_passed {s : Step} (hsub : ∀ t, Accounts Expr.words (sub t)) (hc : c.Flat)
    (hs : Stands t c s) (h : (takeStep sub t left s).run c = .ok e c') :
    ∃ ws, Passed ws c c' ∧ e.words = left.words ++ ws := by
  cases s with
  | binary op => exact takeStep_binary_passed hsub hc hs h
  | is => exact takeStep_is_passed hsub hc hs h
  | listed negated => exact takeStep_listed_passed hsub hc hs h
  | between negated => exact takeStep_between_passed hsub hc hs h
  | nullTest op =>
    obtain ⟨-, hop⟩ := hs
    obtain ⟨htrailing, hwords, hend⟩ := trailing?_token hop
    cases h
    exact ⟨op.token.words, hwords ▸ .advance hend, if_pos htrailing⟩

theorem extend_passed {n : Nat} (hsub : ∀ t, Accounts Expr.words (sub t)) (hc : c.Flat)
    (h : (extend sub t n left).run c = .ok e c') :
    ∃ ws, Passed ws c c' ∧ e.words = left.words ++ ws := by
  have hstop : ∃ ws, Passed ws c c ∧ left.words = left.words ++ ws :=
    ⟨[], .refl c, (List.append_nil _).symm⟩
  induction n generalizing left c with
  | zero =>
    cases h
    exact hstop
  | succ n ih =>
    unfold extend at h
    rw [run_get_bind] at h
    split at h
    · cases h
      exact hstop
    · next s hs =>
      obtain ⟨f, c₁, hstep, h₁⟩ := bind_ok h
      obtain ⟨ws, hws, hf⟩ := takeStep_passed hsub hc (stands_of_step? hs) hstep
      obtain ⟨vs, hvs, he⟩ := ih (hws.flat hc) h₁ ⟨[], .refl c₁, (List.append_nil _).symm⟩
      exact ⟨ws ++ vs, hws.trans hvs, by rw [he, hf, List.append_assoc]⟩

/-! ### Operands -/

theorem accounts_signed (hsub : ∀ t, Accounts Expr.words (sub t)) :
    Accounts Expr.words (signed sub) := by
  intro c e c' hc h
  unfold signed at h
  rw [run_get_bind] at h
  split at h
  · next hk =>
    cases h
    have hadvance : Passed c.token.words c c.advance := .advance (by rw [hk]; nofun)
    rw [hk] at hadvance
    exact hadvance
  · split at h
    · next op hop =>
      obtain ⟨htrailing, htoken, hend⟩ := leading?_token hop
      have hadvance : Passed op.token.words c c.advance := htoken ▸ .advance hend
      rw [run_advance_bind] at h
      obtain ⟨e, c₁, he, h₁⟩ := bind_ok h
      cases h₁
      have hwords : (Expr.unary op e).words = op.token.words ++ e.words :=
        if_neg (by rw [htrailing]; exact Bool.false_ne_true)
      rw [hwords]
      exact hadvance.trans (hsub _ (hadvance.flat hc) he)
    · exact hsub _ hc h

/-- The words of further parts of a qualified name, each with a dot in front. -/
theorem furtherParts_passed {n : Nat} {parts : List String}
    (h : (furtherParts n).run c = .ok parts c') :
    Passed (parts.flatMap fun part => [.symbol .dot, .identifier part]) c c' := by
  induction n generalizing c parts with
  | zero =>
    cases h
    exact .refl _
  | succ n ih =>
    unfold furtherParts at h
    rw [run_get_bind] at h
    split at h
    · next hdot =>
      split at h
      · cases h
      · have hadvance : Passed [.symbol .dot] c c.advance := advance_symbol hdot
        rw [run_advance_bind] at h
        obtain ⟨part, c₁, hpart, h₁⟩ := bind_ok h
        obtain ⟨rest, c₂, hrest, h₂⟩ := bind_ok h₁
        cases h₂
        exact (hadvance.trans (name_passed hpart)).trans (ih hrest)
    · cases h
      exact .refl _

theorem accounts_columnRef : Accounts Expr.words columnRef := by
  intro c e c' _ h
  unfold columnRef at h
  rw [run_get_bind] at h
  obtain ⟨first, c₁, hfirst, h₁⟩ := bind_ok h
  rw [run_get_bind] at h₁
  obtain ⟨further, c₂, hfurther, h₂⟩ := bind_ok h₁
  have hall := (name_passed hfirst).trans (furtherParts_passed hfurther)
  split at h₂ <;> cases h₂ <;> exact hall

theorem call_passed (hsub : ∀ t, Accounts Expr.words (sub t)) {c : Cursor} (hc : c.Flat)
    (hparen : c.peek = .symbol .leftParen) (h : (call sub).run c = .ok e c') :
    Passed e.words c c' := by
  unfold call at h
  rw [run_get_bind] at h
  obtain ⟨function, c₁, hfunction, h₁⟩ := bind_ok h
  obtain ⟨-, rfl⟩ := name_advance hfunction
  have hopen := (name_passed hfunction).trans (advance_peek hparen)
  rw [run_advance_bind] at h₁
  obtain ⟨d, hstar, h₂⟩ | h₂ := eat_passed h₁ nofun
  · obtain ⟨u, c₂, hclose, h₃⟩ := bind_ok h₂
    cases h₃
    exact hopen.trans (hstar.trans (expect_passed hclose))
  · -- The arguments, if there are any, and the closing parenthesis.
    have hfinish : ∀ {args : List Expr} {d : Cursor}, Passed (listWords args) c.advance.advance d →
        (do
          expect .rightParen
          return Expr.call function args c.current.start : Parse Expr).run d = .ok e c' →
        Passed e.words c c' := by
      intro args d hargs h
      obtain ⟨u, c₂, hclose, h₃⟩ := bind_ok h
      cases h₃
      have hall := hopen.trans (hargs.trans (expect_passed hclose))
      simp only [Token.words_rightParen, List.append_nil] at hall
      exact hall
    rw [run_get_bind] at h₂
    split at h₂
    · exact @hfinish [] _ (.refl _) h₂
    · obtain ⟨args, c₂, hargs, h₃⟩ := bind_ok h₂
      exact hfinish ((hsub .or).separated (hopen.flat hc) hargs) h₃

theorem accounts_primary {select : SelectReader} (hsub : ∀ t, Accounts Expr.words (sub t)) :
    Accounts Expr.words (primary select sub) := by
  intro c e c' hc h
  unfold primary at h
  rw [run_get_bind] at h
  dsimp only at h
  split at h
  · next v hv =>
    cases h
    have htoken := token_of_literal? hv
    have hend : c.token ≠ .endOfInput := fun hk => by rw [hk] at hv; cases hv
    have hadvance : Passed c.token.words c c.advance := .advance hend
    rw [htoken, v.words_token] at hadvance
    exact hadvance
  · split at h
    · next p hp =>
      cases h
      have hadvance : Passed c.token.words c c.advance := .advance (by rw [hp]; nofun)
      rw [hp] at hadvance
      exact hadvance
    · next ho =>
      have hopen : Passed [] c c.advance := advance_symbol ho
      rw [run_advance_bind] at h
      obtain ⟨f, c₁, hf, h₁⟩ := bind_ok h
      obtain ⟨u, c₂, hclose, h₂⟩ := bind_ok h₁
      cases h₂
      have hall := hopen.trans ((hsub _ (hopen.flat hc) hf).trans (expect_passed hclose))
      rwa [List.nil_append, Token.words_rightParen, List.append_nil] at hall
    · next hx => exact absurd hx (hc c.current List.mem_cons_self)
    · split at h
      · next hparen => exact call_passed hsub hc hparen h
      · exact accounts_columnRef hc h
    · split at h
      · next hparen => exact call_passed hsub hc hparen h
      · exact accounts_columnRef hc h
    · cases h
    · cases h

/-- **What is read as an expression** has the words that were passed. -/
theorem accounts_tierWithin (select : SelectReader) (n : Nat) (t : Tier) :
    Accounts Expr.words (tierWithin select n t) := by
  induction n generalizing t with
  | zero =>
    intro c e c' _ h
    cases h
  | succ n ih =>
    have hextend : ∀ t : Tier, Accounts Expr.words (do
        let left ← tierWithin select n t.tighter
        extend (tierWithin select n) t (← get).later.length left) := by
      intro t c e c' hc h
      obtain ⟨left, c₁, hleft, h₁⟩ := bind_ok h
      have hoperand := ih _ hc hleft
      obtain ⟨ws, hws, he⟩ := extend_passed ih (hoperand.flat hc) h₁
      rw [he]
      exact hoperand.trans hws
    cases t with
    | primary => exact accounts_primary ih
    | sign => exact accounts_signed ih
    | _ => exact hextend _

end

theorem accounts_expression : Accounts Expr.words expression := by
  intro c e c' hc h
  unfold expression at h
  rw [run_get_bind] at h
  exact accounts_tierWithin select (depth c) .or hc h

/-- **Nothing is lost, added or moved**: the words of an expression are those of the tokens that it
was read from, up to the end of the input. -/
theorem words_of_read {ls : List Lexeme} {e : Expr}
    (hflat : ∀ l ∈ ls, l.token ≠ .keyword .EXISTS) (h : wholeExpression.onTokens ls = .ok e) :
    e.words = (ls.takeWhile fun l => l.token ≠ .endOfInput).flatMap fun l => l.token.words := by
  cases ls with
  | nil => cases h
  | cons l ls =>
    unfold onTokens at h
    simp only [ofTokens?] at h
    split at h
    · next hrun =>
      cases h
      obtain ⟨f, c₁, hf, h₁⟩ := bind_ok hrun
      have hpassed := accounts_expression (c := ⟨l, ls⟩) hflat hf
      rw [run_get_bind] at h₁
      split at h₁
      · next hend =>
        cases h₁
        have hnone := words_of_end hend
        have hwords := hpassed.words ⟨_, List.mem_cons_self, hend⟩
        rw [hnone, List.append_nil] at hwords
        exact hwords.symm
      · cases h₁
    · cases h

/-- Both uses of `NOT NULL` behind an operand, a list behind `NOT IN`, and parentheses. -/
theorem words_of_read_not_null : ∃ ls e,
    tokenize "(a NOTNULL IS NOT NULL) NOT IN (\"b\".c, f(2))" = .ok ls ∧
    wholeExpression.onTokens ls = .ok e ∧
    e.words = [.identifier "a", .keyword .NOT, .keyword .NULL, .keyword .IS, .keyword .NOT,
      .keyword .NULL, .keyword .NOT, .keyword .IN, .identifier "b", .symbol .dot, .identifier "c",
      .symbol .comma, .identifier "f", .number (.integer 2)] := by
  obtain ⟨ls, hls, hread⟩ := ok_of_any
    (r := tokenize "(a NOTNULL IS NOT NULL) NOT IN (\"b\".c, f(2))")
    (p := fun ls => decide (∀ l ∈ ls, l.token ≠ .keyword .EXISTS) &&
      (wholeExpression.onTokens ls).toOption.any (fun _ => true) &&
      ((ls.takeWhile fun l => l.token ≠ .endOfInput).flatMap fun l => l.token.words) =
        [.identifier "a", .keyword .NOT, .keyword .NULL, .keyword .IS, .keyword .NOT,
          .keyword .NULL, .keyword .NOT, .keyword .IN, .identifier "b", .symbol .dot,
          .identifier "c", .symbol .comma, .identifier "f", .number (.integer 2)])
    (by decide +kernel)
  simp only [Bool.and_eq_true, decide_eq_true_eq] at hread
  obtain ⟨⟨hflat, hparse⟩, hwords⟩ := hread
  obtain ⟨e, he, -⟩ := ok_of_any hparse
  exact ⟨ls, e, hls, he, (words_of_read hflat he).trans hwords⟩

end Parse

end RecordQuery
