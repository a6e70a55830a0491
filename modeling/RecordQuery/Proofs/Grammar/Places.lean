import RecordQuery.Proofs.Query.Places
import RecordQuery.Proofs.Runs
import RecordQuery.Query.Reader

/-! # Readers in front of the same tokens

No reader looks at the place of a token except to keep it, so two runs of one reader, in front of
the same tokens at different places, end alike: both fail with one fault at places that stand for
one another, or both give the same tree up to places. There is one lemma for each reader; those that
keep a place, or are given a reader, take two that are related. -/

namespace RecordQuery.Parse

variable {R : Position → Position → Prop} {α β : Type} {P : α → β → Prop}

/-- Readers side by side, in front of the same tokens. -/
abbrev Beside (R : Position → Position → Prop) (P : α → β → Prop) (p : Parse α) (q : Parse β) :
    Prop :=
  SideBySide (Cursor.Kin R) (ParseError.Kin R) P p q

/-! ### Single tokens -/

theorem beside_get {γ δ : Type} {Q : γ → δ → Prop} {f : Cursor → Parse γ} {g : Cursor → Parse δ}
    (h : ∀ c d, c.Kin R d → Beside R Q (f c) (g d)) : Beside R Q (get >>= f) (get >>= g) :=
  SideBySide.get.bind h

theorem beside_fail (fault : ParseFault) {p q : Position} (h : R p q) :
    Beside R P (fail fault p) (fail fault q) := .throw ⟨rfl, h⟩

theorem beside_unexpected (expected : Expected) :
    Beside R P (unexpected expected) (unexpected expected) :=
  beside_get fun c d h => by
    rw [h.token]
    exact beside_fail _ h.start

theorem beside_advance : Beside R Eq advance advance := fun _ _ h => ⟨rfl, h.advance⟩

theorem beside_eat (t : Token) : Beside R Eq (eat t) (eat t) := by
  refine beside_get fun c d h => ?_
  rw [h.token]
  split
  · exact beside_advance.bindEq fun _ => .pure rfl
  · exact .pure rfl

theorem beside_expect (s : Symbol) : Beside R Eq (expect s) (expect s) := by
  refine (beside_eat _).bindEq fun found => ?_
  split
  · exact .pure rfl
  · exact beside_unexpected _

theorem beside_expectKeyword (k : Keyword) : Beside R Eq (expectKeyword k) (expectKeyword k) := by
  refine (beside_eat _).bindEq fun found => ?_
  split
  · exact .pure rfl
  · exact beside_unexpected _

theorem beside_name (role : NameRole) : Beside R Eq (name role) (name role) := by
  refine beside_get fun c d h => ?_
  rw [h.token]
  split
  · exact beside_advance.bindEq fun _ => .pure rfl
  · exact beside_advance.bindEq fun _ => .pure rfl
  · exact beside_fail _ h.start
  · exact beside_unexpected _

theorem beside_label? (role : NameRole) : Beside R Eq (label? role) (label? role) := by
  refine (beside_eat _).bindEq fun found => ?_
  split
  · exact (beside_name role).bindEq fun _ => .pure rfl
  · refine beside_get fun c d h => ?_
    rw [h.token]
    split
    · exact (beside_name role).bindEq fun _ => .pure rfl
    · exact .pure rfl

/-! ### Lists and clauses -/

theorem beside_commaList {p : Parse α} {q : Parse β} (h : Beside R P p q) (n : Nat) :
    Beside R (List.Forall₂ P) (commaList p n) (commaList q n) := by
  induction n with
  | zero => exact h.bind fun a b hab => .pure (.cons hab .nil)
  | succ n ih =>
    refine h.bind fun a b hab => (beside_eat _).bindEq fun found => ?_
    split
    · exact ih.bind fun as bs hs => .pure (.cons hab hs)
    · exact .pure (.cons hab .nil)

theorem beside_separated {p : Parse α} {q : Parse β} (h : Beside R P p q) :
    Beside R (List.Forall₂ P) (separated p) (separated q) :=
  beside_get fun c d hc => by
    rw [hc.length_later]
    exact beside_commaList h _

theorem beside_clause? {p : Parse α} {q : Parse β} (h : Beside R P p q) (k : Keyword) :
    Beside R (Option.Rel P) (clause? k p) (clause? k q) := by
  refine (beside_eat _).bindEq fun found => ?_
  split
  · exact h.bind fun a b hab => .pure (.some hab)
  · exact .pure .none

/-! ### Expressions -/

section

variable {sub sub' : Tier → Parse Expr} {left left' : Expr}

theorem step?_kin {c d : Cursor} (h : c.Kin R d) (t : Tier) : step? t d = step? t c := by
  unfold step?
  rw [h.token, h.peek]

theorem beside_takeStep (h : ∀ t, Beside R (Expr.Kin R) (sub t) (sub' t)) (t : Tier)
    (hl : left.Kin R left') (s : Step) :
    Beside R (Expr.Kin R) (takeStep sub t left s) (takeStep sub' t left' s) := by
  cases s with
  | binary op =>
    refine beside_advance.bindEq fun _ => beside_get fun c d hc => (h _).bind fun r r' hr => ?_
    rw [hr.isStringLiteral]
    split
    · exact (beside_fail (P := fun _ _ => False) _ hc.start).bind fun _ _ h => h.elim
    · next hp =>
      refine .pure (.binary op hl hr fun hop => ?_)
      by_contra hs
      exact hp ⟨hop, by rw [Bool.not_eq_true] at hs; rw [hs]; rfl⟩
  | is =>
    refine beside_advance.bindEq fun _ => (beside_eat _).bindEq fun found => ?_
    split
    · exact .pure (.binary _ hl (.literal _) fun hop => by cases hop <;> contradiction)
    · refine (beside_eat _).bindEq fun found => (h _).bind fun r r' hr => ?_
      refine .pure (.binary _ hl hr fun hop => ?_)
      cases found <;> cases hop <;> contradiction
  | listed negated =>
    refine beside_advance.bindEq fun _ => beside_advance.bindEq fun _ => ?_
    exact (beside_separated (h _)).bind fun items items' hs => (beside_expect _).bindEq fun _ =>
      .pure (.listed negated hl (allKin_of_forall hs))
  | between negated =>
    refine beside_advance.bindEq fun _ => (h _).bind fun low low' hlow => ?_
    exact (beside_expectKeyword _).bindEq fun _ => (h _).bind fun high high' hhigh =>
      .pure (.between negated hl hlow hhigh)
  | nullTest op => exact beside_advance.bindEq fun _ => .pure (.unary op hl)

theorem beside_extend (h : ∀ t, Beside R (Expr.Kin R) (sub t) (sub' t)) (t : Tier) (n : Nat)
    (hl : left.Kin R left') :
    Beside R (Expr.Kin R) (extend sub t n left) (extend sub' t n left') := by
  induction n generalizing left left' with
  | zero => exact .pure hl
  | succ n ih =>
    refine beside_get fun c d hc => ?_
    rw [step?_kin hc]
    split
    · exact .pure hl
    · exact (beside_takeStep h t hl _).bind fun e f he => ih he

theorem beside_signed (h : ∀ t, Beside R (Expr.Kin R) (sub t) (sub' t)) :
    Beside R (Expr.Kin R) (signed sub) (signed sub') := by
  refine beside_get fun c d hc => ?_
  rw [hc.token]
  split
  · exact beside_advance.bindEq fun _ => .pure (.unary _ (.literal _))
  · split
    · exact beside_advance.bindEq fun _ => (h _).bind fun e f he => .pure (.unary _ he)
    · exact h _

theorem beside_furtherParts (n : Nat) : Beside R Eq (furtherParts n) (furtherParts n) := by
  induction n with
  | zero => exact .pure rfl
  | succ n ih =>
    refine beside_get fun c d hc => ?_
    rw [hc.token, hc.peek]
    have hpart : Beside R Eq (do
        advance
        let part ← name .columnName
        return part :: (← furtherParts n)) (do
        advance
        let part ← name .columnName
        return part :: (← furtherParts n)) :=
      beside_advance.bindEq fun _ => (beside_name _).bindEq fun _ => ih.bindEq fun _ => .pure rfl
    split
    · split
      · exact (beside_fail (P := Eq) _ hc.start).bindEq fun _ => hpart
      · exact hpart
    · exact .pure rfl

theorem beside_columnRef : Beside R (Expr.Kin R) columnRef columnRef := by
  refine beside_get fun c d hc => (beside_name _).bindEq fun first => beside_get fun c' d' hc' => ?_
  rw [hc'.length_later]
  refine (beside_furtherParts _).bindEq fun further => ?_
  split
  · exact .pure (.column _)
  · exact .pure (.column _)
  · exact .pure (.column _)
  · exact beside_fail _ hc.start

theorem beside_call (h : ∀ t, Beside R (Expr.Kin R) (sub t) (sub' t)) :
    Beside R (Expr.Kin R) (call sub) (call sub') := by
  refine beside_get fun c d hc => (beside_name _).bindEq fun function => ?_
  refine beside_advance.bindEq fun _ => (beside_eat _).bindEq fun found => ?_
  split
  · exact (beside_expect _).bindEq fun _ => .pure (.callStar _ hc.start)
  · refine beside_get fun c' d' hc' => ?_
    rw [hc'.token]
    have hclose : ∀ args args' : List Expr, AllKin R args args' → Beside R (Expr.Kin R) (do
        expect .rightParen
        return .call function args c.current.start) (do
        expect .rightParen
        return .call function args' d.current.start) := fun args args' hs =>
      (beside_expect _).bindEq fun _ => .pure (.call function hs hc.start)
    split
    · exact hclose [] [] .nil
    · exact (beside_separated (h _)).bind fun args args' hs => hclose _ _ (allKin_of_forall hs)

theorem beside_primary {select : SelectReader} (h : ∀ t, Beside R (Expr.Kin R) (sub t) (sub' t))
    (hs : ∀ p q, Beside R (Expr.Kin R) p q → Beside R (Statement.Kin R) (select p) (select q)) :
    Beside R (Expr.Kin R) (primary select sub) (primary select sub') := by
  refine beside_get fun c d hc => ?_
  dsimp only
  rw [hc.token, hc.peek]
  split
  · exact beside_advance.bindEq fun _ => .pure (.literal _)
  · split
    · exact beside_advance.bindEq fun _ => .pure (.parameter _ hc.start)
    · exact beside_advance.bindEq fun _ => (h _).bind fun e f he => (beside_expect _).bindEq
        fun _ => .pure he
    · exact beside_advance.bindEq fun _ => (beside_expect _).bindEq fun _ => (hs _ _ (h _)).bind
        fun s t _ => (beside_expect _).bindEq fun _ => .pure (.existsRow s t hc.start)
    · split
      · exact beside_call h
      · exact beside_columnRef
    · split
      · exact beside_call h
      · exact beside_columnRef
    · exact beside_fail _ hc.start
    · exact beside_unexpected _

/-- **Reading an expression** in front of the same tokens. -/
theorem beside_tierWithin {select : SelectReader}
    (hs : ∀ p q, Beside R (Expr.Kin R) p q → Beside R (Statement.Kin R) (select p) (select q))
    (n : Nat) (t : Tier) :
    Beside R (Expr.Kin R) (tierWithin select n t) (tierWithin select n t) := by
  induction n generalizing t with
  | zero => exact beside_get fun c d hc => beside_fail _ hc.start
  | succ n ih =>
    have hextend : ∀ t : Tier, Beside R (Expr.Kin R) (do
        let left ← tierWithin select n t.tighter
        extend (tierWithin select n) t (← get).later.length left) (do
        let left ← tierWithin select n t.tighter
        extend (tierWithin select n) t (← get).later.length left) := fun t =>
      (ih _).bind fun left left' hl => beside_get fun c d hc => by
        rw [hc.length_later]
        exact beside_extend ih t _ hl
    cases t with
    | primary => exact beside_primary ih hs
    | sign => exact beside_signed ih
    | _ => exact hextend _

end

/-! ### Statements -/

section

variable {expr expr' : Parse Expr}

theorem beside_resultColumn (h : Beside R (Expr.Kin R) expr expr') :
    Beside R (ResultColumn.Kin R) (resultColumn expr) (resultColumn expr') := by
  refine beside_get fun c d hc => (beside_eat _).bindEq fun found => ?_
  rw [hc.token, hc.peek, hc.third]
  split
  · exact .pure (.star hc.start)
  · have hentry : Beside R (ResultColumn.Kin R) (do
        let e ← expr
        let text := Caption.ofTokens (c.upTo (← get))
        return .expr e (← label? .columnLabel) text c.current.start) (do
        let e ← expr'
        let text := Caption.ofTokens (d.upTo (← get))
        return .expr e (← label? .columnLabel) text d.current.start) :=
      h.bind fun e f he => beside_get fun c' d' hc' => by
        rw [hc.upTo hc']
        exact (beside_label? _).bindEq fun label => .pure (.expr label _ he hc.start)
    split
    · exact (beside_name _).bindEq fun table => beside_advance.bindEq fun _ =>
        beside_advance.bindEq fun _ => .pure (.qualifiedStar table hc.start)
    · exact hentry

theorem beside_fromClause : Beside R Eq fromClause fromClause := by
  refine (beside_name _).bindEq fun first => (beside_eat _).bindEq fun found => ?_
  split
  · exact (beside_name _).bindEq fun _ => (beside_label? _).bindEq fun _ => .pure rfl
  · exact (beside_label? _).bindEq fun _ => .pure rfl

theorem beside_orderingTerm (h : Beside R (Expr.Kin R) expr expr') :
    Beside R (OrderingTerm.Kin R) (orderingTerm expr) (orderingTerm expr') := by
  refine beside_get fun c d hc => h.bind fun e f he => (beside_eat _).bindEq fun found => ?_
  split
  · exact .pure ⟨he, rfl, hc.start⟩
  · refine (beside_eat _).bindEq fun found => ?_
    split <;> exact .pure ⟨he, rfl, hc.start⟩

theorem beside_limitClause (h : Beside R (Expr.Kin R) expr expr') :
    Beside R (LimitClause.Kin R) (limitClause expr) (limitClause expr') := by
  refine beside_get fun c d hc => (beside_expectKeyword _).bindEq fun _ =>
    h.bind fun first first' hf => (beside_eat _).bindEq fun found => ?_
  split
  · exact h.bind fun e f he => .pure ⟨hf, .some he, hc.start⟩
  · refine (beside_eat _).bindEq fun found => ?_
    split
    · exact h.bind fun e f he => .pure ⟨he, .some hf, hc.start⟩
    · exact .pure ⟨hf, .none, hc.start⟩

theorem beside_selectOption : Beside R Eq selectOption selectOption := by
  refine (beside_eat _).bindEq fun found => ?_
  split
  · exact .pure rfl
  · refine (beside_eat _).bindEq fun found => ?_
    split <;> exact .pure rfl

theorem beside_refuseCompound : Beside R Eq refuseCompound refuseCompound := by
  refine beside_get fun c d hc => ?_
  rw [hc.token]
  split
  all_goals first | exact beside_fail _ hc.start | exact .pure rfl

theorem kin_getD {ts us : Option (List OrderingTerm)}
    (h : Option.Rel (List.Forall₂ (OrderingTerm.Kin R)) ts us) :
    List.Forall₂ (OrderingTerm.Kin R) (ts.getD []) (us.getD []) := by
  cases h with
  | none => exact .nil
  | some h => exact h

/-- **Reading a statement** in front of the same tokens. -/
theorem beside_select (h : Beside R (Expr.Kin R) expr expr') :
    Beside R (Statement.Kin R) (select expr) (select expr') := by
  refine (beside_expectKeyword _).bindEq fun _ => beside_selectOption.bindEq fun option => ?_
  refine (beside_separated (beside_resultColumn h)).bind fun columns columns' hcolumns => ?_
  refine (beside_clause? beside_fromClause _).bind fun source source' hsource => ?_
  have hsource : source = source' := by cases hsource <;> simp_all
  refine (beside_clause? h _).bind fun condition condition' hcondition => ?_
  refine beside_get fun c d hc => ?_
  have hrest : Beside R (Statement.Kin R) (do
      let groupCondition ← clause? .HAVING expr
      refuseCompound
      let orderBy ← clause? .ORDER do
        expectKeyword .BY
        separated (orderingTerm expr)
      let limit ← if (← get).token = .keyword .LIMIT then some <$> limitClause expr else pure none
      return ⟨option, columns, source, condition, groupCondition, orderBy.getD [], limit⟩) (do
      let groupCondition ← clause? .HAVING expr'
      refuseCompound
      let orderBy ← clause? .ORDER do
        expectKeyword .BY
        separated (orderingTerm expr')
      let limit ← if (← get).token = .keyword .LIMIT then some <$> limitClause expr' else pure none
      return ⟨option, columns', source', condition', groupCondition, orderBy.getD [], limit⟩) := by
    refine (beside_clause? h _).bind fun group group' hgroup => ?_
    refine beside_refuseCompound.bindEq fun _ => ?_
    have horder : Beside R (List.Forall₂ (OrderingTerm.Kin R)) (do
        expectKeyword .BY
        separated (orderingTerm expr)) (do
        expectKeyword .BY
        separated (orderingTerm expr')) :=
      (beside_expectKeyword _).bindEq fun _ => beside_separated (beside_orderingTerm h)
    refine (beside_clause? horder _).bind fun orderBy orderBy' ho => beside_get fun c d hc => ?_
    rw [hc.token]
    split
    · refine ((beside_limitClause h).map (Q := Option.Rel (LimitClause.Kin R))
        fun l m hl => .some hl).bind fun limit limit' hl => ?_
      exact .pure ⟨rfl, hcolumns, hsource, hcondition, hgroup, kin_getD ho, hl⟩
    · exact .pure ⟨rfl, hcolumns, hsource, hcondition, hgroup, kin_getD ho, .none⟩
  rw [hc.token]
  split
  · exact (beside_fail (P := Eq) _ hc.start).bindEq fun _ => hrest
  · exact hrest

theorem beside_expression : Beside R (Expr.Kin R) expression expression :=
  beside_get fun c d hc => by
    unfold depth
    rw [hc.length_later]
    exact beside_tierWithin (fun _ _ => beside_select) _ .or

theorem beside_query : Beside R (Statement.Kin R) query query := by
  refine (beside_select beside_expression).bind fun s t hst => (beside_eat _).bindEq fun found => ?_
  refine beside_get fun c d hc => ?_
  rw [hc.token]
  split
  · exact .pure hst
  · exact beside_unexpected _

end

/-- **Reading a list of tokens** that stand at different places. -/
theorem beside_onTokens {p : Parse α} {q : Parse β} (h : Beside R P p q) {ls ms : List Lexeme}
    (hls : List.Forall₂ (Lexeme.Kin R) ls ms) (hne : ls ≠ []) :
    ResultsAlike (ParseError.Kin R) P (p.onTokens ls) (q.onTokens ms) := by
  cases hls with
  | nil => exact absurd rfl hne
  | @cons l m ls ms hl hls =>
    have hend := h ⟨l, ls⟩ ⟨m, ms⟩ (.cons hl hls)
    unfold onTokens Cursor.ofTokens?
    dsimp only
    cases hp : p.run ⟨l, ls⟩ <;> cases hq : q.run ⟨m, ms⟩ <;> rw [hp, hq] at hend <;>
      first | exact hend.elim | exact hend.1

end RecordQuery.Parse
