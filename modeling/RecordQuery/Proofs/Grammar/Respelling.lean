import Mathlib.Data.List.Forall2
import RecordQuery.Proofs.Grammar.Neighbours
import RecordQuery.Proofs.Grammar.RoundTrip
import RecordQuery.Proofs.Query.Captions
import RecordQuery.Proofs.Query.Parameters

/-! # Spellings with one caption

Tokens that are the same up to places and the values of numbers spell trees that are
(`Spells.respell`). An expression has one spelling with each of its runs of tokens, and the tokens
of an expression are neat (`Spells.neat`), so expressions with one caption are the same up to places
and numbers with one text (`same_of_caption`). Nested statements are left out, since no program can
express them. -/

namespace RecordQuery

/-! ### Trees up to places and the values of numbers -/

mutual

/-- Expressions that are the same up to places and numbers with one text. -/
inductive Expr.Same : Expr → Expr → Prop
  | literal (v : Literal) : Expr.Same (.literal v) (.literal v)
  | number {m n : Number} (h : m.text = n.text) :
      Expr.Same (.literal (.number m)) (.literal (.number n))
  | column (ref : ColumnRef) : Expr.Same (.column ref) (.column ref)
  | parameter (p : Parameter) (q r : Position) : Expr.Same (.parameter p q) (.parameter p r)
  | unary (op : UnaryOp) {e f : Expr} (h : Expr.Same e f) : Expr.Same (.unary op e) (.unary op f)
  | binary (op : BinaryOp) {l l' r r' : Expr} (hl : Expr.Same l l') (hr : Expr.Same r r') :
      Expr.Same (.binary op l r) (.binary op l' r')
  | between (negated : Bool) {v v' low low' high high' : Expr} (hv : Expr.Same v v')
      (hl : Expr.Same low low') (hh : Expr.Same high high') :
      Expr.Same (.between negated v low high) (.between negated v' low' high')
  | listed (negated : Bool) {v v' : Expr} {items items' : List Expr} (hv : Expr.Same v v')
      (hs : AllSame items items') : Expr.Same (.listed negated v items) (.listed negated v' items')
  | call (name : String) {args args' : List Expr} (p q : Position) (hs : AllSame args args') :
      Expr.Same (.call name args p) (.call name args' q)
  | callStar (name : String) (p q : Position) : Expr.Same (.callStar name p) (.callStar name q)

/-- Lists of expressions that are the same up to places and numbers with one text. -/
inductive AllSame : List Expr → List Expr → Prop
  | nil : AllSame [] []
  | cons {e f : Expr} {es fs : List Expr} (h : Expr.Same e f) (hs : AllSame es fs) :
      AllSame (e :: es) (f :: fs)

end

theorem Expr.Same.isStringLiteral {e f : Expr} (h : e.Same f) :
    Parse.isStringLiteral f = Parse.isStringLiteral e := by
  cases h <;> rfl

/-- The same token up to its place and the value of a number. -/
def Lexeme.Same (l m : Lexeme) : Prop := l.token.Same m.token

theorem Lexeme.Same.eq {l m : Lexeme} {k : Token} (h : l.Same m) (hl : l.token = k)
    (hk : ∀ n, k ≠ .number n) : m.token = k :=
  Token.Same.keeps (P := fun t => t = k) h (fun n hn => hk n hn.symm) hl

theorem Lexeme.Same.name {l m : Lexeme} {n : String} (h : l.Same m)
    (hl : l.token.name? = some n) : m.token.name? = some n := h.name?_eq.trans hl

namespace Grammar

/-! ### Runs of tokens side by side -/

theorem exists_of_forall₂_append {α β : Type} {R : α → β → Prop} {ls rs : List α} {ms : List β}
    (h : List.Forall₂ R (ls ++ rs) ms) :
    ∃ ls' rs', ms = ls' ++ rs' ∧ List.Forall₂ R ls ls' ∧ List.Forall₂ R rs rs' := by
  induction ls generalizing ms with
  | nil => exact ⟨[], ms, rfl, .nil, h⟩
  | cons l ls ih =>
    cases h with
    | @cons _ m _ ms hl hs =>
      obtain ⟨ls', rs', rfl, hls, hrs⟩ := ih hs
      exact ⟨m :: ls', rs', rfl, .cons hl hls, hrs⟩

theorem exists_of_forall₂_cons {α β : Type} {R : α → β → Prop} {l : α} {ls : List α} {ms : List β}
    (h : List.Forall₂ R (l :: ls) ms) : ∃ m ms', ms = m :: ms' ∧ R l m ∧ List.Forall₂ R ls ms' := by
  cases h with
  | cons hl hs => exact ⟨_, _, rfl, hl, hs⟩

theorem exists_of_forall₂_one {α β : Type} {R : α → β → Prop} {l : α} {ms : List β}
    (h : List.Forall₂ R [l] ms) : ∃ m, ms = [m] ∧ R l m := by
  obtain ⟨m, ms, rfl, hm, hs⟩ := exists_of_forall₂_cons h
  cases hs
  exact ⟨m, rfl, hm⟩

variable {l m o : Lexeme} {ls ms rs : List Lexeme} {k : Token} {e f : Expr}

theorem begins_same (h : List.Forall₂ Lexeme.Same ls ms) (hk : ∀ n, k ≠ .number n)
    (hm : Begins k ms) : Begins k ls := by
  cases h with
  | nil => exact hm
  | cons hl _ => exact begins_cons.mpr (Lexeme.Same.eq hl.symm (begins_cons.mp hm) hk)

/-! ### Spellings -/

theorem SpellsRef.respell {ref : ColumnRef} (h : SpellsRef ref ls)
    (hs : List.Forall₂ Lexeme.Same ls ms) : SpellsRef ref ms := by
  cases h with
  | bare h =>
    obtain ⟨l', rfl, hl⟩ := exists_of_forall₂_one hs
    exact .bare (hl.name h)
  | table hl hd hm =>
    obtain ⟨l', _, rfl, hl', hs⟩ := exists_of_forall₂_cons hs
    obtain ⟨d', _, rfl, hd', hs⟩ := exists_of_forall₂_cons hs
    obtain ⟨m', rfl, hm'⟩ := exists_of_forall₂_one hs
    exact .table (hl'.name hl) (hd'.eq hd nofun) (hm'.name hm)
  | database hl hd hm he ho =>
    obtain ⟨l', _, rfl, hl', hs⟩ := exists_of_forall₂_cons hs
    obtain ⟨d', _, rfl, hd', hs⟩ := exists_of_forall₂_cons hs
    obtain ⟨m', _, rfl, hm', hs⟩ := exists_of_forall₂_cons hs
    obtain ⟨e', _, rfl, he', hs⟩ := exists_of_forall₂_cons hs
    obtain ⟨o', rfl, ho'⟩ := exists_of_forall₂_one hs
    exact .database (hl'.name hl) (hd'.eq hd nofun) (hm'.name hm) (he'.eq he nofun) (ho'.name ho)

theorem respell_literal {v : Literal} (h : l.token = v.token) (hlm : l.Same m) :
    ∃ w : Literal, m.token = w.token ∧ (Expr.literal v).Same (.literal w) := by
  unfold Lexeme.Same at hlm
  cases hm : m.token with
  | number n =>
    rw [h, hm] at hlm
    rcases v with k | _ | _ | b | _ | _ | _ | _
    · refine ⟨.number n, rfl, ?_⟩
      cases hlm with
      | refl => exact .literal _
      | number htext => exact .number htext
    · cases hlm
    · cases hlm
    · cases b <;> cases hlm
    all_goals cases hlm
  | _ =>
    have hkeep : l.token = m.token :=
      Token.Same.keeps (P := fun t => t = m.token) hlm.symm (fun n hn => by rw [hm] at hn; cases hn)
        rfl
    exact ⟨v, by rw [← hm, ← hkeep, h], .literal v⟩

theorem admits_same {op : BinaryOp} (h : e.Same f) (hs : List.Forall₂ Lexeme.Same ls ms)
    (ha : Admits op e ls) : Admits op f ms := by
  cases op with
  | like | notLike => exact h.isStringLiteral.trans ha
  | membership | notMembership => exact fun hb => ha (begins_same hs nofun hb)
  | _ => trivial

/-- What the same tokens spell, for the kinds that are expressions. -/
def Respells : (k : Kind) → k.Value → List Lexeme → Prop
  | .expr t, e, ls => e.Flat → ∀ ms, List.Forall₂ Lexeme.Same ls ms →
      ∃ f, Spells (.expr t) f ms ∧ e.Same f
  | .item .expression, e, ls => Expr.Flat e → ∀ ms, List.Forall₂ Lexeme.Same ls ms →
      ∃ f, Spells (.item .expression) f ms ∧ Expr.Same e f
  | .list .expression, es, ls => AllFlat es → ∀ ms, List.Forall₂ Lexeme.Same ls ms →
      ∃ fs, Spells (.list .expression) fs ms ∧ AllSame es fs
  | _, _, _ => True

/-- **The same tokens** spell the same tree, up to places and numbers with one text. -/
theorem Spells.respell {k : Kind} {a : k.Value} (h : Spells k a ls) : Respells k a ls := by
  induction h with
  | literal h =>
    rintro - ms hs
    obtain ⟨m, rfl, hm⟩ := exists_of_forall₂_one hs
    obtain ⟨w, hw, hsame⟩ := respell_literal h hm
    exact ⟨_, .literal hw, hsame⟩
  | parameter h =>
    rintro - ms hs
    obtain ⟨m, rfl, hm⟩ := exists_of_forall₂_one hs
    exact ⟨_, .parameter (hm.eq h nofun), .parameter _ _ _⟩
  | column h =>
    rintro - ms hs
    exact ⟨_, .column (h.respell hs), .column _⟩
  | group ho _ hc ih =>
    rintro hflat ms hs
    obtain ⟨o', _, rfl, ho', hs⟩ := exists_of_forall₂_cons hs
    obtain ⟨ms, _, rfl, hbody, hlast⟩ := exists_of_forall₂_append hs
    obtain ⟨c', rfl, hc'⟩ := exists_of_forall₂_one hlast
    obtain ⟨f, hf, hsame⟩ := ih hflat ms hbody
    exact ⟨f, .group (ho'.eq ho nofun) hf (hc'.eq hc nofun), hsame⟩
  | callStar hf ho hs hc =>
    rintro - ms h
    obtain ⟨f', _, rfl, hf', h⟩ := exists_of_forall₂_cons h
    obtain ⟨o', _, rfl, ho', h⟩ := exists_of_forall₂_cons h
    obtain ⟨s', _, rfl, hs', h⟩ := exists_of_forall₂_cons h
    obtain ⟨c', rfl, hc'⟩ := exists_of_forall₂_one h
    exact ⟨_, .callStar (hf'.name hf) (ho'.eq ho nofun) (hs'.eq hs nofun) (hc'.eq hc nofun),
      .callStar _ _ _⟩
  | callNone hf ho hc =>
    rintro - ms hs
    obtain ⟨f', _, rfl, hf', hs⟩ := exists_of_forall₂_cons hs
    obtain ⟨o', _, rfl, ho', hs⟩ := exists_of_forall₂_cons hs
    obtain ⟨c', rfl, hc'⟩ := exists_of_forall₂_one hs
    exact ⟨_, .callNone (hf'.name hf) (ho'.eq ho nofun) (hc'.eq hc nofun), .call _ _ _ .nil⟩
  | call hf ho _ hc ih =>
    rintro hflat ms hs
    obtain ⟨f', _, rfl, hf', hs⟩ := exists_of_forall₂_cons hs
    obtain ⟨o', _, rfl, ho', hs⟩ := exists_of_forall₂_cons hs
    obtain ⟨ms, _, rfl, hbody, hlast⟩ := exists_of_forall₂_append hs
    obtain ⟨c', rfl, hc'⟩ := exists_of_forall₂_one hlast
    obtain ⟨fs, hfs, hsame⟩ := ih hflat ms hbody
    exact ⟨_, .call (hf'.name hf) (ho'.eq ho nofun) hfs (hc'.eq hc nofun), .call _ _ _ hsame⟩
  | existsRow => exact fun hflat => hflat.elim
  | notNull h =>
    rintro - ms hs
    obtain ⟨m, rfl, hm⟩ := exists_of_forall₂_one hs
    exact ⟨_, .notNull (hm.eq h nofun), .unary _ (.literal _)⟩
  | leading ho _ hn ih =>
    rintro hflat ms hs
    obtain ⟨o', ms, rfl, ho', hs⟩ := exists_of_forall₂_cons hs
    obtain ⟨f, hf, hsame⟩ := ih hflat ms hs
    have hop := Token.Same.keeps (P := fun t => UnaryOp.leading? t = some _) ho' nofun ho
    exact ⟨_, .leading hop hf fun h hb => hn h (begins_same hs nofun hb), .unary _ hsame⟩
  | trailing _ ho ih =>
    rintro hflat ms hs
    obtain ⟨ms, _, rfl, hbody, hlast⟩ := exists_of_forall₂_append hs
    obtain ⟨o', rfl, ho'⟩ := exists_of_forall₂_one hlast
    obtain ⟨f, hf, hsame⟩ := ih hflat ms hbody
    have hop := Token.Same.keeps (P := fun t => UnaryOp.trailing? t = some _) ho' nofun ho
    exact ⟨_, .trailing hf hop, .unary _ hsame⟩
  | @operator op o _ _ _ _ _ ho _ ha ihl ihr =>
    rintro hflat ms hs
    obtain ⟨ls', _, rfl, hls, hs⟩ := exists_of_forall₂_append hs
    obtain ⟨o', rs', rfl, ho', hrs⟩ := exists_of_forall₂_cons hs
    obtain ⟨f, hf, hsame⟩ := ihl hflat.1 ls' hls
    obtain ⟨g, hg, hsame'⟩ := ihr hflat.2 rs' hrs
    have hop := Token.Same.keeps (P := fun t => op.token? = some t) ho'
      (fun n hn => by cases op <;> cases hn) ho
    exact ⟨_, .operator hf hop hg (admits_same hsame' hrs ha), .binary _ hsame hsame'⟩
  | is _ hi _ hn hn' ihl ihr =>
    rintro hflat ms hs
    obtain ⟨ls', _, rfl, hls, hs⟩ := exists_of_forall₂_append hs
    obtain ⟨i', rs', rfl, hi', hrs⟩ := exists_of_forall₂_cons hs
    obtain ⟨f, hf, hsame⟩ := ihl hflat.1 ls' hls
    obtain ⟨g, hg, hsame'⟩ := ihr hflat.2 rs' hrs
    exact ⟨_, .is hf (hi'.eq hi nofun) hg (fun hb => hn (begins_same hrs nofun hb))
      (fun hb => hn' (begins_same hrs nofun hb)), .binary _ hsame hsame'⟩
  | isNot _ hi hn _ hb ihl ihr =>
    rintro hflat ms hs
    obtain ⟨ls', _, rfl, hls, hs⟩ := exists_of_forall₂_append hs
    obtain ⟨i', _, rfl, hi', hs⟩ := exists_of_forall₂_cons hs
    obtain ⟨n', rs', rfl, hn', hrs⟩ := exists_of_forall₂_cons hs
    obtain ⟨f, hf, hsame⟩ := ihl hflat.1 ls' hls
    obtain ⟨g, hg, hsame'⟩ := ihr hflat.2 rs' hrs
    exact ⟨_, .isNot hf (hi'.eq hi nofun) (hn'.eq hn nofun) hg
      (fun h => hb (begins_same hrs nofun h)), .binary _ hsame hsame'⟩
  | isNotNull _ hi hn ihl =>
    rintro hflat ms hs
    obtain ⟨ls', _, rfl, hls, hs⟩ := exists_of_forall₂_append hs
    obtain ⟨i', _, rfl, hi', hs⟩ := exists_of_forall₂_cons hs
    obtain ⟨n', rfl, hn'⟩ := exists_of_forall₂_one hs
    obtain ⟨f, hf, hsame⟩ := ihl hflat.1 ls' hls
    exact ⟨_, .isNotNull hf (hi'.eq hi nofun) (hn'.eq hn nofun), .binary _ hsame (.literal _)⟩
  | @between _ _ negated _ _ _ _ _ _ _ hb _ ha _ ihv ihlo ihhi =>
    rintro ⟨hv, hlo, hhi⟩ ms hs
    obtain ⟨vs', _, rfl, hvs, hs⟩ := exists_of_forall₂_append hs
    obtain ⟨b', _, rfl, hb', hs⟩ := exists_of_forall₂_cons hs
    obtain ⟨los', _, rfl, hlos, hs⟩ := exists_of_forall₂_append hs
    obtain ⟨a', his', rfl, ha', hhis⟩ := exists_of_forall₂_cons hs
    obtain ⟨v, hv, hsame⟩ := ihv hv vs' hvs
    obtain ⟨low, hlow, hsame'⟩ := ihlo hlo los' hlos
    obtain ⟨high, hhigh, hsame''⟩ := ihhi hhi his' hhis
    have hrange := hb'.eq hb (by cases negated <;> nofun)
    exact ⟨_, .between hv hrange hlow (ha'.eq ha nofun) hhigh,
      .between _ hsame hsame' hsame''⟩
  | @listed _ _ _ negated _ _ _ _ _ hi ho _ hc ihv ih =>
    rintro ⟨hv, hitems⟩ ms hs
    obtain ⟨vs', _, rfl, hvs, hs⟩ := exists_of_forall₂_append hs
    obtain ⟨i', _, rfl, hi', hs⟩ := exists_of_forall₂_cons hs
    obtain ⟨o', _, rfl, ho', hs⟩ := exists_of_forall₂_cons hs
    obtain ⟨ms, _, rfl, hbody, hlast⟩ := exists_of_forall₂_append hs
    obtain ⟨c', rfl, hc'⟩ := exists_of_forall₂_one hlast
    obtain ⟨v, hv, hsame⟩ := ihv hv vs' hvs
    obtain ⟨fs, hfs, hsame'⟩ := ih hitems ms hbody
    have hlist := hi'.eq hi (by cases negated <;> nofun)
    exact ⟨_, .listed hv hlist (ho'.eq ho nofun) hfs (hc'.eq hc nofun), .listed _ hsame hsame'⟩
  | loosen _ ih =>
    rintro hflat ms hs
    obtain ⟨f, hf, hsame⟩ := ih hflat ms hs
    exact ⟨f, .loosen hf, hsame⟩
  | expression _ ih =>
    rintro hflat ms hs
    obtain ⟨f, hf, hsame⟩ := ih hflat ms hs
    exact ⟨f, .expression hf, hsame⟩
  | @one i _ _ _ ih =>
    cases i with
    | expression =>
      rintro hflat ms hs
      obtain ⟨f, hf, hsame⟩ := ih hflat.1 ms hs
      exact ⟨[f], .one hf, .cons hsame .nil⟩
    | column | term => trivial
  | @more i _ _ _ _ _ _ hc _ ih ihs =>
    cases i with
    | expression =>
      rintro hflat ms hs
      obtain ⟨ls', _, rfl, hls, hs⟩ := exists_of_forall₂_append hs
      obtain ⟨c', rs', rfl, hc', hrs⟩ := exists_of_forall₂_cons hs
      obtain ⟨f, hf, hsame⟩ := ih hflat.1 ls' hls
      obtain ⟨fs, hfs, hsame'⟩ := ihs hflat.2 rs' hrs
      exact ⟨f :: fs, .more hf (hc'.eq hc nofun) hfs, .cons hsame hsame'⟩
    | column | term => trivial
  | _ => trivial

/-! ### Neat spellings -/

theorem isChain_precedes {b : Bool} (hsettled : Settled b ls)
    (hmeets : ls.IsChain fun a b => a.token.Meets b.token) :
    (ls.map Lexeme.token).IsChain Token.Precedes := by
  induction ls generalizing b with
  | nil => exact .nil
  | cons l ls ih =>
    have htail := ih hsettled.2 hmeets.tail
    cases ls with
    | nil => exact .singleton _
    | cons m ms =>
      refine .cons_cons ⟨fun hl => ?_, (List.isChain_cons_cons.mp hmeets).1.dotted⟩ htail
      exact hsettled.2.1 (beq_iff_eq.mpr hl)

/-- **The tokens of an expression** are neat. -/
theorem Spells.neat {t : Tier} (h : Spells (.expr t) e ls)
    (hplain : ∀ l ∈ ls, l.token.Plain) : Neat (ls.map Lexeme.token) where
  plain := List.forall_mem_map.mpr hplain
  chain := isChain_precedes h.settled h.linked.chain

/-- **Expressions with one caption** are the same, up to places and numbers with one text. -/
theorem same_of_caption {t : Tier} (he : Spells (.expr t) e ls) (hf : Spells (.expr t) f ms)
    (heflat : e.Flat) (hls : ∀ l ∈ ls, l.token.Plain) (hms : ∀ m ∈ ms, m.token.Plain)
    (h : Caption.ofTokens (ls.map Lexeme.token) = Caption.ofTokens (ms.map Lexeme.token)) :
    e.Same f := by
  have hsame := Caption.ofTokens_injective (he.neat hls) (hf.neat hms) h
  rw [List.forall₂_map_left_iff, List.forall₂_map_right_iff] at hsame
  obtain ⟨f', hf', hef⟩ := he.respell heflat ms hsame
  rwa [hf.unique hf']

end Grammar

end RecordQuery
