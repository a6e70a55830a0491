import RecordQuery.Proofs.Grammar.Head
import RecordQuery.Proofs.Runs
import RecordQuery.Proofs.Token.Lexed

/-! # What readers accept

Whatever a reader gives is written out by the tokens that it has passed (`Passes`): there is one
lemma for each reader, and they lead from the tokens of a text to a spelling of its statement
(`spells_ofText`). Two things are asked of the tokens, and hold of those of every text: the last one
is the end of the input, so that a reader which passes any other token moves on, and no `NOT` is
left in front of a word that it forms an operator with. -/

namespace RecordQuery

namespace Cursor

variable {c : Cursor} {l : Lexeme} {ls : List Lexeme} {k : Token}

/-- A cursor in front of tokens as a text has them. -/
structure Ready (c : Cursor) : Prop where
  ends : (c.current :: c.later).getLast?.map Lexeme.token = some .endOfInput
  fused : (c.current :: c.later).IsChain fun a b => ¬ Source.Fusable a b

theorem Ready.behind (h : (c.prepend ls).Ready) : c.Ready where
  ends := Ended.behind h.ends
  fused := by
    have hfused := h.fused
    rw [lexemes_prepend] at hfused
    exact (List.isChain_append.mp hfused).2.1

theorem Ready.tail (h : (c.push l).Ready) : c.Ready := @Ready.behind c [l] h

/-- A cursor in front of any other token than the end of the input. -/
theorem Ready.split (h : c.Ready) (hc : c.token ≠ .endOfInput) : ∃ l d, c = push l d :=
  Ended.split h.ends hc

theorem Ready.fused_push (h : (c.push l).Ready) : ¬ Source.Fusable l c.current :=
  (List.isChain_cons_cons.mp h.fused).1

theorem token_of_begins (h : Grammar.Begins k ls) : (c.prepend ls).token = k := by
  cases ls with
  | nil => cases h
  | cons l ls => exact Option.some.inj h

end Cursor

namespace Parse

open Cursor Grammar

variable {α β : Type} {c c' : Cursor}

/-- A reader of which every run passes tokens that stand in a relation to what it gives. -/
def Passes (S : α → List Lexeme → Prop) (p : Parse α) : Prop :=
  ∀ ⦃c a c'⦄, c.Ready → p.run c = .ok a c' → ∃ ls, c = c'.prepend ls ∧ S a ls

/-! ### Single tokens -/

theorem eat_ok {k : Token} {x y : Parse β} {b : β} (hr : c.Ready)
    (h : (eat k >>= fun found => if found = true then x else y).run c = .ok b c')
    (hk : k ≠ .endOfInput) :
    (∃ l d, c = push l d ∧ l.token = k ∧ x.run d = .ok b c') ∨
      (c.token ≠ k ∧ y.run c = .ok b c') := by
  by_cases hc : c.token = k
  · obtain ⟨l, d, rfl⟩ := hr.split (by rw [hc]; exact hk)
    rw [run_bind_true (run_eat (l := l) (c := d) hc)] at h
    exact .inl ⟨l, d, rfl, hc, h⟩
  · rw [run_bind_false (run_eat_ne hc)] at h
    exact .inr ⟨hc, h⟩

theorem expect_ok {s : Symbol} {u : Unit} (hr : c.Ready) (h : (expect s).run c = .ok u c') :
    ∃ l, c = push l c' ∧ l.token = .symbol s := by
  obtain ⟨l, d, rfl, hl, h⟩ | ⟨-, h⟩ := eat_ok hr h nofun
  · cases h
    exact ⟨l, rfl, hl⟩
  · cases h

theorem expectKeyword_ok {k : Keyword} {u : Unit} (hr : c.Ready)
    (h : (expectKeyword k).run c = .ok u c') : ∃ l, c = push l c' ∧ l.token = .keyword k := by
  obtain ⟨l, d, rfl, hl, h⟩ | ⟨-, h⟩ := eat_ok hr h nofun
  · cases h
    exact ⟨l, rfl, hl⟩
  · cases h

theorem name_ok {role : NameRole} {n : String} (hr : c.Ready)
    (h : (name role).run c = .ok n c') : ∃ l, c = push l c' ∧ l.token.name? = some n := by
  unfold name at h
  rw [run_get_bind] at h
  split at h
  · next m hm =>
    obtain ⟨l, d, rfl⟩ := hr.split (by rw [hm]; nofun)
    cases h
    exact ⟨l, rfl, congrArg Token.name? hm⟩
  · next m hm =>
    obtain ⟨l, d, rfl⟩ := hr.split (by rw [hm]; nofun)
    cases h
    exact ⟨l, rfl, congrArg Token.name? hm⟩
  · cases h
  · cases h

theorem passes_label? (role : NameRole) : Passes SpellsLabel (label? role) := by
  intro c label c' hr h
  obtain ⟨l, d, rfl, hl, h₁⟩ | ⟨-, h₁⟩ := eat_ok hr h nofun
  · obtain ⟨n, c₁, hn, h₂⟩ := bind_ok h₁
    obtain ⟨m, rfl, hm⟩ := name_ok hr.tail hn
    cases h₂
    exact ⟨[l, m], rfl, .marked hl hm⟩
  · rw [run_get_bind] at h₁
    split at h₁
    · obtain ⟨n, c₁, hn, h₂⟩ := bind_ok h₁
      obtain ⟨m, rfl, hm⟩ := name_ok hr hn
      cases h₂
      exact ⟨[m], rfl, .plain hm⟩
    · cases h₁
      exact ⟨[], rfl, .absent⟩

/-! ### Lists -/

theorem Passes.commaList {i : Grammar.Item} {p : Parse i.Value}
    (hp : Passes (Spells (.item i)) p) (n : Nat) : Passes (Spells (.list i)) (commaList p n) := by
  induction n with
  | zero =>
    intro c as c' hr h
    obtain ⟨a, c₁, ha, h₁⟩ := bind_ok h
    obtain ⟨ls, rfl, hls⟩ := hp hr ha
    cases h₁
    exact ⟨ls, rfl, .one hls⟩
  | succ n ih =>
    intro c as c' hr h
    obtain ⟨a, c₁, ha, h₁⟩ := bind_ok h
    obtain ⟨ls, rfl, hls⟩ := hp hr ha
    obtain ⟨l, d, rfl, hl, h₂⟩ | ⟨-, h₂⟩ := eat_ok hr.behind h₁ nofun
    · obtain ⟨as, c₂, has, h₃⟩ := bind_ok h₂
      obtain ⟨rs, rfl, hrs⟩ := ih hr.behind.tail has
      cases h₃
      exact ⟨ls ++ l :: rs, (prepend_append ls (l :: rs) c').symm, .more hls hl hrs⟩
    · cases h₂
      exact ⟨ls, rfl, .one hls⟩

theorem Passes.separated {i : Grammar.Item} {p : Parse i.Value} (hp : Passes (Spells (.item i)) p) :
    Passes (Spells (.list i)) (separated p) :=
  fun c _ _ hr h => hp.commaList c.later.length hr h

/-! ### Steps -/

theorem tier_ofToken? {t : Tier} {k : Token} {op : BinaryOp} (h : BinaryOp.ofToken? t k = some op) :
    op.tier = t ∧ op.token? = some k ∧ op ≠ .membership ∧ op ≠ .notMembership := by
  unfold BinaryOp.ofToken? at h
  split at h <;> cases h <;> exact ⟨rfl, rfl, nofun, nofun⟩

/-- What the next tokens are where they make a step. -/
def Stands (t : Tier) (c : Cursor) : Step → Prop
  | .binary op => op.tier = t ∧ op.token? = some c.token ∧
      (op = .membership ∨ op = .notMembership → c.peek ≠ .symbol .leftParen)
  | .is => t = .comparison ∧ c.token = .keyword .IS
  | .listed negated => t = .membership ∧ c.token = listToken negated ∧ c.peek = .symbol .leftParen
  | .between negated => t = .between ∧ c.token = rangeToken negated
  | .nullTest op => t = .nullTest ∧ UnaryOp.trailing? c.token = some op

theorem stands_of_step? {t : Tier} {s : Step} (h : step? t c = some s) : Stands t c s := by
  unfold step? at h
  dsimp only at h
  split at h
  case h_1 | h_2 =>
    next hk =>
    split at h
    · next hp =>
      cases h
      exact ⟨rfl, hk, hp⟩
    · cases h
  case h_3 | h_4 =>
    next hk =>
    cases h
    exact ⟨rfl, hk⟩
  case h_5 =>
    next hk =>
    cases h
    exact ⟨rfl, hk⟩
  case h_6 | h_7 =>
    next hk =>
    split at h
    · cases h
    · next hp =>
      cases h
      exact ⟨rfl, congrArg some hk.symm, fun _ => hp⟩
  case h_8 =>
    obtain ⟨op, hop, rfl⟩ := Option.map_eq_some_iff.mp h
    exact ⟨rfl, hop⟩
  case h_9 =>
    obtain ⟨op, hop, rfl⟩ := Option.map_eq_some_iff.mp h
    obtain ⟨ht, hk, hm, hn⟩ := tier_ofToken? hop
    exact ⟨ht, hk, fun ho => absurd ho (not_or.mpr ⟨hm, hn⟩)⟩

/-! ### Expressions -/

section

variable {sub : Tier → Parse Expr} {t : Tier} {left e : Expr} {ls : List Lexeme}

theorem not_begins {k : Token} (h : (c.prepend ls).token ≠ k) : ¬ Begins k ls :=
  fun hb => h (token_of_begins hb)

theorem Passes.item {p : Parse Expr} (hp : Passes (Spells (.expr .or)) p) :
    Passes (Spells (.item .expression)) p := by
  intro c e c' hr h
  obtain ⟨ls, hc, hls⟩ := hp hr h
  exact ⟨ls, hc, .expression hls⟩

theorem takeStep_binary {op : BinaryOp} (hsub : ∀ t, Passes (Spells (.expr t)) (sub t))
    (hr : c.Ready) (hs : Stands t c (.binary op)) (hl : Spells (.expr t) left ls)
    (h : (takeStep sub t left (.binary op)).run c = .ok e c') :
    ∃ rs, c = c'.prepend rs ∧ Spells (.expr t) e (ls ++ rs) := by
  obtain ⟨rfl, hop, hparen⟩ := hs
  obtain ⟨o, d, rfl⟩ := hr.split fun hk => by rw [hk] at hop; cases op <;> cases hop
  unfold takeStep at h
  rw [run_advance_bind, advance_push, run_get_bind] at h
  obtain ⟨r, c₁, hright, h₁⟩ := bind_ok h
  obtain ⟨rs, rfl, hrs⟩ := hsub _ hr.tail hright
  split at h₁
  · cases h₁
  · next hliteral =>
    cases h₁
    refine ⟨o :: rs, rfl, .operator hl hop hrs ?_⟩
    cases op with
    | like | notLike => simpa [Admits] using hliteral
    | membership => exact not_begins (hparen (.inl rfl))
    | notMembership => exact not_begins (hparen (.inr rfl))
    | _ => trivial

theorem takeStep_is (hsub : ∀ t, Passes (Spells (.expr t)) (sub t)) (hr : c.Ready)
    (hs : Stands t c .is) (hl : Spells (.expr t) left ls)
    (h : (takeStep sub t left .is).run c = .ok e c') :
    ∃ rs, c = c'.prepend rs ∧ Spells (.expr t) e (ls ++ rs) := by
  obtain ⟨rfl, his⟩ := hs
  obtain ⟨i, d, rfl⟩ := hr.split fun hk => by rw [hk] at his; cases his
  unfold takeStep at h
  rw [run_advance_bind, advance_push] at h
  obtain ⟨n, d, rfl, hn, h₁⟩ | ⟨hn', h₁⟩ := eat_ok hr.tail h nofun
  · cases h₁
    exact ⟨[i, n], rfl, .isNotNull hl his hn⟩
  · obtain ⟨found, c₁, hfound, h₂⟩ := bind_ok h₁
    obtain ⟨r, c₂, hright, h₃⟩ := bind_ok h₂
    by_cases hnot : d.token = .keyword .NOT
    · obtain ⟨n, d, rfl⟩ := hr.tail.split fun hk => by rw [hk] at hnot; cases hnot
      rw [run_eatKeyword (l := n) (c := d) hnot] at hfound
      cases hfound
      obtain ⟨rs, rfl, hrs⟩ := hsub _ hr.tail.tail hright
      cases h₃
      refine ⟨i :: n :: rs, rfl, .isNot hl his hnot hrs fun hb => ?_⟩
      exact hr.tail.fused_push ⟨.null, hnot, token_of_begins hb⟩
    · rw [run_eatKeyword_ne hnot] at hfound
      cases hfound
      obtain ⟨rs, rfl, hrs⟩ := hsub _ hr.tail hright
      cases h₃
      exact ⟨i :: rs, rfl, .is hl his hrs (not_begins hnot) (not_begins hn')⟩

theorem takeStep_listed {negated : Bool} (hsub : ∀ t, Passes (Spells (.expr t)) (sub t))
    (hr : c.Ready) (hs : Stands t c (.listed negated)) (hl : Spells (.expr t) left ls)
    (h : (takeStep sub t left (.listed negated)).run c = .ok e c') :
    ∃ rs, c = c'.prepend rs ∧ Spells (.expr t) e (ls ++ rs) := by
  obtain ⟨rfl, hin, hparen⟩ := hs
  obtain ⟨i, d, rfl⟩ := hr.split fun hk => by rw [hk] at hin; cases negated <;> cases hin
  obtain ⟨o, d, rfl⟩ := hr.tail.split fun hk => by rw [peek_push, hk] at hparen; cases hparen
  unfold takeStep at h
  rw [run_advance_bind, advance_push, run_advance_bind, advance_push] at h
  obtain ⟨items, c₁, hitems, h₁⟩ := bind_ok h
  obtain ⟨rs, rfl, hrs⟩ := (hsub .or).item.separated hr.tail.tail hitems
  obtain ⟨u, c₂, hclose, h₂⟩ := bind_ok h₁
  obtain ⟨p, rfl, hp⟩ := expect_ok hr.tail.tail.behind hclose
  cases h₂
  exact ⟨i :: o :: (rs ++ [p]), by simp, .listed hl hin hparen hrs hp⟩

theorem takeStep_between {negated : Bool} (hsub : ∀ t, Passes (Spells (.expr t)) (sub t))
    (hr : c.Ready) (hs : Stands t c (.between negated)) (hl : Spells (.expr t) left ls)
    (h : (takeStep sub t left (.between negated)).run c = .ok e c') :
    ∃ rs, c = c'.prepend rs ∧ Spells (.expr t) e (ls ++ rs) := by
  obtain ⟨rfl, hbetween⟩ := hs
  obtain ⟨b, d, rfl⟩ := hr.split fun hk => by rw [hk] at hbetween; cases negated <;> cases hbetween
  unfold takeStep at h
  rw [run_advance_bind, advance_push] at h
  obtain ⟨low, c₁, hlow, h₁⟩ := bind_ok h
  obtain ⟨los, rfl, hlos⟩ := hsub _ hr.tail hlow
  obtain ⟨u, c₂, hand, h₂⟩ := bind_ok h₁
  obtain ⟨a, rfl, ha⟩ := expectKeyword_ok hr.tail.behind hand
  obtain ⟨high, c₃, hhigh, h₃⟩ := bind_ok h₂
  obtain ⟨his, rfl, hhis⟩ := hsub _ hr.tail.behind.tail hhigh
  cases h₃
  exact ⟨b :: (los ++ a :: his), by simp, .between hl hbetween hlos ha hhis⟩

/-- A step extends the spelling of its operand. -/
theorem takeStep_ok {s : Step} (hsub : ∀ t, Passes (Spells (.expr t)) (sub t)) (hr : c.Ready)
    (hs : Stands t c s) (hl : Spells (.expr t) left ls)
    (h : (takeStep sub t left s).run c = .ok e c') :
    ∃ rs, c = c'.prepend rs ∧ Spells (.expr t) e (ls ++ rs) := by
  cases s with
  | binary op => exact takeStep_binary hsub hr hs hl h
  | is => exact takeStep_is hsub hr hs hl h
  | listed negated => exact takeStep_listed hsub hr hs hl h
  | between negated => exact takeStep_between hsub hr hs hl h
  | nullTest op =>
    obtain ⟨rfl, hop⟩ := hs
    obtain ⟨o, d, rfl⟩ := hr.split fun hk => by rw [hk] at hop; cases hop
    cases h
    exact ⟨[o], rfl, .trailing hl hop⟩

theorem extend_ok {n : Nat} (hsub : ∀ t, Passes (Spells (.expr t)) (sub t)) (hr : c.Ready)
    (hl : Spells (.expr t) left ls) (h : (extend sub t n left).run c = .ok e c') :
    ∃ rs, c = c'.prepend rs ∧ Spells (.expr t) e (ls ++ rs) := by
  induction n generalizing left ls c with
  | zero =>
    cases h
    exact ⟨[], rfl, by rw [List.append_nil]; exact hl⟩
  | succ n ih =>
    unfold extend at h
    rw [run_get_bind] at h
    split at h
    · cases h
      exact ⟨[], rfl, by rw [List.append_nil]; exact hl⟩
    · next s hs =>
      obtain ⟨f, c₁, hstep, h₁⟩ := bind_ok h
      obtain ⟨rs, rfl, hrs⟩ := takeStep_ok hsub hr (stands_of_step? hs) hl hstep
      obtain ⟨ss, rfl, hss⟩ := ih hr.behind hrs h₁
      exact ⟨rs ++ ss, (prepend_append rs ss c').symm, by rw [← List.append_assoc]; exact hss⟩

theorem token_of_leading?_not {k : Token} (h : UnaryOp.leading? k = some .not) :
    k = .keyword .NOT := by
  unfold UnaryOp.leading? at h
  split at h <;> cases h
  rfl

theorem passes_signed (hsub : ∀ t, Passes (Spells (.expr t)) (sub t)) :
    Passes (Spells (.expr .sign)) (signed sub) := by
  intro c e c' hr h
  unfold signed at h
  rw [run_get_bind] at h
  split at h
  · next hk =>
    obtain ⟨l, d, rfl⟩ := hr.split (by rw [hk]; nofun)
    cases h
    exact ⟨[l], rfl, .notNull hk⟩
  · split at h
    · next op hop =>
      obtain ⟨o, d, rfl⟩ := hr.split fun hk => by rw [hk] at hop; cases hop
      rw [run_advance_bind, advance_push] at h
      obtain ⟨e, c₁, he, h₁⟩ := bind_ok h
      obtain ⟨ls, rfl, hls⟩ := hsub _ hr.tail he
      cases h₁
      refine ⟨o :: ls, rfl, .leading hop hls fun hnot hb => ?_⟩
      rw [hnot] at hop
      exact hr.fused_push ⟨.null, token_of_leading?_not hop, token_of_begins hb⟩
    · obtain ⟨ls, rfl, hls⟩ := hsub _ hr h
      exact ⟨ls, rfl, .loosen hls⟩

theorem token_of_literal? {k : Token} {v : Literal} (h : literal? k = some v) : k = v.token := by
  unfold literal? at h
  split at h <;> cases h <;> rfl

/-- The further parts of a qualified name, each behind a dot. -/
inductive SpellsParts : List String → List Lexeme → Prop
  | nil : SpellsParts [] []
  | cons {d l : Lexeme} {part : String} {parts : List String} {ls : List Lexeme}
      (hd : d.token = .symbol .dot) (hl : l.token.name? = some part) (h : SpellsParts parts ls) :
      SpellsParts (part :: parts) (d :: l :: ls)

theorem passes_furtherParts (n : Nat) : Passes SpellsParts (furtherParts n) := by
  induction n with
  | zero =>
    intro c parts c' hr h
    cases h
    exact ⟨[], rfl, .nil⟩
  | succ n ih =>
    intro c parts c' hr h
    unfold furtherParts at h
    rw [run_get_bind] at h
    split at h
    · next hdot =>
      split at h
      · cases h
      · obtain ⟨d, c, rfl⟩ := hr.split (by rw [hdot]; nofun)
        rw [run_advance_bind, advance_push] at h
        obtain ⟨part, c₁, hpart, h₁⟩ := bind_ok h
        obtain ⟨l, rfl, hl⟩ := name_ok hr.tail hpart
        obtain ⟨rest, c₂, hrest, h₂⟩ := bind_ok h₁
        obtain ⟨ls, rfl, hls⟩ := ih hr.tail.tail hrest
        cases h₂
        exact ⟨d :: l :: ls, rfl, .cons hdot hl hls⟩
    · cases h
      exact ⟨[], rfl, .nil⟩

theorem passes_columnRef : Passes (Spells (.expr .primary)) columnRef := by
  intro c e c' hr h
  unfold columnRef at h
  rw [run_get_bind] at h
  obtain ⟨first, c₁, hfirst, h₁⟩ := bind_ok h
  obtain ⟨l, rfl, hl⟩ := name_ok hr hfirst
  rw [run_get_bind] at h₁
  obtain ⟨further, c₂, hfurther, h₂⟩ := bind_ok h₁
  obtain ⟨ls, rfl, hls⟩ := passes_furtherParts _ hr.tail hfurther
  refine ⟨l :: ls, ?_⟩
  split at h₂
  · cases hls
    cases h₂
    exact ⟨rfl, .column (.bare hl)⟩
  · cases hls with
    | cons hd hm hls =>
      cases hls
      cases h₂
      exact ⟨rfl, .column (.table hl hd hm)⟩
  · cases hls with
    | cons hd hm hls =>
      cases hls with
      | cons he ho hls =>
        cases hls
        cases h₂
        exact ⟨rfl, .column (.database hl hd hm he ho)⟩
  · cases h₂

theorem passes_call (hsub : ∀ t, Passes (Spells (.expr t)) (sub t)) {c : Cursor} (hr : c.Ready)
    (hparen : c.peek = .symbol .leftParen) (h : (call sub).run c = .ok e c') :
    ∃ ls, c = c'.prepend ls ∧ Spells (.expr .primary) e ls := by
  unfold call at h
  rw [run_get_bind] at h
  obtain ⟨function, c₁, hfunction, h₁⟩ := bind_ok h
  obtain ⟨f, rfl, hf⟩ := name_ok hr hfunction
  obtain ⟨o, d, rfl⟩ := hr.tail.split fun hk => by rw [peek_push, hk] at hparen; cases hparen
  have ho : o.token = .symbol .leftParen := hparen
  rw [run_advance_bind, advance_push] at h₁
  have hclose : ∀ {args : List Expr} {ls : List Lexeme} {d : Cursor},
      (d.prepend (f :: o :: ls)).Ready →
      (∀ p : Lexeme, p.token = .symbol .rightParen →
        Spells (.expr .primary) (Expr.call function args f.start) (f :: o :: (ls ++ [p]))) →
      (do
        expect .rightParen
        return Expr.call function args f.start : Parse Expr).run d = .ok e c' →
      ∃ rs, d.prepend (f :: o :: ls) = c'.prepend rs ∧ Spells (.expr .primary) e rs := by
    intro args ls d hr hs h
    obtain ⟨u, c₂, hexpect, h₂⟩ := bind_ok h
    obtain ⟨p, rfl, hp⟩ := expect_ok hr.behind hexpect
    cases h₂
    exact ⟨f :: o :: (ls ++ [p]), by simp, hs p hp⟩
  obtain ⟨s, d, rfl, hs, h₂⟩ | ⟨-, h₂⟩ := eat_ok hr.tail.tail h₁ nofun
  · obtain ⟨u, c₂, hexpect, h₃⟩ := bind_ok h₂
    obtain ⟨p, rfl, hp⟩ := expect_ok hr.tail.tail.tail hexpect
    cases h₃
    exact ⟨[f, o, s, p], rfl, .callStar hf ho hs hp⟩
  · rw [run_get_bind] at h₂
    split at h₂
    · exact @hclose [] [] d hr (fun p hp => .callNone hf ho hp) h₂
    · obtain ⟨args, c₂, hargs, h₃⟩ := bind_ok h₂
      obtain ⟨ls, rfl, hls⟩ := (hsub .or).item.separated hr.tail.tail hargs
      exact hclose hr (fun p hp => .call hf ho hls hp) h₃

theorem passes_primary {select : SelectReader} (hsub : ∀ t, Passes (Spells (.expr t)) (sub t))
    (hselect : ∀ p, Passes (Spells (.expr .or)) p → Passes (Spells .statement) (select p)) :
    Passes (Spells (.expr .primary)) (primary select sub) := by
  intro c e c' hr h
  unfold primary at h
  rw [run_get_bind] at h
  dsimp only at h
  split at h
  · next v hv =>
    obtain ⟨l, d, rfl⟩ := hr.split fun hk => by rw [hk] at hv; cases hv
    cases h
    exact ⟨[l], rfl, .literal (token_of_literal? hv)⟩
  · split at h
    · next p hp =>
      obtain ⟨l, d, rfl⟩ := hr.split fun hk => by rw [hk] at hp; cases hp
      cases h
      exact ⟨[l], rfl, .parameter hp⟩
    · next ho =>
      obtain ⟨o, d, rfl⟩ := hr.split fun hk => by rw [hk] at ho; cases ho
      rw [run_advance_bind, advance_push] at h
      obtain ⟨f, c₁, hf, h₁⟩ := bind_ok h
      obtain ⟨ls, rfl, hls⟩ := hsub _ hr.tail hf
      obtain ⟨u, c₂, hexpect, h₂⟩ := bind_ok h₁
      obtain ⟨p, rfl, hp⟩ := expect_ok hr.tail.behind hexpect
      cases h₂
      exact ⟨o :: (ls ++ [p]), by simp, .group ho hls hp⟩
    · next hx =>
      obtain ⟨x, d, rfl⟩ := hr.split fun hk => by rw [hk] at hx; cases hx
      rw [run_advance_bind, advance_push] at h
      obtain ⟨u, c₁, hopen, h₁⟩ := bind_ok h
      obtain ⟨o, rfl, ho⟩ := expect_ok hr.tail hopen
      obtain ⟨st, c₂, hst, h₂⟩ := bind_ok h₁
      obtain ⟨ls, rfl, hls⟩ := hselect _ (hsub .or) hr.tail.tail hst
      obtain ⟨u', c₃, hexpect, h₃⟩ := bind_ok h₂
      obtain ⟨p, rfl, hp⟩ := expect_ok hr.tail.tail.behind hexpect
      cases h₃
      exact ⟨x :: o :: (ls ++ [p]), by simp, .existsRow hx ho hls hp⟩
    · split at h
      · next hparen => exact passes_call hsub hr hparen h
      · exact passes_columnRef hr h
    · split at h
      · next hparen => exact passes_call hsub hr hparen h
      · exact passes_columnRef hr h
    · cases h
    · cases h

/-- **What is read as an expression** is written out by the tokens passed. -/
theorem passes_tierWithin {select : SelectReader}
    (hselect : ∀ p, Passes (Spells (.expr .or)) p → Passes (Spells .statement) (select p))
    (n : Nat) (t : Tier) : Passes (Spells (.expr t)) (tierWithin select n t) := by
  induction n generalizing t with
  | zero =>
    intro c e c' hr h
    cases h
  | succ n ih =>
    have hextend : ∀ t : Tier, Passes (Spells (.expr t)) (do
        let left ← tierWithin select n t.tighter
        extend (tierWithin select n) t (← get).later.length left) := by
      intro t c e c' hr h
      obtain ⟨left, c₁, hleft, h₁⟩ := bind_ok h
      obtain ⟨ls, rfl, hls⟩ := ih _ hr hleft
      obtain ⟨rs, rfl, hrs⟩ := extend_ok ih hr.behind (.loosen hls) h₁
      exact ⟨ls ++ rs, (prepend_append ls rs c').symm, hrs⟩
    cases t with
    | primary => exact passes_primary ih hselect
    | sign => exact passes_signed ih
    | _ => exact hextend _

end

/-! ### Statements -/

section

variable {expr : Parse Expr}

theorem passes_resultColumn (hexpr : Passes (Spells (.expr .or)) expr) :
    Passes (Spells (.item .column)) (resultColumn expr) := by
  intro c column c' hr h
  unfold resultColumn at h
  rw [run_get_bind] at h
  dsimp only at h
  obtain ⟨s, d, rfl, hs, h₁⟩ | ⟨-, h₁⟩ := eat_ok hr h nofun
  · cases h₁
    exact ⟨[s], rfl, .star hs⟩
  · split at h₁
    · next hstar =>
      obtain ⟨-, hdot, hthird⟩ := hstar
      obtain ⟨table, c₁, htable, h₂⟩ := bind_ok h₁
      obtain ⟨n, rfl, hn⟩ := name_ok hr htable
      obtain ⟨d, c₂, rfl⟩ := hr.tail.split fun hk => by rw [peek_push, hk] at hdot; cases hdot
      have hstar : c₂.token = .symbol .star := Option.some.inj hthird
      obtain ⟨s, c₃, rfl⟩ := hr.tail.tail.split fun hk => by rw [hk] at hstar; cases hstar
      cases h₂
      exact ⟨[n, d, s], rfl, .qualifiedStar hn hdot hstar⟩
    · obtain ⟨e, c₁, he, h₂⟩ := bind_ok h₁
      obtain ⟨ls, rfl, hls⟩ := hexpr hr he
      rw [run_get_bind, upTo_prepend] at h₂
      obtain ⟨label, c₂, hlabel, h₃⟩ := bind_ok h₂
      obtain ⟨as, rfl, has⟩ := passes_label? _ hr.behind hlabel
      cases h₃
      obtain ⟨l, ls, rfl, -⟩ := hls.head_expr
      exact ⟨l :: ls ++ as, (prepend_append (l :: ls) as c').symm, .computed hls has⟩

theorem passes_fromClause {c : Cursor} {source : FromClause} (hr : c.Ready)
    (h : fromClause.run c = .ok source c') {f : Lexeme} (hf : f.token = .keyword .FROM) :
    ∃ ls, c = c'.prepend ls ∧ SpellsSource (some source) (f :: ls) := by
  obtain ⟨first, c₁, hfirst, h₁⟩ := bind_ok h
  obtain ⟨l, rfl, hl⟩ := name_ok hr hfirst
  obtain ⟨d, c₂, rfl, hd, h₂⟩ | ⟨-, h₂⟩ := eat_ok hr.tail h₁ nofun
  · obtain ⟨second, c₃, hsecond, h₃⟩ := bind_ok h₂
    obtain ⟨m, rfl, hm⟩ := name_ok hr.tail.tail hsecond
    obtain ⟨label, c₄, hlabel, h₄⟩ := bind_ok h₃
    obtain ⟨ls, rfl, hls⟩ := passes_label? _ hr.tail.tail.tail hlabel
    cases h₄
    exact ⟨l :: d :: m :: ls, rfl, .qualified hf hl hd hm hls⟩
  · obtain ⟨label, c₃, hlabel, h₃⟩ := bind_ok h₂
    obtain ⟨ls, rfl, hls⟩ := passes_label? _ hr.tail hlabel
    cases h₃
    exact ⟨l :: ls, rfl, .bare hf hl hls⟩

theorem passes_orderingTerm (hexpr : Passes (Spells (.expr .or)) expr) :
    Passes (Spells (.item .term)) (orderingTerm expr) := by
  intro c term c' hr h
  unfold orderingTerm at h
  rw [run_get_bind] at h
  dsimp only at h
  obtain ⟨e, c₁, he, h₁⟩ := bind_ok h
  obtain ⟨ls, rfl, hls⟩ := hexpr hr he
  obtain ⟨l, ls, rfl, -⟩ := hls.head_expr
  obtain ⟨d, c₂, rfl, hd, h₂⟩ | ⟨-, h₂⟩ := eat_ok hr.behind h₁ nofun
  · cases h₂
    exact ⟨l :: ls ++ [d], (prepend_append (l :: ls) [d] c').symm, .term hls (.ascending hd)⟩
  · obtain ⟨d, c₂, rfl, hd, h₃⟩ | ⟨-, h₃⟩ := eat_ok hr.behind h₂ nofun
    · cases h₃
      exact ⟨l :: ls ++ [d], (prepend_append (l :: ls) [d] c').symm, .term hls (.descending hd)⟩
    · cases h₃
      exact ⟨l :: ls ++ [], (prepend_append (l :: ls) [] c').symm, .term hls .absent⟩

theorem passes_limitClause (hexpr : Passes (Spells (.expr .or)) expr) :
    Passes (fun limit => Spells .limit (some limit)) (limitClause expr) := by
  intro c limit c' hr h
  unfold limitClause at h
  rw [run_get_bind] at h
  dsimp only at h
  obtain ⟨u, c₁, hword, h₁⟩ := bind_ok h
  obtain ⟨w, rfl, hw⟩ := expectKeyword_ok hr hword
  obtain ⟨first, c₂, hfirst, h₂⟩ := bind_ok h₁
  obtain ⟨ls, rfl, hls⟩ := hexpr hr.tail hfirst
  obtain ⟨o, c₃, rfl, ho, h₃⟩ | ⟨-, h₃⟩ := eat_ok hr.tail.behind h₂ nofun
  · obtain ⟨second, c₄, hsecond, h₄⟩ := bind_ok h₃
    obtain ⟨rs, rfl, hrs⟩ := hexpr hr.tail.behind.tail hsecond
    cases h₄
    exact ⟨w :: (ls ++ o :: rs), by simp, .countOffset hw hls ho hrs⟩
  · obtain ⟨o, c₃, rfl, ho, h₄⟩ | ⟨-, h₄⟩ := eat_ok hr.tail.behind h₃ nofun
    · obtain ⟨second, c₄, hsecond, h₅⟩ := bind_ok h₄
      obtain ⟨rs, rfl, hrs⟩ := hexpr hr.tail.behind.tail hsecond
      cases h₅
      exact ⟨w :: (ls ++ o :: rs), by simp, .offsetCount hw hls ho hrs⟩
    · cases h₄
      exact ⟨w :: ls, rfl, .count hw hls⟩

theorem clause?_ok {k : Keyword} {p : Parse α} {o : Option α} (hr : c.Ready)
    (h : (clause? k p).run c = .ok o c') :
    (∃ l d a, c = push l d ∧ l.token = .keyword k ∧ o = some a ∧ p.run d = .ok a c') ∨
      (o = none ∧ c = c') := by
  obtain ⟨l, d, rfl, hl, h₁⟩ | ⟨-, h₁⟩ := eat_ok hr h nofun
  · obtain ⟨a, c₁, ha, h₂⟩ := bind_ok h₁
    cases h₂
    exact .inl ⟨l, d, a, rfl, hl, rfl, ha⟩
  · cases h₁
    exact .inr ⟨rfl, rfl⟩

theorem passes_clause (w : Clause) (hexpr : Passes (Spells (.expr .or)) expr) :
    Passes (Spells (.clause w)) (clause? w.word expr) := by
  intro c o c' hr h
  obtain ⟨l, d, e, rfl, hl, rfl, he⟩ | ⟨rfl, rfl⟩ := clause?_ok hr h
  · obtain ⟨ls, rfl, hls⟩ := hexpr hr.tail he
    exact ⟨l :: ls, rfl, .present hl hls⟩
  · exact ⟨[], rfl, .absent⟩

theorem passes_source : Passes SpellsSource (clause? .FROM fromClause) := by
  intro c o c' hr h
  obtain ⟨l, d, source, rfl, hl, rfl, hsource⟩ | ⟨rfl, rfl⟩ := clause?_ok hr h
  · obtain ⟨ls, rfl, hls⟩ := passes_fromClause hr.tail hsource hl
    exact ⟨l :: ls, rfl, hls⟩
  · exact ⟨[], rfl, .absent⟩

theorem passes_sorting (hexpr : Passes (Spells (.expr .or)) expr) :
    Passes (fun o => Spells .sorting (o.getD [])) (clause? .ORDER do
      expectKeyword .BY
      separated (orderingTerm expr)) := by
  intro c o c' hr h
  obtain ⟨l, d, terms, rfl, hl, rfl, hterms⟩ | ⟨rfl, rfl⟩ := clause?_ok hr h
  · obtain ⟨u, c₁, hby, h₁⟩ := bind_ok hterms
    obtain ⟨b, rfl, hb⟩ := expectKeyword_ok hr.tail hby
    obtain ⟨ls, rfl, hls⟩ := (passes_orderingTerm hexpr).separated hr.tail.tail h₁
    exact ⟨l :: b :: ls, rfl, .sorted hl hb hls⟩
  · exact ⟨[], rfl, .unsorted⟩

theorem passes_selectOption : Passes SpellsOption selectOption := by
  intro c o c' hr h
  obtain ⟨l, d, rfl, hl, h₁⟩ | ⟨-, h₁⟩ := eat_ok hr h nofun
  · cases h₁
    exact ⟨[l], rfl, .distinct hl⟩
  · obtain ⟨l, d, rfl, hl, h₂⟩ | ⟨-, h₂⟩ := eat_ok hr h₁ nofun
    · cases h₂
      exact ⟨[l], rfl, .all hl⟩
    · cases h₂
      exact ⟨[], rfl, .absent⟩

theorem refuseCompound_ok {u : Unit} (h : refuseCompound.run c = .ok u c') : c' = c := by
  unfold refuseCompound at h
  rw [run_get_bind] at h
  split at h <;> cases h
  rfl

/-- **What is read as a statement** is written out by the tokens passed. -/
theorem passes_select (hexpr : Passes (Spells (.expr .or)) expr) :
    Passes (Spells .statement) (select expr) := by
  intro c st c' hr h
  obtain ⟨u, c₁, hword, h₁⟩ := bind_ok h
  obtain ⟨s, rfl, hs⟩ := expectKeyword_ok hr hword
  obtain ⟨option, c₂, hoption, h₂⟩ := bind_ok h₁
  obtain ⟨os, rfl, hos⟩ := passes_selectOption hr.tail hoption
  obtain ⟨columns, c₃, hcolumns, h₃⟩ := bind_ok h₂
  have hr₂ := hr.tail.behind
  obtain ⟨cs, rfl, hcs⟩ := (passes_resultColumn hexpr).separated hr₂ hcolumns
  obtain ⟨source, c₄, hsource, h₄⟩ := bind_ok h₃
  have hr₃ := hr₂.behind
  obtain ⟨fs, rfl, hfs⟩ := passes_source hr₃ hsource
  obtain ⟨condition, c₅, hcondition, h₅⟩ := bind_ok h₄
  have hr₄ := hr₃.behind
  obtain ⟨ws, rfl, hws⟩ := passes_clause .rows hexpr hr₄ hcondition
  rw [run_get_bind] at h₅
  dsimp only at h₅
  have hr₅ := hr₄.behind
  split at h₅
  · cases h₅
  · obtain ⟨group, c₆, hgroup, h₆⟩ := bind_ok h₅
    obtain ⟨hs', rfl, hhs⟩ := passes_clause .groups hexpr hr₅ hgroup
    obtain ⟨u', c₇, hrefuse, h₇⟩ := bind_ok h₆
    obtain rfl := refuseCompound_ok hrefuse
    obtain ⟨orderBy, c₈, horder, h₈⟩ := bind_ok h₇
    have hr₆ := hr₅.behind
    obtain ⟨bs, rfl, hbs⟩ := passes_sorting hexpr hr₆ horder
    rw [run_get_bind] at h₈
    split at h₈
    · obtain ⟨limit, c₉, hlimit, h₉⟩ := bind_ok h₈
      obtain ⟨l, hl, rfl⟩ := map_ok hlimit
      obtain ⟨ms, rfl, hms⟩ := passes_limitClause hexpr hr₆.behind hl
      cases h₉
      exact ⟨s :: (os ++ (cs ++ (fs ++ (ws ++ (hs' ++ (bs ++ ms)))))), by simp,
        .statement hs hos hcs hfs hws hhs hbs hms⟩
    · cases h₈
      exact ⟨s :: (os ++ (cs ++ (fs ++ (ws ++ (hs' ++ (bs ++ [])))))), by simp,
        .statement hs hos hcs hfs hws hhs hbs .unlimited⟩

theorem passes_expression : Passes (Spells (.expr .or)) expression := by
  intro c e c' hr h
  unfold expression at h
  rw [run_get_bind] at h
  exact passes_tierWithin (fun _ => passes_select) _ _ hr h

theorem query_ok {st : Statement} (hr : c.Ready) (h : query.run c = .ok st c') :
    ∃ ls tail, c = c'.prepend (ls ++ tail) ∧ Spells .statement st ls ∧
      tail.map Lexeme.token ∈ [[], [.symbol .semicolon]] ∧ c'.token = .endOfInput := by
  obtain ⟨s, c₁, hs, h₁⟩ := bind_ok h
  obtain ⟨ls, rfl, hls⟩ := passes_select passes_expression hr hs
  obtain ⟨found, c₂, hfound, h₂⟩ := bind_ok h₁
  rw [run_get_bind] at h₂
  split at h₂
  · next hend =>
    cases h₂
    by_cases hsemicolon : c₁.token = .symbol .semicolon
    · obtain ⟨l, d, rfl⟩ := hr.behind.split (by rw [hsemicolon]; nofun)
      rw [run_eat (l := l) (c := d) hsemicolon] at hfound
      cases hfound
      refine ⟨ls, [l], (prepend_append ls [l] _).symm, hls, ?_, hend⟩
      rw [List.map_singleton, show l.token = _ from hsemicolon]
      decide
    · rw [run_eat_ne hsemicolon] at hfound
      cases hfound
      exact ⟨ls, [], (prepend_append ls [] _).symm, hls, by decide, hend⟩
  · cases h₂

end

end Parse

/-! ### Texts -/

section

variable {text : String} {ls : List Lexeme} {c : Cursor}

theorem ready_of_tokenize (h : tokenize text = .ok (c.current :: c.later)) : c.Ready := by
  obtain ⟨before, last, hends, hlast, -⟩ := ends_of_tokenize h
  refine ⟨?_, isChain_of_tokenize h⟩
  rw [hends, List.getLast?_append]
  exact congrArg some hlast

/-- Nothing stands behind the end of the input. -/
theorem later_of_endOfInput (h : tokenize text = .ok (ls ++ c.current :: c.later))
    (hc : c.token = .endOfInput) : c.later = [] := by
  obtain ⟨before, last, hends, -, hbefore⟩ := ends_of_tokenize h
  cases hlater : c.later with
  | nil => rfl
  | cons m rest =>
    have hinit : before = ls ++ c.current :: (m :: rest).dropLast := by
      have hdrop := congrArg List.dropLast hends
      rw [List.dropLast_concat, hlater,
        List.dropLast_append_of_ne_nil (List.cons_ne_nil _ _)] at hdrop
      exact hdrop.symm
    refine absurd hc (hbefore c.current ?_)
    rw [hinit]
    exact List.mem_append_right ls List.mem_cons_self

/-- A run from the first token of a text, of which something was computed that no error has. -/
theorem run_of_any {α : Type} {r : Parse α} {p : Cursor → α → Cursor → Bool}
    (h : (tokenize text).toOption.any (fun ls =>
      (Cursor.ofTokens? ls).any fun c => gives r c (p c)) = true) :
    ∃ c a c', tokenize text = .ok (c.current :: c.later) ∧ r.run c = .ok a c' ∧
      p c a c' = true := by
  obtain ⟨all, hall, h⟩ := ok_of_any h
  obtain ⟨c, hc, h⟩ := (Option.any_eq_true _ _).mp h
  obtain ⟨a, c', hrun, hp⟩ := ok_of_gives h
  exact ⟨c, a, c', by rw [hall, Cursor.eq_cons_of_ofTokens? hc], hrun, hp⟩

/-- **A statement that was read** from a text is written out by its tokens, apart from a semicolon
and the end of the input. -/
theorem spells_ofText {text : String} {st : Statement} (h : Statement.ofText text = .ok st) :
    ∃ ls tail last, tokenize text = .ok (ls ++ (tail ++ [last])) ∧
      Grammar.Spells .statement st ls ∧ tail.map Lexeme.token ∈ [[], [.symbol .semicolon]] ∧
      last.token = .endOfInput := by
  unfold Statement.ofText Parse.onText at h
  split at h
  · cases h
  · next all hall =>
    unfold Parse.onTokens at h
    split at h
    · cases h
    · next c hc =>
      rw [Cursor.eq_cons_of_ofTokens? hc] at hall
      split at h
      · next s c' hrun =>
        cases h
        obtain ⟨ls, tail, rfl, hls, htail, hend⟩ := Parse.query_ok (ready_of_tokenize hall) hrun
        rw [Cursor.lexemes_prepend] at hall
        refine ⟨ls, tail, c'.current, ?_, hls, htail, hend⟩
        rw [hall, later_of_endOfInput hall hend, List.append_assoc]
      · cases h

end

end RecordQuery
