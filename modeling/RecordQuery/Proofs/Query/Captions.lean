import Mathlib.Data.List.Chain
import RecordQuery.Proofs.Grammar.Fusion
import RecordQuery.Proofs.Token.Texts
import RecordQuery.Query.Caption

/-! # Captions tell tokens

Two runs of tokens with one caption are the same, token by token, up to the values of numbers
(`Caption.ofTokens_injective`). The runs are such as expressions are spelled in (`Neat`): nothing is
left to fuse, so that a `NOT` in front of `NULL` is not mistaken for the one token of both, and a
dot stands behind a name only, so that it is not mistaken for the point of a number. -/

namespace RecordQuery

/-- Tokens that stand side by side in an expression. -/
structure Token.Precedes (a b : Token) : Prop where
  settled : a = .keyword .NOT → b.fuses = false
  dotted : b = .symbol .dot → a.name?.isSome = true

/-- A run of tokens such as expressions are spelled in. -/
structure Neat (ts : List Token) : Prop where
  plain : ∀ t ∈ ts, t.Plain
  chain : ts.IsChain Token.Precedes

namespace Neat

variable {t u : Token} {ts : List Token}

theorem head (h : Neat (t :: ts)) : t.Plain := h.plain t List.mem_cons_self

theorem tail (h : Neat (t :: ts)) : Neat ts :=
  ⟨fun u hu => h.plain u (List.mem_cons_of_mem t hu), h.chain.tail⟩

theorem precedes (h : Neat (t :: u :: ts)) : t.Precedes u := (List.isChain_cons_cons.mp h.chain).1

end Neat

namespace Caption

open Token

variable {t u v w : Token} {ts us vs ws : List Token} {r s : List Char} {b b' : Bool}

/-- Tokens without a space between them. -/
theorem not_spaced (h : spaced t u = false) :
    (u = .symbol .rightParen ∨ u = .symbol .comma ∨ u = .symbol .dot ∨ u = .symbol .leftParen) ∨
      t = .symbol .leftParen ∨ t = .symbol .dot := by
  unfold spaced at h
  split at h <;> simp_all

theorem toList_behind (t u : Token) (b : Bool) (us : List Token) :
    (behind t b (u :: us)).toList = (if !b && spaced t u then [' '] else []) ++
      (u.text.toList ++ (behind u (u.canSign && !t.endsOperand) us).toList) := by
  rw [behind, String.toList_append, String.toList_append, List.append_assoc]
  split_ifs <;> rfl

theorem loose_of_canSign (h : t.canSign = true) : t.Loose := by
  unfold canSign at h
  split at h <;> first | exact ⟨_, _, rfl, rfl, rfl⟩ | cases h

/-- **What stands behind a token** in a caption is such as can follow it. -/
theorem ends_behind (hb : b = true → t.canSign = true) (h : Neat (t :: ts)) :
    t.Ends (behind t b ts).toList := by
  cases ts with
  | nil => exact .inr nofun
  | cons u us =>
    rw [toList_behind]
    cases b with
    | true => exact .inl (loose_of_canSign (hb rfl))
    | false =>
      cases hspaced : spaced t u with
      | true =>
        refine .inr ?_
        rintro c ⟨⟩
        exact ⟨rfl, nofun⟩
      | false =>
        rcases not_spaced hspaced with (rfl | rfl | rfl | rfl) | rfl | rfl
        · exact .inr (by rintro c ⟨⟩; exact ⟨rfl, nofun⟩)
        · exact .inr (by rintro c ⟨⟩; exact ⟨rfl, nofun⟩)
        · exact .inr (by rintro c ⟨⟩; exact ⟨rfl, fun _ => h.precedes.dotted rfl⟩)
        · exact .inr (by rintro c ⟨⟩; exact ⟨rfl, nofun⟩)
        · exact .inl ⟨_, _, rfl, rfl, rfl⟩
        · exact .inl ⟨_, _, rfl, rfl, rfl⟩

/-- Spaces between tokens are told, since no token begins with one. -/
theorem gap_split {p q : Bool} (hv : v.Plain) (hw : w.Plain)
    (h : (if p then [' '] else []) ++ (v.text.toList ++ r) =
      (if q then [' '] else []) ++ (w.text.toList ++ s)) :
    p = q ∧ v.text.toList ++ r = w.text.toList ++ s := by
  cases p <;> cases q
  · exact ⟨rfl, h⟩
  · exact absurd h (text_ne_space hv)
  · exact absurd h.symm (text_ne_space hw)
  · exact ⟨rfl, (List.cons.inj h).2⟩

/-! ### Operators that begin with `NOT` -/

theorem plain_keyword (k : Keyword) : (Token.keyword k).Plain := ⟨trivial, nofun, nofun⟩

theorem ends_of_negated {n : Negatable} (k : Keyword) (h : (Token.negated n).Ends r) :
    (Token.keyword k).Ends r := .inr (h.resolve_left (not_loose nofun))

theorem ends_space (k : Keyword) : (Token.keyword k).Ends (' ' :: r) := by
  refine .inr ?_
  rintro c ⟨⟩
  exact ⟨rfl, nofun⟩

/-- Reserved words are told from the texts that begin with them. -/
theorem keyword_split {j k : Keyword} (hr : (Token.keyword j).Ends r)
    (hs : (Token.keyword k).Ends s) (h : j.text.toList ++ r = k.text.toList ++ s) :
    j = k ∧ r = s := by
  obtain ⟨hsame, hrest⟩ := text_split (plain_keyword j) (plain_keyword k) nofun nofun hr hs h
  cases hsame
  exact ⟨rfl, hrest⟩

/-- A token that begins with a word that a `NOT` fuses with is that word. -/
theorem fuses_of_text {n : Negatable} (hr : (Token.negated n).Ends r) (ht : t.Plain) (hs : t.Ends s)
    (h : n.keyword.text.toList ++ r = t.text.toList ++ s) : t.fuses = true := by
  have hsort := sort_eq (plain_keyword n.keyword) ht h
  cases t <;> cases hsort
  case keyword k =>
    obtain ⟨rfl, -⟩ := keyword_split (ends_of_negated _ hr) hs h
    rw [fuses, Negatable.ofKeyword?_keyword]
    rfl
  case negated m =>
    rw [toList_negated] at h
    obtain ⟨hnot, -⟩ := keyword_split (k := .NOT) (ends_of_negated _ hr) (ends_space _) h
    cases n <;> cases hnot

/-- An operator that begins with `NOT` is told from other words, since nothing is left to fuse. -/
theorem negated_ne {n : Negatable} (hr : (Token.negated n).Ends r) (hw : Neat (w :: ws))
    (hb : b = true → w.canSign = true) (hwn : ∀ m, w ≠ .negated m) :
    (Token.negated n).text.toList ++ r ≠ w.text.toList ++ (behind w b ws).toList := by
  intro h
  have hnegated : (Token.negated n).Plain := ⟨trivial, nofun, nofun⟩
  have hsort := sort_eq hnegated hw.head h
  have hends := ends_behind hb hw
  cases w <;> cases hsort
  case negated m => exact hwn m rfl
  case keyword k =>
    rw [toList_negated] at h
    obtain ⟨rfl, hrest⟩ := keyword_split (j := .NOT) (ends_space _) hends h
    cases ws with
    | nil => cases hrest
    | cons x xs =>
      rw [toList_behind] at hrest
      obtain ⟨-, hword⟩ := gap_split (p := true) (plain_keyword n.keyword) hw.tail.head hrest
      have hfuses := fuses_of_text hr hw.tail.head
        (ends_behind (fun hb => (Bool.and_eq_true_iff.mp hb).1) hw.tail) hword
      rw [hw.precedes.settled rfl] at hfuses
      cases hfuses

/-! ### Captions -/

/-- A token and the caption behind it are told by the whole text. -/
theorem neat_split (hv : Neat (v :: vs)) (hw : Neat (w :: ws)) (hb : b = true → v.canSign = true)
    (hb' : b' = true → w.canSign = true)
    (h : v.text.toList ++ (behind v b vs).toList = w.text.toList ++ (behind w b' ws).toList) :
    v.Same w ∧ (behind v b vs).toList = (behind w b' ws).toList := by
  have hr := ends_behind hb hv
  have hs := ends_behind hb' hw
  by_cases hvn : ∃ n, v = .negated n
  · obtain ⟨n, rfl⟩ := hvn
    by_cases hwn : ∃ m, w = .negated m
    · obtain ⟨m, rfl⟩ := hwn
      simp only [toList_negated, List.cons_append, List.cons.injEq, true_and] at h
      obtain ⟨hword, hrest⟩ := keyword_split (ends_of_negated _ hr) (ends_of_negated _ hs) h
      obtain rfl : n = m := by cases n <;> cases m <;> first | rfl | cases hword
      exact ⟨.refl _, hrest⟩
    · exact absurd h (negated_ne hr hw hb' (not_exists.mp hwn))
  · by_cases hwn : ∃ m, w = .negated m
    · obtain ⟨m, rfl⟩ := hwn
      exact absurd h.symm (negated_ne hs hv hb (not_exists.mp hvn))
    · exact text_split hv.head hw.head (not_exists.mp hvn) (not_exists.mp hwn) hr hs h

theorem text_append_ne_nil (ht : t.Plain) : t.text.toList ++ r ≠ [] := by
  obtain ⟨c, cs, hlist, -⟩ := head_text ht
  rw [hlist]
  exact List.cons_ne_nil _ _

theorem toList_behind_ne_nil (h : Neat (t :: u :: us)) : (behind t b (u :: us)).toList ≠ [] := by
  rw [toList_behind]
  exact List.append_ne_nil_of_right_ne_nil _ (text_append_ne_nil h.tail.head)

theorem behind_injective (htu : t.Same u) (hts : Neat (t :: ts)) (hus : Neat (u :: us))
    (h : (behind t b ts).toList = (behind u b us).toList) : List.Forall₂ Token.Same ts us := by
  induction ts generalizing t u us b with
  | nil =>
    cases us with
    | nil => exact .nil
    | cons w ws => exact absurd h.symm (toList_behind_ne_nil hus)
  | cons v vs ih =>
    cases us with
    | nil => exact absurd h (toList_behind_ne_nil hts)
    | cons w ws =>
      rw [toList_behind, toList_behind] at h
      obtain ⟨-, htext⟩ := gap_split hts.tail.head hus.tail.head h
      obtain ⟨hvw, hrest⟩ := neat_split hts.tail hus.tail (fun hb => (Bool.and_eq_true_iff.mp hb).1)
        (fun hb => (Bool.and_eq_true_iff.mp hb).1) htext
      rw [hvw.canSign_eq, htu.endsOperand_eq] at hrest
      exact .cons hvw (ih hvw hts.tail hus.tail hrest)

/-- **Two runs of tokens with one caption** are the same, up to the values of numbers. -/
theorem ofTokens_injective (hts : Neat ts) (hus : Neat us) (h : ofTokens ts = ofTokens us) :
    List.Forall₂ Token.Same ts us := by
  have hlist := congrArg String.toList h
  rcases ts with _ | ⟨t, ts⟩ <;> rcases us with _ | ⟨u, us⟩
  · exact .nil
  · rw [ofTokens, ofTokens, String.toList_append] at hlist
    exact absurd hlist.symm (text_append_ne_nil hus.head)
  · rw [ofTokens, ofTokens, String.toList_append] at hlist
    exact absurd hlist (text_append_ne_nil hts.head)
  · rw [ofTokens, ofTokens, String.toList_append, String.toList_append] at hlist
    obtain ⟨hsame, hrest⟩ := neat_split hts hus id id hlist
    rw [hsame.canSign_eq] at hrest
    exact .cons hsame (behind_injective hsame hts hus hrest)

end Caption

end RecordQuery
