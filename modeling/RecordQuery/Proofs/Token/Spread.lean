import RecordQuery.Proofs.Grammar.Fusion
import RecordQuery.Proofs.Token.Apart
import RecordQuery.Proofs.Token.Tiles

/-! # Tokens spread out

The texts of the tokens of a query can be written down one after another with any blanks and closed
comments between them, as long as a blank stands first behind each token (`Spread`). Such a text has
the same tokens.

* `Read.scans`: the text of one token, with a blank behind it, is read as the words of the token.
* `Spread.scans`: so a spread text is read as the words of all its tokens.
* `tokensOf_spread`: these fuse to the tokens again, since none of them was left to fuse. -/

namespace RecordQuery

open Source Grammar

/-- Blanks and comments that no text behind them goes on with. -/
def Closed (gap : List Char) : Prop := ∀ rest, Blanks gap rest

/-- **A space** between tokens: blanks and closed comments, with a blank first. -/
structure Spacing (gap : List Char) : Prop where
  closed : Closed gap
  blank : ∃ c ∈ gap.head?, isBlank c = true

/-- The characters of a text that a token spans. -/
def Lexeme.slice (text : List Char) (l : Lexeme) : List Char := stretch text l.start.offset l.stop

/-- **The slices of some tokens** of a text, with a space behind each; none is needed behind the
last one. -/
inductive Spread (text : List Char) : List Lexeme → List Char → Prop
  | nil : Spread text [] []
  | cons {l : Lexeme} {ls : List Lexeme} {gap body : List Char}
      (hgap : Spacing gap ∨ gap = [] ∧ ls = []) (h : Spread text ls body) :
      Spread text (l :: ls) (l.slice text ++ (gap ++ body))

variable {text cs gap mid rest body : List Char} {l : Lexeme} {ls : List Lexeme} {s : Source}
variable {t : Token}

theorem Closed.nil : Closed [] := fun _ => .nil

theorem Spacing.breaks (h : Spacing gap) : Breaks (gap ++ rest) := by
  obtain ⟨c, hc, hblank⟩ := h.blank
  obtain ⟨more, rfl⟩ := List.head?_eq_some_iff.mp hc
  intro d hd
  obtain rfl := Option.some.inj hd
  exact hblank

/-- No text begins a comment in front of what cuts it off. -/
theorem Solid.append (h : Solid cs) (hc : cs ≠ []) (hr : Cuts rest) : Solid (cs ++ rest) := by
  cases cs with
  | nil => exact absurd rfl hc
  | cons c cs =>
    cases cs with
    | nil =>
      exact solid_cons.mpr ⟨(solid_cons.mp h).1, fun _ => hr.head_ne (by decide),
        fun _ => hr.head_ne (by decide)⟩
    | cons d cs =>
      obtain ⟨hblank, hline, hblock⟩ := solid_cons.mp h
      exact solid_cons.mpr ⟨hblank, hline, hblock⟩

/-- A token that stands behind blanks and comments is read. -/
theorem Source.yields_one (hgap : Closed gap) (hs : Solid cs) (hscan : scanToken cs = .found t rest)
    (ht : t ≠ .endOfInput) (hrest : s.rest = gap ++ cs) :
    ∃ l s', Yields s [l] s' ∧ l.token = t ∧ s'.rest = rest := by
  have hskip : skipTrivia .outside s.rest = .ok cs := by
    rw [hrest]
    exact skipTrivia_blanks (hgap _) hs
  obtain ⟨l, s', hl, rfl, hleft⟩ := next_of_scan s cs hskip hscan
  exact ⟨l, s', .cons hl ht .nil, rfl, hleft⟩

/-- A token is read behind blanks and comments, in front of a blank. -/
theorem Source.yields_between (hgap : Closed gap) (hs : Solid cs) (ht : t ≠ .endOfInput)
    (hscan : scanToken cs = .found t mid) (hr : Breaks rest) (hrest : s.rest = gap ++ (cs ++ rest)) :
    ∃ l s', Yields s [l] s' ∧ l.token = t ∧ s'.rest = mid ++ rest := by
  have hc : cs ≠ [] := by
    rintro rfl
    exact ht (Scan.found_inj hscan).1.symm
  exact yields_one hgap (hs.append hc hr.cuts) (scanToken_steady hr.cuts hc hscan) ht hrest

theorem Negatable.eq_keyword {n : Negatable} {k : Keyword} (h : ofKeyword? k = some n) :
    k = n.keyword := by
  cases k <;> cases h <;> rfl

theorem exists_negatable {k : Token} (h : k.fuses = true) :
    ∃ n : Negatable, k = .keyword n.keyword := by
  unfold Token.fuses at h
  split at h
  · obtain ⟨n, hn⟩ := Option.isSome_iff_exists.mp h
    exact ⟨n, congrArg Token.keyword (Negatable.eq_keyword hn)⟩
  · cases h

/-- No token that is read by itself begins with `NOT` and a word behind it. -/
theorem Stands.ne_negated (h : Stands text l) (n : Negatable) : l.token ≠ .negated n := by
  intro hn
  have hlexed := h.lexed
  rw [hn] at hlexed
  generalize text.drop l.start.offset = cs at hlexed
  cases hlexed

/-- **The slice of a token**, with a blank behind it, is read as the words of the token. -/
theorem Read.yields (h : Read text l) (hl : l.token ≠ .endOfInput) (hgap : Closed gap)
    (hr : Breaks rest) (hrest : s.rest = gap ++ (l.slice text ++ rest)) :
    ∃ ws s' l', Yields s ws s' ∧ Words ws [l'] ∧ l'.token = l.token ∧ s'.rest = rest := by
  cases h with
  | one h =>
    obtain ⟨hsolid, hscan⟩ := h.scan_stretch
    obtain ⟨x, s', hx, hxt, hleft⟩ := yields_between hgap hsolid hl hscan hr hrest
    exact ⟨[x], s', x, hx, .single (fun n => hxt ▸ h.ne_negated n) .nil, hxt, hleft⟩
  | @fused a b _ ha hb hle hinner h =>
    obtain ⟨n, k, hat, hbt, hn, rfl⟩ := fuse?_words h
    obtain rfl := Negatable.eq_keyword hn
    have hae : a.token ≠ .endOfInput := by rw [hat]; nofun
    have hbe : b.token ≠ .endOfInput := by rw [hbt]; nofun
    obtain ⟨hsolid, hscan⟩ := ha.scan_pair hb hle
    obtain ⟨hword, hlast⟩ := hb.scan_stretch
    obtain ⟨x, s', hx, hxt, hleft⟩ := yields_between hgap hsolid hae hscan hr hrest
    rw [List.append_assoc] at hleft
    have hclosed : Closed (stretch text a.stop b.start.offset) := fun _ =>
      hinner.before (hb.drop_ne_nil hbe)
    obtain ⟨y, s'', hy, hyt, hleft'⟩ := yields_between hclosed hword hbe hlast hr hleft
    exact ⟨[x] ++ [y], s'', ⟨.negated n, x.start, y.stop⟩, hx.append hy,
      .pair (hxt.trans hat) (hyt.trans hbt) .nil, rfl, hleft'⟩

/-- **A spread text** is read as the words of its tokens, and of the end of the input. -/
theorem Spread.scans (h : Spread text ls body) (hread : ∀ l ∈ ls, Read text l)
    (hend : ∀ l ∈ ls, l.token ≠ .endOfInput) (hgap : Closed gap) (hrest : s.rest = gap ++ body) :
    ∃ ws ls', Scans s ws ∧ Words ws ls' ∧
      ls'.map Lexeme.token = ls.map Lexeme.token ++ [.endOfInput] := by
  induction h generalizing s gap with
  | nil =>
    have hskip : skipTrivia .outside s.rest = .ok [] := by
      rw [hrest]
      exact skipTrivia_blanks (hgap _) .nil
    obtain ⟨x, s', hx, hxt, -⟩ := next_of_scan s [] hskip
      (show scanToken [] = .found .endOfInput [] from rfl)
    refine ⟨[x], [x], .last hx hxt, .single (fun n => by rw [hxt]; nofun) .nil, ?_⟩
    rw [List.map_cons, hxt]
    rfl
  | @cons l ls space body hspace h ih =>
    have hbreaks : Breaks (space ++ body) := by
      obtain hspace | ⟨rfl, rfl⟩ := hspace
      · exact hspace.breaks
      · cases h
        exact fun _ hc => absurd hc (Option.not_mem_none _)
    have hclosed : Closed space := by
      obtain hspace | ⟨rfl, -⟩ := hspace
      · exact hspace.closed
      · exact .nil
    obtain ⟨ws, s', l', hyields, hword, hl', hleft⟩ := Read.yields (hread l List.mem_cons_self)
      (hend l List.mem_cons_self) hgap hbreaks hrest
    obtain ⟨ts, ls', hts, hwords, htokens⟩ := ih (List.forall_mem_of_forall_mem_cons hread)
      (List.forall_mem_of_forall_mem_cons hend) hclosed hleft
    exact ⟨ws ++ ts, l' :: ls', hyields.scans hts, hword.append hwords,
      by rw [List.map_cons, hl', htokens]; rfl⟩

/-! ### Tokens that are not fused -/

theorem Source.fuses_eq_false {a b : Lexeme} (h : ¬ Fusable a b) (ha : a.token = .keyword .NOT) :
    b.token.fuses = false := by
  by_contra hf
  rw [Bool.not_eq_false] at hf
  unfold Token.fuses at hf
  split at hf
  · next k hb =>
    obtain ⟨n, hn⟩ := Option.isSome_iff_exists.mp hf
    exact h ⟨n, ha, hb.trans (congrArg Token.keyword (Negatable.eq_keyword hn))⟩
  · cases hf

/-- Tokens are settled if no two neighbours fuse and the end of the input stands last. -/
theorem settled_of_isChain {before : List Lexeme} {last : Lexeme} {b : Bool}
    (hchain : (before ++ [last]).IsChain fun a b => ¬ Fusable a b)
    (hlast : last.token = .endOfInput)
    (hb : b = true → ∀ l ∈ (before ++ [last]).head?, l.token.fuses = false) :
    Settled b (before ++ [last]) := by
  induction before generalizing b with
  | nil =>
    refine ⟨fun h => hb h last rfl, ?_⟩
    rw [hlast]
    rfl
  | cons l before ih =>
    obtain ⟨hnext, hchain⟩ := List.isChain_cons.mp hchain
    exact ⟨fun h => hb h l rfl,
      ih hchain fun h m hm => fuses_eq_false (hnext m hm) (beq_iff_eq.mp h)⟩

/-- Whether tokens fuse does not depend on their places. -/
theorem isChain_of_tokens {ls' : List Lexeme} (h : ls.IsChain fun a b => ¬ Fusable a b)
    (htokens : ls'.map Lexeme.token = ls.map Lexeme.token) :
    ls'.IsChain fun a b => ¬ Fusable a b := by
  have hmap := (List.isChain_map (R := fun s t => ¬ ∃ n : Negatable,
    s = Token.keyword .NOT ∧ t = .keyword n.keyword) Lexeme.token).mpr h
  rw [← htokens] at hmap
  exact (List.isChain_map Lexeme.token).mp hmap

/-- **A spread text** has the tokens that are spread in it. -/
theorem tokensOf_spread {text : String} {opening : List Char} (h : tokenize text = .ok ls)
    (hopening : Closed opening) (hbody : Spread text.toList ls.dropLast body) :
    tokensOf (opening ++ body) = .ok (ls.map Lexeme.token) := by
  obtain ⟨before, last, rfl, hlast, hbefore⟩ := ends_of_tokenize h
  have hchain := isChain_of_tokenize h
  obtain ⟨ts, hts, hls⟩ := scans_of_tokenize h
  obtain ⟨i, htiled⟩ := hts.tiled ⟨List.drop_zero.symm, Nat.zero_le _⟩ Tiled.nil
  rw [List.dropLast_concat] at hbody
  have hread : ∀ l ∈ before, Read text.toList l := fun l hl =>
    htiled.read l (List.mem_reverse.mp (hls ▸ List.mem_append_left _ hl))
  obtain ⟨ws, ls', hscans, hwords, htokens⟩ :=
    hbody.scans (s := ⟨.start, opening ++ body⟩) hread hbefore hopening rfl
  have hall : ls'.map Lexeme.token = (before ++ [last]).map Lexeme.token := by
    rw [htokens, List.map_append, List.map_singleton, hlast]
  obtain ⟨before', tail, rfl, -, htail⟩ := List.map_eq_append_iff.mp htokens
  obtain ⟨last', rfl, hend⟩ := List.map_eq_singleton_iff.mp htail
  have hfuse := fuse_words (settled_of_isChain (isChain_of_tokens hchain hall) hend nofun) hwords
  rw [tokensOf_of_scans hscans, ← hall]
  exact congrArg (fun ls => Except.ok (ls.map Lexeme.token)) hfuse

end RecordQuery
