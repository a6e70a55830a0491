import RecordQuery.Proofs.Runs
import RecordQuery.Proofs.Token.Alone
import RecordQuery.Proofs.Token.Blanks
import RecordQuery.Proofs.Token.Starts

/-! # Tokens tile a text

The spans of the tokens of a text follow one another, and between them stand blanks and comments
only. The text of each span alone has the token of the span and no other.

* `Stands`: a token is read where its span starts, and leaves what stands behind its span.
* `Read`: a token of a text stands there, or is fused from two that do.
* `Tiled`: tokens tile a text up to an offset. One more token keeps that (`Tiled.push`), whether it
  is fused with the last one or not, and so do all tokens of a text (`Scans.tiled`).
* `tokens_tile`: so the tokens of a text tile it. -/

namespace RecordQuery

/-- The characters of a text from one offset up to another. -/
def stretch (text : List Char) (i j : Nat) : List Char := (text.drop i).take (j - i)

/-- The tokens of a text, without their places. -/
def tokensOf (cs : List Char) : Except LexError (List Token) :=
  (tokenize (String.ofList cs)).map fun ls => ls.map Lexeme.token

/-- **A tiling** of a text by tokens in front of the last one, which is the end of the input. -/
structure Tiles (text : List Char) (before : List Lexeme) (last : Lexeme) : Prop where
  ordered : (before ++ [last]).Pairwise fun a b => a.stop ≤ b.start.offset
  nonempty : ∀ l ∈ before, l.start.offset < l.stop
  last_span : last.start.offset = text.length ∧ last.stop = text.length
  last_token : last.token = .endOfInput
  only_last : ∀ l ∈ before, l.token ≠ .endOfInput
  opening : ∀ l ∈ (before ++ [last]).head?,
    Blanks (stretch text 0 l.start.offset) (text.drop l.start.offset)
  between : (before ++ [last]).IsChain fun a b =>
    Blanks (stretch text a.stop b.start.offset) (text.drop b.start.offset)
  alone : ∀ l ∈ before, tokensOf (stretch text l.start.offset l.stop) = .ok [l.token, .endOfInput]

/-! ### Stretches of a text -/

section Stretch
variable {text : List Char} {i j k : Nat}

theorem drop_eq_stretch (text : List Char) (h : i ≤ j) : text.drop i = stretch text i j ++ text.drop j := by
  have hdrop : text.drop j = (text.drop i).drop (j - i) := by
    rw [List.drop_drop, Nat.add_sub_cancel' h]
  rw [stretch, hdrop, List.take_append_drop]

theorem stretch_append (hij : i ≤ j) (hjk : j ≤ k) :
    stretch text i k = stretch text i j ++ stretch text j k := by
  have hlength : k - i = (j - i) + (k - j) := by omega
  unfold stretch
  rw [hlength, List.take_add, List.drop_drop, Nat.add_sub_cancel' hij]

end Stretch

/-! ### Tokens in a text -/

/-- A token is read where its span starts, and what is left is what stands behind its span. -/
structure Stands (text : List Char) (l : Lexeme) : Prop where
  start_le : l.start.offset ≤ l.stop
  stop_le : l.stop ≤ text.length
  solid : Solid (text.drop l.start.offset)
  scan : scanToken (text.drop l.start.offset) = .found l.token (text.drop l.stop)

/-- A token of a text stands there, or is fused from two tokens with blanks and comments between. -/
inductive Read (text : List Char) : Lexeme → Prop
  | one {l : Lexeme} (h : Stands text l) : Read text l
  | fused {a b l : Lexeme} (ha : Stands text a) (hb : Stands text b)
      (hle : a.stop ≤ b.start.offset)
      (hgap : Blanks (stretch text a.stop b.start.offset) (text.drop b.start.offset))
      (h : Source.fuse? a b = some l) : Read text l

variable {text : List Char} {a b l : Lexeme}

theorem Lexed.rest_suffix {cs rest : List Char} {t : Token} (h : Lexed cs t rest) : rest <:+ cs := by
  by_cases ht : t = .endOfInput
  · subst ht
    cases h
    exact List.suffix_rfl
  · obtain ⟨c, body, rfl, hbody⟩ := h.suffix ht
    exact hbody.trans (List.suffix_cons c body)

theorem Stands.lexed (h : Stands text l) :
    Lexed (text.drop l.start.offset) l.token (text.drop l.stop) := by
  have hlexed := Scan.lexes_scanToken (text.drop l.start.offset) l.token (by rw [h.scan]; rfl)
  rwa [h.scan] at hlexed

/-- A token that is not the end of the input has a span. -/
theorem Stands.start_lt (h : Stands text l) (hl : l.token ≠ .endOfInput) :
    l.start.offset < l.stop := by
  obtain ⟨c, body, hcs, hrest⟩ := h.lexed.suffix hl
  have hlength := congrArg List.length hcs
  have hshorter := hrest.length_le
  have := h.stop_le
  simp only [List.length_drop, List.length_cons] at hlength hshorter
  omega

/-- The end of the input stands where the text ends. -/
theorem Stands.span_end (h : Stands text l) (hl : l.token = .endOfInput) :
    l.start.offset = text.length ∧ l.stop = text.length := by
  have hlexed := h.lexed
  have := h.start_le
  have := h.stop_le
  rw [hl] at hlexed
  generalize hcs : text.drop l.start.offset = cs at hlexed
  generalize text.drop l.stop = rest at hlexed
  cases hlexed
  have := List.drop_eq_nil_iff.mp hcs
  omega

/-- The text of a span is read as the token of the span. -/
theorem Stands.scan_stretch (h : Stands text l) :
    Solid (stretch text l.start.offset l.stop) ∧
      scanToken (stretch text l.start.offset l.stop) = .found l.token [] := by
  have hsplit := drop_eq_stretch text h.start_le
  refine ⟨Solid.of_append (text.drop l.stop) (hsplit ▸ h.solid), ?_⟩
  refine scanToken_alone _ [] (text.drop l.stop) _ ?_
  rw [← hsplit, h.scan, List.nil_append]

/-- A fused token is made of two words, and spans both. -/
theorem fuse?_words (h : Source.fuse? a b = some l) :
    ∃ n : Negatable, ∃ k : Keyword, a.token = .keyword .NOT ∧ b.token = .keyword k ∧
      Negatable.ofKeyword? k = some n ∧ l = ⟨.negated n, a.start, b.stop⟩ := by
  unfold Source.fuse? at h
  split at h
  · next k ha hb =>
    obtain ⟨n, hn, rfl⟩ := Option.map_eq_some_iff.mp h
    exact ⟨n, k, ha, hb, hn, rfl⟩
  · cases h

/-! ### Texts with few tokens -/

namespace Source

variable {s s' : Source} {cs rest : List Char} {t : Token} {ts done : List Lexeme} {n : Nat}

/-- The token that is read behind blanks and comments. -/
theorem next_of_scan (s : Source) (cs : List Char) (hskip : skipTrivia .outside s.rest = .ok cs)
    (hscan : scanToken cs = .found t rest) :
    ∃ l s', s.next = (.ok l, s') ∧ l.token = t ∧ s'.rest = rest := by
  refine ⟨⟨t, (s.moveTo cs).position, ((s.moveTo cs).moveTo rest).position.offset⟩,
    (s.moveTo cs).moveTo rest, ?_, rfl, rfl⟩
  simp only [next, hskip, hscan, Scan.found]

theorem scans_nil (h : s.rest = []) : ∃ l, Scans s [l] ∧ l.token = .endOfInput := by
  obtain ⟨l, s', hnext, hl, -⟩ :=
    next_of_scan s [] (by rw [h]; rfl) (show scanToken [] = .found .endOfInput [] from rfl)
  exact ⟨l, .last hnext hl, hl⟩

/-- The tokens read one after another are those that are fused. -/
theorem tokensWithin_of_scans (h : Scans s ts) (hn : s.rest.length < n) :
    (tokensWithin n done s).1 = .ok (ts.foldl push done).reverse := by
  induction h generalizing n done with
  | last hnext hl =>
    obtain ⟨n, rfl⟩ := Nat.exists_eq_succ_of_ne_zero (Nat.ne_zero_of_lt hn)
    simp only [tokensWithin, hnext, if_pos hl, List.foldl_cons, List.foldl_nil]
  | more hnext hl _ ih =>
    obtain ⟨n, rfl⟩ := Nat.exists_eq_succ_of_ne_zero (Nat.ne_zero_of_lt hn)
    have := length_of_next hnext hl
    simp only [tokensWithin, hnext, if_neg hl, List.foldl_cons]
    exact ih (by omega)

theorem tokensOf_of_scans (h : Scans ⟨.start, cs⟩ ts) :
    tokensOf cs = .ok ((ts.foldl push []).reverse.map Lexeme.token) := by
  have hsource : ofString (String.ofList cs) = ⟨.start, cs⟩ := by
    rw [ofString, String.toList_ofList]
  rw [tokensOf, tokenize, tokens, hsource, tokensWithin_of_scans h (Nat.lt_succ_self _)]
  rfl

end Source

/-- A text of one token. -/
theorem tokensOf_one {cs : List Char} {t : Token} (hs : Solid cs)
    (hscan : scanToken cs = .found t []) (ht : t ≠ .endOfInput) :
    tokensOf cs = .ok [t, .endOfInput] := by
  obtain ⟨x, s, hx, rfl, hrest⟩ :=
    Source.next_of_scan ⟨.start, cs⟩ cs hs hscan
  obtain ⟨z, hz, hend⟩ := Source.scans_nil hrest
  rw [Source.tokensOf_of_scans (.more hx ht hz), List.foldl_cons, List.foldl_cons, List.foldl_nil,
    Source.push_endOfInput hend]
  simp only [Source.push, List.reverse_cons, List.reverse_nil, List.nil_append, List.cons_append,
    List.map_cons, List.map_nil, hend]

/-- A text of two words that are fused. -/
theorem tokensOf_fused {cs gap next : List Char} {k : Keyword} {n : Negatable} (hs : Solid cs)
    (hnot : scanToken cs = .found (.keyword .NOT) (gap ++ next)) (hgap : Blanks gap next)
    (hnext : Solid next) (hword : scanToken next = .found (.keyword k) [])
    (hn : Negatable.ofKeyword? k = some n) : tokensOf cs = .ok [.negated n, .endOfInput] := by
  obtain ⟨x, s, hx, hxt, hrest⟩ := Source.next_of_scan ⟨.start, cs⟩ cs hs hnot
  obtain ⟨y, s', hy, hyt, hrest'⟩ := Source.next_of_scan s next
    (by rw [hrest]; exact skipTrivia_blanks hgap hnext) hword
  obtain ⟨z, hz, hend⟩ := Source.scans_nil hrest'
  have hfuse : Source.fuse? x y = some ⟨.negated n, x.start, y.stop⟩ := by
    simp only [Source.fuse?, hxt, hyt, hn, Option.map_some]
  rw [Source.tokensOf_of_scans (.more hx (by simp [hxt]) (.more hy (by simp [hyt]) hz)),
    List.foldl_cons, List.foldl_cons, List.foldl_cons, List.foldl_nil,
    Source.push_endOfInput hend]
  simp only [Source.push, hfuse, List.reverse_cons, List.reverse_nil, List.nil_append,
    List.cons_append, List.map_cons, List.map_nil, hend]

/-! ### Tokens that were read -/

theorem Read.bounds (h : Read text l) : l.start.offset ≤ l.stop ∧ l.stop ≤ text.length := by
  cases h with
  | one h => exact ⟨h.start_le, h.stop_le⟩
  | @fused a b _ ha hb hle _ h =>
    obtain ⟨n, k, -, -, -, rfl⟩ := fuse?_words h
    have := ha.start_le
    have := hb.start_le
    have hle' : a.start.offset ≤ b.stop := by omega
    exact ⟨hle', hb.stop_le⟩

theorem Read.start_lt (h : Read text l) (hl : l.token ≠ .endOfInput) :
    l.start.offset < l.stop := by
  cases h with
  | one h => exact h.start_lt hl
  | @fused a b _ ha hb hle _ h =>
    obtain ⟨n, k, hat, -, -, rfl⟩ := fuse?_words h
    have := ha.start_lt (by rw [hat]; nofun)
    have := hb.start_le
    change a.start.offset < b.stop
    omega

theorem Read.span_end (h : Read text l) (hl : l.token = .endOfInput) :
    l.start.offset = text.length ∧ l.stop = text.length := by
  cases h with
  | one h => exact h.span_end hl
  | fused _ _ _ _ h =>
    obtain ⟨n, k, -, -, -, rfl⟩ := fuse?_words h
    cases hl

/-- The text of two spans and of what stands between them: the first token is read from it. -/
theorem Stands.scan_pair (ha : Stands text a) (hb : Stands text b) (hle : a.stop ≤ b.start.offset) :
    Solid (stretch text a.start.offset b.stop) ∧ scanToken (stretch text a.start.offset b.stop) =
      .found a.token (stretch text a.stop b.start.offset ++ stretch text b.start.offset b.stop) := by
  have hab := ha.start_le
  have hbb := hb.start_le
  have hdrop := drop_eq_stretch text (show a.start.offset ≤ b.stop by omega)
  have hrest : text.drop a.stop = (stretch text a.stop b.start.offset ++
      stretch text b.start.offset b.stop) ++ text.drop b.stop := by
    rw [← stretch_append hle hbb, ← drop_eq_stretch text (by omega)]
  refine ⟨Solid.of_append (text.drop b.stop) (hdrop ▸ ha.solid), ?_⟩
  refine scanToken_alone _ _ (text.drop b.stop) _ ?_
  rw [← hdrop, ha.scan, hrest]

/-- A word stands in front of what is left of a text, so some of it is. -/
theorem Stands.drop_ne_nil (hb : Stands text b) (hl : b.token ≠ .endOfInput) :
    text.drop b.start.offset ≠ [] := by
  have := hb.start_lt hl
  have := hb.stop_le
  rw [Ne, List.drop_eq_nil_iff]
  omega

/-- **The text of a span** has the token of the span and no other. -/
theorem Read.alone (h : Read text l) (hl : l.token ≠ .endOfInput) :
    tokensOf (stretch text l.start.offset l.stop) = .ok [l.token, .endOfInput] := by
  cases h with
  | one h => exact tokensOf_one h.scan_stretch.1 h.scan_stretch.2 hl
  | @fused a b _ ha hb hle hgap h =>
    obtain ⟨n, k, hat, hbt, hn, rfl⟩ := fuse?_words h
    obtain ⟨hsolid, hscan⟩ := ha.scan_pair hb hle
    obtain ⟨hword, hlast⟩ := hb.scan_stretch
    exact tokensOf_fused hsolid (hat ▸ hscan)
      (hgap.before (hb.drop_ne_nil (by rw [hbt]; nofun))) hword (hbt ▸ hlast) hn

/-! ### Reading one more token -/

section Reading
variable {s s' : Source} {done ts : List Lexeme} {rest : List Char} {i : Nat}

/-- A source is what is left of a text, behind its place. -/
structure Source.At (text : List Char) (s : Source) : Prop where
  rest_eq : s.rest = text.drop s.position.offset
  offset_le : s.position.offset ≤ text.length

theorem Source.At.moveTo (h : s.At text) (hrest : rest <:+ s.rest) : (s.moveTo rest).At text := by
  have hoffset := Source.offset_moveTo hrest
  have hlength := congrArg List.length h.rest_eq
  have hsuffix : rest <:+ text := hrest.trans (h.rest_eq ▸ List.drop_suffix _ text)
  have hle := hsuffix.length_le
  have := h.offset_le
  rw [List.length_drop] at hlength
  refine ⟨?_, by omega⟩
  have heq := List.suffix_iff_eq_drop.mp hsuffix
  have hplace : text.length - rest.length = (s.moveTo rest).position.offset := by omega
  rw [hplace] at heq
  exact heq

/-- Moving on does not move back. -/
theorem Source.offset_le_moveTo (hrest : rest <:+ s.rest) :
    s.position.offset ≤ (s.moveTo rest).position.offset := by
  have := Source.offset_moveTo hrest
  have := hrest.length_le
  omega

/-- **One more token** stands behind blanks and comments, and the source moves behind it. -/
theorem stands_of_next (hs : s.At text) (h : s.next = (.ok l, s')) :
    s'.At text ∧ l.stop = s'.position.offset ∧ s.position.offset ≤ l.start.offset ∧
      Blanks (stretch text s.position.offset l.start.offset) (text.drop l.start.offset) ∧
      Stands text l := by
  unfold Source.next at h
  split at h
  · cases h
  · next rest hskip =>
    dsimp only at h
    split at h
    · next t ht =>
      cases h
      have hrest := skipTrivia_suffix hskip
      have hleft := (Scan.lexes_scanToken rest t ht).rest_suffix
      have hhere := hs.moveTo hrest
      have hbehind := hhere.moveTo hleft
      have hle := Source.offset_le_moveTo hrest
      obtain ⟨gap, hgap, hblanks⟩ := blanks_of_skipTrivia hskip
      have hrest_eq : rest = text.drop (s.moveTo rest).position.offset := hhere.rest_eq
      refine ⟨hbehind, rfl, hle, ?_, Source.offset_le_moveTo hleft, hbehind.offset_le, ?_, ?_⟩
      · have hstretch : gap = stretch text s.position.offset (s.moveTo rest).position.offset := by
          rw [hs.rest_eq, drop_eq_stretch text hle, ← hrest_eq] at hgap
          exact (List.append_cancel_right hgap).symm
        rw [← hstretch, ← hrest_eq]
        exact hblanks
      · rw [← hrest_eq]
        exact solid_of_skipTrivia hskip
      · rw [← hrest_eq, ← hbehind.rest_eq, Scan.found, ← ht]
        rfl
    · cases h

/-! ### Tokens up to an offset -/

/-- **Tokens up to an offset**, the last one first, with blanks and comments in front of each. -/
inductive Tiled (text : List Char) : List Lexeme → Nat → Prop
  | nil : Tiled text [] 0
  | cons {done : List Lexeme} {l : Lexeme} {i : Nat} (h : Tiled text done i)
      (hle : i ≤ l.start.offset)
      (hgap : Blanks (stretch text i l.start.offset) (text.drop l.start.offset))
      (hl : Read text l) : Tiled text (l :: done) l.stop

/-- A token that is fused with the last one takes its place. -/
theorem Tiled.push (h : Tiled text done i) (hle : i ≤ l.start.offset)
    (hgap : Blanks (stretch text i l.start.offset) (text.drop l.start.offset))
    (hl : Stands text l) : Tiled text (Source.push done l) l.stop := by
  cases h with
  | nil => exact .cons .nil hle hgap (.one hl)
  | @cons before last j h hle' hgap' hlast =>
    cases hf : Source.fuse? last l with
    | none =>
      simp only [Source.push, hf]
      exact .cons (.cons h hle' hgap' hlast) hle hgap (.one hl)
    | some both =>
      simp only [Source.push, hf]
      obtain ⟨n, k, hnot, -, -, rfl⟩ := fuse?_words hf
      -- A `NOT` is not itself fused.
      cases hlast with
      | one hlast =>
        have hboth := Read.fused hlast hl hle hgap hf
        exact Tiled.cons h hle' hgap' hboth
      | fused _ _ _ _ hfused =>
        obtain ⟨m, k, -, -, -, rfl⟩ := fuse?_words hfused
        cases hnot

theorem Source.Scans.tiled (h : Scans s ts) (hs : s.At text)
    (hdone : Tiled text done s.position.offset) :
    ∃ i, Tiled text (ts.foldl Source.push done) i := by
  induction h generalizing done with
  | @last s s' l hnext hl =>
    obtain ⟨-, -, hle, hgap, hstands⟩ := stands_of_next hs hnext
    exact ⟨l.stop, hdone.push hle hgap hstands⟩
  | more hnext hl _ ih =>
    obtain ⟨hs', hstop, hle, hgap, hstands⟩ := stands_of_next hs hnext
    exact ih hs' (hstop ▸ hdone.push hle hgap hstands)

end Reading

/-! ### The tiling -/

section Tiling
variable {done ls : List Lexeme} {i : Nat}

theorem Tiled.read (h : Tiled text done i) : ∀ l ∈ done, Read text l := by
  induction h with
  | nil => exact fun _ hl => absurd hl List.not_mem_nil
  | cons _ _ _ hl ih => exact List.forall_mem_cons.mpr ⟨hl, ih⟩

theorem Tiled.stop_le (h : Tiled text done i) : ∀ l ∈ done, l.stop ≤ i := by
  induction h with
  | nil => exact fun _ hl => absurd hl List.not_mem_nil
  | @cons done l i _ hle _ hl ih =>
    refine List.forall_mem_cons.mpr ⟨Nat.le_refl _, fun k hk => ?_⟩
    have := ih k hk
    have := hl.bounds.1
    omega

theorem Tiled.ordered (h : Tiled text done i) :
    done.Pairwise fun b a => a.stop ≤ b.start.offset := by
  induction h with
  | nil => exact .nil
  | cons h hle _ _ ih => exact .cons (fun k hk => (h.stop_le k hk).trans hle) ih

theorem Tiled.between (h : Tiled text done i) : done.IsChain fun b a =>
    Blanks (stretch text a.stop b.start.offset) (text.drop b.start.offset) := by
  induction h with
  | nil => exact .nil
  | cons h _ hgap _ ih =>
    refine List.isChain_cons.mpr ⟨fun k hk => ?_, ih⟩
    cases h with
    | nil => cases hk
    | cons =>
      obtain rfl := Option.some.inj hk
      exact hgap

theorem Tiled.opening (h : Tiled text done i) : ∀ l ∈ done.getLast?,
    Blanks (stretch text 0 l.start.offset) (text.drop l.start.offset) := by
  induction h with
  | nil => exact fun _ hl => absurd hl (Option.not_mem_none _)
  | cons h _ hgap _ ih =>
    cases h with
    | nil =>
      intro k hk
      obtain rfl := Option.some.inj hk
      exact hgap
    | cons => exact ih

/-- Every token of a text stands in it, or is fused from two that do. -/
theorem read_of_tokenize {text : String} (h : tokenize text = .ok ls) :
    ∀ l ∈ ls, Read text.toList l := by
  obtain ⟨ts, hscans, rfl⟩ := Source.scans_of_tokenize h
  obtain ⟨i, htiled⟩ := hscans.tiled ⟨List.drop_zero.symm, Nat.zero_le _⟩ Tiled.nil
  exact fun l hl => htiled.read l (List.mem_reverse.mp hl)

/-- Tokens start one behind the other. -/
theorem starts_of_tokenize {text : String} (h : tokenize text = .ok ls) :
    ls.Pairwise fun a b => a.start.offset < b.start.offset := by
  obtain ⟨ts, hscans, heq⟩ := Source.scans_of_tokenize h
  obtain ⟨i, htiled⟩ := hscans.tiled ⟨List.drop_zero.symm, Nat.zero_le _⟩ Tiled.nil
  obtain ⟨before, last, rfl, -, hbefore⟩ := ends_of_tokenize h
  have hlt : ∀ l ∈ before, l.start.offset < l.stop := fun l hl =>
    (read_of_tokenize h l (List.mem_append_left _ hl)).start_lt (hbefore l hl)
  have hordered := List.pairwise_append.mp (heq ▸ List.pairwise_reverse.mpr htiled.ordered)
  exact List.pairwise_append.mpr
    ⟨hordered.1.imp_of_mem fun ha _ hle => (hlt _ ha).trans_le hle, List.pairwise_singleton _ _,
      fun a ha b hb => (hlt a ha).trans_le (hordered.2.2 a ha b hb)⟩

/-- **The tokens of a text tile it**: their spans follow one another, with blanks and comments in
between, up to the end of the input at the end of the text, and the text of each other span alone
has its token and no other. -/
theorem tokens_tile {text : String} (h : tokenize text = .ok ls) :
    ∃ before last, ls = before ++ [last] ∧ Tiles text.toList before last := by
  obtain ⟨ts, hscans, rfl⟩ := Source.scans_of_tokenize h
  obtain ⟨i, htiled⟩ := hscans.tiled ⟨List.drop_zero.symm, Nat.zero_le _⟩ Tiled.nil
  obtain ⟨before, last, heq, hlast, hbefore⟩ := ends_of_tokenize h
  have hread : ∀ l ∈ before ++ [last], Read text.toList l := heq ▸ read_of_tokenize h
  refine ⟨before, last, heq, ?_⟩
  exact {
    ordered := heq ▸ List.pairwise_reverse.mpr htiled.ordered
    nonempty := fun l hl => (hread l (List.mem_append_left _ hl)).start_lt (hbefore l hl)
    last_span := (hread last (List.mem_append_right _ List.mem_cons_self)).span_end hlast
    last_token := hlast
    only_last := hbefore
    opening := by
      rw [← heq, List.head?_reverse]
      exact htiled.opening
    between := heq ▸ List.isChain_reverse.mpr htiled.between
    alone := fun l hl => (hread l (List.mem_append_left _ hl)).alone (hbefore l hl) }

/-- A `NOT` and a comment in front of `NULL` are one span, which has one token alone, too. -/
theorem tokens_tile_fused : ∃ ls, tokenize "a NOT/* no */NULL -- end" = .ok ls ∧
    ls.map Lexeme.token = [.identifier "a", .negated .null, .endOfInput] ∧
    ∃ before last, ls = before ++ [last] ∧ Tiles "a NOT/* no */NULL -- end".toList before last := by
  obtain ⟨ls, hls, htokens⟩ := ok_of_any (r := tokenize "a NOT/* no */NULL -- end")
    (p := fun ls => ls.map Lexeme.token = [.identifier "a", .negated .null, .endOfInput])
    (by decide +kernel)
  exact ⟨ls, hls, of_decide_eq_true htokens, tokens_tile hls⟩

end Tiling

end RecordQuery
