import Mathlib.Algebra.Group.Nat.Defs
import Mathlib.Data.List.Chain
import RecordQuery.Token.Source

/-! # What is read as a token

The scanner as a relation: one rule for each form of token, with the characters in front of it and
behind it (`Lexed`). `Scan.lexes_scanToken` is the only place where the scanner is unfolded for
that. A token takes a run of characters that is empty for the end of the input alone
(`Lexed.front`), so reading one token after another comes to the end of every text that has tokens,
and what `tokenize` gives is what these tokens fuse to (`Source.scans_of_tokenize`). -/

namespace RecordQuery

/-- **A token** is read from the front of a text. -/
inductive Lexed : List Char → Token → List Char → Prop
  | endOfInput : Lexed [] .endOfInput []
  | symbol {c : Char} {rest : List Char} {s : Symbol} {both : Bool}
      (h : symbolAt? c rest.head? = some (s, both)) :
      Lexed (c :: rest) (.symbol s) (if both then rest.drop 1 else rest)
  | string {body cs rest : List Char} (h : readEnclosed '\'' body = some (cs, rest)) :
      Lexed ('\'' :: body) (.string (String.ofList cs)) rest
  | quotedIdentifier {body cs rest : List Char} (h : readEnclosed '"' body = some (cs, rest)) :
      Lexed ('"' :: body) (.quotedIdentifier (String.ofList cs)) rest
  | blob {x : Char} {body cs rest : List Char} (hx : x = 'x' ∨ x = 'X')
      (h : readEnclosed '\'' body = some (cs, rest)) :
      Lexed (x :: '\'' :: body) (.blob (String.ofList cs)) rest
  | next {rest : List Char} (h : (splitDigits rest).1 = []) :
      Lexed ('?' :: rest) (.parameter .next) (splitDigits rest).2
  | numbered {rest : List Char} (h : 0 < Decimal.natural (splitDigits rest).1)
      (h' : Decimal.natural (splitDigits rest).1 < 2 ^ 32) :
      Lexed ('?' :: rest)
        (.parameter (.numbered (UInt32.ofNat (Decimal.natural (splitDigits rest).1))))
        (splitDigits rest).2
  | quotedName {sigil : Char} {body cs rest : List Char}
      (h : readEnclosed '"' body = some (cs, rest)) :
      Lexed (sigil :: '"' :: body) (.parameter (.named sigil (String.ofList cs))) rest
  | name {sigil c : Char} {body : List Char} (hc : isWordStart c = true) :
      Lexed (sigil :: c :: body)
        (.parameter (.named sigil (lowerCase (String.ofList ((c :: body).takeWhile isWordChar)))))
        ((c :: body).dropWhile isWordChar)
  | number {c : Char} {rest : List Char} {n : Number}
      (hc : c.isDigit = true ∨ c = '.' ∧ rest.head?.any Char.isDigit = true)
      (h : (splitNumber (c :: rest)).1.value? = some n) :
      Lexed (c :: rest) (.number n) (splitNumber (c :: rest)).2
  | keyword {c : Char} {rest : List Char} {k : Keyword} (hc : isWordStart c = true)
      (h : Keyword.ofWord? ((c :: rest).takeWhile isWordChar) = some k) :
      Lexed (c :: rest) (.keyword k) ((c :: rest).dropWhile isWordChar)
  | identifier {c : Char} {rest : List Char} (hc : isWordStart c = true)
      (h : Keyword.ofWord? ((c :: rest).takeWhile isWordChar) = none) :
      Lexed (c :: rest) (.identifier (lowerCase (String.ofList ((c :: rest).takeWhile isWordChar))))
        ((c :: rest).dropWhile isWordChar)

/-! ### The scanner -/

/-- A scan that reads, if anything, a token from the front of a text. -/
def Scan.Lexes (cs : List Char) (s : Scan) : Prop := ∀ t, s.outcome = .ok t → Lexed cs t s.rest

namespace Scan

variable {cs rest body : List Char} {t : Token} {what : Enclosed} {quote : Char} {skipped : Nat}
  {use : String → List Char → Scan}

theorem lexes_found (h : Lexed cs t rest) : (found t rest).Lexes cs := by
  intro u hu
  cases hu
  exact h

theorem lexes_fail (fault : LexFault) : (fail fault rest).Lexes cs := by
  intro t ht
  cases ht

theorem lexes_enclosed
    (h : ∀ content rest, readEnclosed quote body = some (content, rest) →
      (use (String.ofList content) rest).Lexes cs) :
    (enclosed what quote skipped body use).Lexes cs := by
  unfold enclosed
  split
  · next content rest hread => exact h content rest hread
  · exact nofun

theorem lexes_blob {x : Char} (hx : x = 'x' ∨ x = 'X') :
    (blob body).Lexes (x :: '\'' :: body) := by
  refine lexes_enclosed fun content rest hread => ?_
  split
  · exact lexes_fail _
  · exact lexes_found (.blob hx hread)

theorem lexes_numberedParameter : (numberedParameter body).Lexes ('?' :: body) := by
  unfold numberedParameter
  dsimp only
  split
  · next hempty => exact lexes_found (.next (List.isEmpty_iff.mp hempty))
  · split
    · next hn => exact lexes_found (.numbered hn.1 hn.2)
    · exact lexes_fail _

theorem lexes_namedParameter (sigil : Char) : (namedParameter sigil body).Lexes (sigil :: body) := by
  unfold namedParameter
  split
  · exact lexes_fail _
  · next c body =>
    split
    · next hc =>
      subst hc
      exact lexes_enclosed fun content rest hread => lexes_found (.quotedName hread)
    · split
      · next hstart => exact lexes_found (.name hstart)
      · exact lexes_fail _

theorem lexes_number {c : Char}
    (hc : c.isDigit = true ∨ c = '.' ∧ body.head?.any Char.isDigit = true) :
    (number (c :: body)).Lexes (c :: body) := by
  unfold number
  dsimp only
  split
  · next n hn => exact lexes_found (.number hc hn)
  · exact lexes_fail _

theorem lexes_word {c : Char} (hc : isWordStart c = true) : (word (c :: body)).Lexes (c :: body) := by
  unfold word
  dsimp only
  split
  · next k hk => exact lexes_found (.keyword hc hk)
  · next hk => exact lexes_found (.identifier hc hk)

/-- A point that is no symbol stands in front of a digit. -/
theorem digit_of_symbolAt? {next : Option Char} (h : symbolAt? '.' next = none) :
    next.any Char.isDigit = true := by
  change (if next.any Char.isDigit = true then none else some (Symbol.dot, false)) = none at h
  split at h
  · assumption
  · cases h

/-- **Every token that is scanned** is one of the relation. -/
theorem lexes_scanToken (cs : List Char) : (scanToken cs).Lexes cs := by
  unfold scanToken
  split
  · exact lexes_found .endOfInput
  · next c rest =>
    split
    · next hs => exact lexes_found (.symbol hs)
    · next hs =>
      refine iteInduction (fun _ => lexes_fail _) fun _ => ?_
      refine iteInduction (fun hc => ?_) fun _ => ?_
      · subst hc
        exact lexes_enclosed fun content rest hread => lexes_found (.string hread)
      refine iteInduction (fun hc => ?_) fun _ => ?_
      · subst hc
        exact lexes_enclosed fun content rest hread => lexes_found (.quotedIdentifier hread)
      refine iteInduction (fun hc => ?_) fun _ => ?_
      · obtain ⟨hx, hquote⟩ := hc
        obtain ⟨body, rfl⟩ := List.head?_eq_some_iff.mp hquote
        exact lexes_blob hx
      refine iteInduction (fun hc => ?_) fun _ => ?_
      · subst hc
        exact lexes_numberedParameter
      refine iteInduction (fun _ => lexes_namedParameter c) fun _ => ?_
      refine iteInduction (fun hc => ?_) fun _ => ?_
      · refine lexes_number (hc.imp_right fun hdot => ?_)
        subst hdot
        exact ⟨rfl, digit_of_symbolAt? hs⟩
      exact iteInduction (fun hc => lexes_word hc) fun _ => lexes_fail _

end Scan

/-! ### Characters taken -/

theorem readEnclosed_suffix {quote : Char} {cs content rest : List Char}
    (h : readEnclosed quote cs = some (content, rest)) : rest <:+ cs := by
  fun_induction readEnclosed quote cs generalizing content with
  | case1 => cases h
  | case2 =>
    cases h
    exact List.nil_suffix
  | case3 more ih =>
    obtain ⟨⟨content', rest'⟩, hread, heq⟩ := Option.map_eq_some_iff.mp h
    cases heq
    exact ((ih hread).trans (List.suffix_cons _ _)).trans (List.suffix_cons _ _)
  | case4 d more hd =>
    cases h
    exact List.suffix_cons _ _
  | case5 d more hd ih =>
    obtain ⟨⟨content', rest'⟩, hread, heq⟩ := Option.map_eq_some_iff.mp h
    cases heq
    exact (ih hread).trans (List.suffix_cons _ _)

theorem splitDigits_suffix (cs : List Char) : (splitDigits cs).2 <:+ cs :=
  List.dropWhile_suffix Char.isDigit

theorem splitFraction_suffix (cs : List Char) : (splitFraction cs).2 <:+ cs := by
  unfold splitFraction
  split
  · next rest =>
    split
    · exact List.suffix_rfl
    · exact (splitDigits_suffix rest).trans (List.suffix_cons _ _)
  · exact List.suffix_rfl

theorem splitExponent_suffix (cs : List Char) : (splitExponent cs).2 <:+ cs := by
  unfold splitExponent
  split
  · exact List.suffix_rfl
  · next c rest =>
    have hdigits : ∀ (sign : Option Char) (digits : List Char), digits <:+ rest →
        (if (splitDigits digits).1.isEmpty then ((none : Option (Option Char × List Char)), c :: rest)
          else (some (sign, (splitDigits digits).1), (splitDigits digits).2)).2 <:+ c :: rest := by
      intro sign digits hsuffix
      split
      · exact List.suffix_rfl
      · exact ((splitDigits_suffix digits).trans hsuffix).trans (List.suffix_cons c rest)
    split
    · split
      next sign digits hsign =>
      refine hdigits sign digits ?_
      split at hsign <;> cases hsign
      · exact List.suffix_cons _ _
      · exact List.suffix_cons _ _
      · exact List.suffix_rfl
    · exact List.suffix_rfl

/-- A number takes its first character. -/
theorem splitNumber_suffix {c : Char} {rest : List Char}
    (hc : c.isDigit = true ∨ c = '.' ∧ rest.head?.any Char.isDigit = true) :
    (splitNumber (c :: rest)).2 <:+ rest := by
  have hfraction : (splitFraction (splitDigits (c :: rest)).2).2 <:+ rest := by
    by_cases hdigit : c.isDigit = true
    · have hdrop : (splitDigits (c :: rest)).2 = (splitDigits rest).2 :=
        List.dropWhile_cons_of_pos hdigit
      rw [hdrop]
      exact (splitFraction_suffix _).trans (splitDigits_suffix rest)
    · obtain ⟨rfl, hnext⟩ := hc.resolve_left hdigit
      have hdrop : (splitDigits ('.' :: rest)).2 = '.' :: rest :=
        List.dropWhile_cons_of_neg hdigit
      rw [hdrop]
      change (if (splitDigits rest).1.isEmpty then ([], '.' :: rest) else splitDigits rest).2 <:+ rest
      split
      · next hempty =>
        cases rest with
        | nil => cases hnext
        | cons d more =>
          have hd : d.isDigit = true := hnext
          rw [splitDigits, List.takeWhile_cons_of_pos hd] at hempty
          cases hempty
      · exact splitDigits_suffix rest
  exact (splitExponent_suffix _).trans hfraction

theorem isWordChar_of_start {c : Char} (h : isWordStart c = true) : isWordChar c = true := by
  unfold isWordStart at h
  unfold isWordChar
  rw [Bool.or_eq_true] at h
  obtain h | h := h <;> simp [h]

/-- **A token takes characters**, unless it is the end of the input. -/
theorem Lexed.suffix {cs rest : List Char} {t : Token} (h : Lexed cs t rest)
    (ht : t ≠ .endOfInput) : ∃ c body, cs = c :: body ∧ rest <:+ body := by
  cases h with
  | endOfInput => exact absurd rfl ht
  | @symbol c rest s both =>
    refine ⟨c, rest, rfl, ?_⟩
    split
    · exact List.drop_suffix 1 rest
    · exact List.suffix_rfl
  | string h | quotedIdentifier h => exact ⟨_, _, rfl, readEnclosed_suffix h⟩
  | blob hx h => exact ⟨_, _, rfl, (readEnclosed_suffix h).trans (List.suffix_cons _ _)⟩
  | next | numbered => exact ⟨_, _, rfl, splitDigits_suffix _⟩
  | quotedName h => exact ⟨_, _, rfl, (readEnclosed_suffix h).trans (List.suffix_cons _ _)⟩
  | name hc => exact ⟨_, _, rfl, List.dropWhile_suffix _⟩
  | number hc => exact ⟨_, _, rfl, splitNumber_suffix hc⟩
  | keyword hc | identifier hc =>
    refine ⟨_, _, rfl, ?_⟩
    rw [List.dropWhile_cons_of_pos (isWordChar_of_start hc)]
    exact List.dropWhile_suffix _

/-- A number in a text is the value of a literal. -/
theorem Lexed.value {cs rest : List Char} {n : Number} (h : Lexed cs (.number n) rest) :
    ∃ l : NumberLiteral, l.value? = some n := by
  cases h with
  | number _ hn => exact ⟨_, hn⟩

theorem skipTrivia_suffix {mode : Trivia} {cs rest : List Char}
    (h : skipTrivia mode cs = .ok rest) : rest <:+ cs := by
  fun_induction skipTrivia mode cs with
  | case1 => cases h
  | case2 | case6 =>
    cases h
    exact List.suffix_rfl
  | case3 _ _ _ ih | case7 _ ih | case8 _ _ _ ih | case10 _ _ _ _ ih =>
    exact (ih h).trans (List.suffix_cons _ _)
  | case4 _ _ ih | case5 _ _ ih | case9 _ _ ih =>
    exact ((ih h).trans (List.suffix_cons _ _)).trans (List.suffix_cons _ _)

/-! ### Tokens one after another -/

namespace Source

variable {s s' : Source} {l : Lexeme} {cs : List Char}

/-- **A token that is read**: it stands in front of a text, behind blanks and comments, and starts
and stops where the text and what is left of it do. -/
structure Parts (s : Source) (cs : List Char) (l : Lexeme) (s' : Source) : Prop where
  skip : skipTrivia .outside s.rest = .ok cs
  scan : scanToken cs = .found l.token s'.rest
  start : l.start = (s.moveTo cs).position
  moved : s' = (s.moveTo cs).moveTo s'.rest
  stop : l.stop = s'.position.offset

theorem Parts.outcome (h : Parts s cs l s') : (scanToken cs).outcome = .ok l.token := by
  rw [h.scan, Scan.found]

theorem Parts.rest (h : Parts s cs l s') : (scanToken cs).rest = s'.rest := by
  rw [h.scan, Scan.found]

theorem parts_of_next (h : s.next = (.ok l, s')) : ∃ cs, Parts s cs l s' := by
  unfold next at h
  split at h
  · cases h
  · next cs hskip =>
    dsimp only at h
    split at h
    · next t ht =>
      cases h
      refine ⟨cs, hskip, ?_, rfl, rfl, rfl⟩
      change scanToken cs = ⟨.ok t, (scanToken cs).rest⟩
      rw [← ht]
    · cases h

/-- A source moves behind what was read, also where a reading fails. -/
theorem moved_of_next {r : Except LexError Lexeme} (h : s.next = (r, s')) :
    s' = s.moveTo [] ∨ ∃ cs, skipTrivia .outside s.rest = .ok cs ∧
      s' = (s.moveTo cs).moveTo (scanToken cs).rest := by
  unfold next at h
  split at h
  · cases h
    exact .inl rfl
  · next cs hskip =>
    dsimp only at h
    split at h <;> cases h <;> exact .inr ⟨cs, hskip, rfl⟩

/-- A token that is read behind blanks and comments. -/
theorem lexed_of_next (h : s.next = (.ok l, s')) :
    ∃ rest, rest <:+ s.rest ∧ Lexed rest l.token s'.rest := by
  obtain ⟨cs, hparts⟩ := parts_of_next h
  refine ⟨cs, skipTrivia_suffix hparts.skip, ?_⟩
  rw [← hparts.rest]
  exact Scan.lexes_scanToken cs _ hparts.outcome

theorem length_of_next (h : s.next = (.ok l, s'))
    (hl : l.token ≠ .endOfInput) : s'.rest.length < s.rest.length := by
  obtain ⟨rest, hsuffix, hlexed⟩ := lexed_of_next h
  obtain ⟨c, body, rfl, hbody⟩ := hlexed.suffix hl
  have hskip := hsuffix.length_le
  have htoken := hbody.length_le
  rw [List.length_cons] at hskip
  omega

/-- Tokens read one after another, up to the end of the input. -/
inductive Scans : Source → List Lexeme → Prop
  | last {s s' : Source} {l : Lexeme} (h : s.next = (.ok l, s')) (hl : l.token = .endOfInput) :
      Scans s [l]
  | more {s s' : Source} {l : Lexeme} {ls : List Lexeme} (h : s.next = (.ok l, s'))
      (hl : l.token ≠ .endOfInput) (hs : Scans s' ls) : Scans s (l :: ls)

/-- Tokens read one after another, with more of the text behind them. -/
inductive Yields : Source → List Lexeme → Source → Prop
  | nil {s : Source} : Yields s [] s
  | cons {s s₁ s' : Source} {l : Lexeme} {ls : List Lexeme} (h : s.next = (.ok l, s₁))
      (hl : l.token ≠ .endOfInput) (hs : Yields s₁ ls s') : Yields s (l :: ls) s'

theorem Yields.scans {s s' : Source} {ls ts : List Lexeme} (h : Yields s ls s')
    (hs : Scans s' ts) : Scans s (ls ++ ts) := by
  induction h with
  | nil => exact hs
  | cons h hl _ ih => exact .more h hl (ih hs)

theorem Yields.append {s s' s'' : Source} {ls ts : List Lexeme} (h : Yields s ls s')
    (hs : Yields s' ts s'') : Yields s (ls ++ ts) s'' := by
  induction h with
  | nil => exact hs
  | cons h hl _ ih => exact .cons h hl (ih hs)

/-- What is read behind tokens that a text begins with. -/
theorem Yields.left {s s' : Source} {ls ts : List Lexeme} (h : Yields s ls s') (hs : Scans s ts) :
    ∃ us, ts = ls ++ us ∧ Scans s' us := by
  induction h generalizing ts with
  | nil => exact ⟨ts, rfl, hs⟩
  | cons h hl _ ih =>
    cases hs with
    | last h' hl' =>
      rw [h] at h'
      cases h'
      exact absurd hl' hl
    | more h' _ hs' =>
      rw [h] at h'
      cases h'
      obtain ⟨us, rfl, hus⟩ := ih hs'
      exact ⟨us, rfl, hus⟩

/-- The bound on the tokens of a text is never met. -/
theorem scans_of_tokensWithin {n : Nat} {done ls : List Lexeme} {s : Source}
    (h : (tokensWithin n done s).1 = .ok ls) (hn : s.rest.length < n) :
    ∃ ts, Scans s ts ∧ ls = (ts.foldl push done).reverse := by
  induction n generalizing done s with
  | zero => exact absurd hn (Nat.not_lt_zero _)
  | succ n ih =>
    unfold tokensWithin at h
    split at h
    · cases h
    · next l s' hnext =>
      split at h
      · next hl =>
        cases h
        exact ⟨[l], .last hnext hl, rfl⟩
      · next hl =>
        have hlength := length_of_next hnext hl
        obtain ⟨ts, hscans, rfl⟩ := ih h (by omega)
        exact ⟨l :: ts, .more hnext hl hscans, rfl⟩

/-- **The tokens of a text** are those read one after another, fused. -/
theorem scans_of_tokenize {text : String} {ls : List Lexeme} (h : tokenize text = .ok ls) :
    ∃ ts, Scans (ofString text) ts ∧ ls = (ts.foldl push []).reverse :=
  scans_of_tokensWithin h (Nat.lt_succ_self _)

/-- The end of the input stands behind all other tokens. -/
theorem Scans.ends {s : Source} {ts : List Lexeme} (h : Scans s ts) :
    ∃ before last, ts = before ++ [last] ∧ last.token = .endOfInput ∧
      ∀ l ∈ before, l.token ≠ .endOfInput := by
  induction h with
  | last h hl => exact ⟨[], _, rfl, hl, fun _ hk => absurd hk List.not_mem_nil⟩
  | @more _ _ l _ h hl _ ih =>
    obtain ⟨before, last, rfl, hlast, hbefore⟩ := ih
    refine ⟨l :: before, last, rfl, hlast, fun k hk => ?_⟩
    obtain rfl | hk := List.mem_cons.mp hk
    · exact hl
    · exact hbefore k hk

theorem Scans.lexed {s : Source} {ts : List Lexeme} (h : Scans s ts) :
    ∀ l ∈ ts, ∃ cs rest, Lexed cs l.token rest := by
  induction h with
  | last h _ =>
    obtain ⟨cs, -, hlexed⟩ := lexed_of_next h
    intro k hk
    obtain rfl := List.mem_singleton.mp hk
    exact ⟨cs, _, hlexed⟩
  | more h _ _ ih =>
    obtain ⟨cs, -, hlexed⟩ := lexed_of_next h
    intro k hk
    obtain rfl | hk := List.mem_cons.mp hk
    · exact ⟨cs, _, hlexed⟩
    · exact ih k hk

/-! ### Fused tokens -/

variable {done : List Lexeme} {l : Lexeme}

/-- Two tokens that become one. -/
def Fusable (a b : Lexeme) : Prop :=
  ∃ n : Negatable, a.token = .keyword .NOT ∧ b.token = .keyword n.keyword

theorem fuse?_eq_some {a b both : Lexeme} (h : fuse? a b = some both) :
    ∃ n, both.token = .negated n := by
  unfold fuse? at h
  split at h
  · obtain ⟨n, -, rfl⟩ := Option.map_eq_some_iff.mp h
    exact ⟨n, rfl⟩
  · cases h

theorem not_fusable {a b : Lexeme} (h : fuse? a b = none) : ¬ Fusable a b := by
  rintro ⟨n, ha, hb⟩
  simp only [fuse?, ha, hb, Negatable.ofKeyword?_keyword, Option.map_some, reduceCtorEq] at h

theorem not_fusable_negated {a b : Lexeme} {n : Negatable} (h : b.token = .negated n) :
    ¬ Fusable a b := by
  rintro ⟨m, -, hb⟩
  rw [h] at hb
  cases hb

/-- A token is put behind the ones before it, or becomes one with the last of them. -/
theorem push_cases (done : List Lexeme) (l : Lexeme) :
    push done l = l :: done ∧ (∀ last ∈ done.head?, ¬ Fusable last l) ∨
      ∃ last before both n, done = last :: before ∧ push done l = both :: before ∧
        both.token = .negated n := by
  cases done with
  | nil => exact .inl ⟨rfl, fun _ hk => absurd hk (Option.not_mem_none _)⟩
  | cons last before =>
    cases hf : fuse? last l with
    | none =>
      refine .inl ⟨by simp only [push, hf], fun k hk => ?_⟩
      obtain rfl : last = k := Option.some.inj hk
      exact not_fusable hf
    | some both =>
      obtain ⟨n, hn⟩ := fuse?_eq_some hf
      exact .inr ⟨last, before, both, n, rfl, by simp only [push, hf], hn⟩

theorem push_endOfInput (h : l.token = .endOfInput) : push done l = l :: done := by
  cases done with
  | nil => rfl
  | cons last before =>
    have hfuse : fuse? last l = none := by
      unfold fuse?
      rw [h]
      split
      · next hk => cases hk
      · rfl
    simp only [push, hfuse]

/-- No two neighbours are left to become one, the last token first. -/
def Settles (done : List Lexeme) : Prop := done.IsChain fun b a => ¬ Fusable a b

theorem Settles.push (h : Settles done) : Settles (push done l) := by
  obtain ⟨heq, hhead⟩ | ⟨last, before, both, n, rfl, heq, hn⟩ := push_cases done l
  · rw [heq]
    exact List.isChain_cons.mpr ⟨hhead, h⟩
  · rw [heq]
    exact List.isChain_cons.mpr ⟨fun _ _ => not_fusable_negated hn, (List.isChain_cons.mp h).2⟩

theorem Settles.foldl_push {ts : List Lexeme} (h : Settles done) :
    Settles (ts.foldl Source.push done) := by
  induction ts generalizing done with
  | nil => exact h
  | cons t ts ih => exact ih h.push

theorem mem_push {k : Lexeme} (h : k ∈ push done l) :
    k ∈ done ∨ k = l ∨ ∃ n, k.token = .negated n := by
  obtain ⟨heq, -⟩ | ⟨last, before, both, n, rfl, heq, hn⟩ := push_cases done l
  · rw [heq] at h
    obtain rfl | h := List.mem_cons.mp h
    · exact .inr (.inl rfl)
    · exact .inl h
  · rw [heq] at h
    obtain rfl | h := List.mem_cons.mp h
    · exact .inr (.inr ⟨n, hn⟩)
    · exact .inl (List.mem_cons_of_mem _ h)

theorem mem_foldl_push {ts : List Lexeme} {k : Lexeme} (h : k ∈ ts.foldl push done) :
    k ∈ done ∨ k ∈ ts ∨ ∃ n, k.token = .negated n := by
  induction ts generalizing done with
  | nil => exact .inl h
  | cons t ts ih =>
    obtain h | h | h := ih h
    · obtain h | rfl | h := mem_push h
      · exact .inl h
      · exact .inr (.inl List.mem_cons_self)
      · exact .inr (.inr h)
    · exact .inr (.inl (List.mem_cons_of_mem _ h))
    · exact .inr (.inr h)

/-- Fusing keeps the end of the input behind all other tokens. -/
theorem Scans.ends_foldl_push {s : Source} {ts : List Lexeme} (h : Scans s ts) :
    ∃ before last, (ts.foldl Source.push []).reverse = before ++ [last] ∧
      last.token = .endOfInput ∧ ∀ l ∈ before, l.token ≠ .endOfInput := by
  obtain ⟨before, last, rfl, hlast, hbefore⟩ := h.ends
  refine ⟨(before.foldl Source.push []).reverse, last, ?_, hlast, fun l hl => ?_⟩
  · have hpush : Source.push (before.foldl Source.push []) last =
        last :: before.foldl Source.push [] := push_endOfInput hlast
    rw [List.foldl_append, List.foldl_cons, List.foldl_nil, hpush, List.reverse_cons]
  · obtain hl | hl | ⟨n, hn⟩ := mem_foldl_push (List.mem_reverse.mp hl)
    · cases hl
    · exact hbefore l hl
    · rw [hn]
      nofun

end Source

/-! ### The tokens of a text -/

variable {text : String} {ls : List Lexeme}

/-- **The tokens of a text** were each read from it, or are operators that begin with `NOT`. -/
theorem lexed_of_tokenize (h : tokenize text = .ok ls) :
    ∀ l ∈ ls, (∃ cs rest, Lexed cs l.token rest) ∨ ∃ n, l.token = .negated n := by
  obtain ⟨ts, hscans, rfl⟩ := Source.scans_of_tokenize h
  intro l hl
  obtain hl | hl | hl := Source.mem_foldl_push (List.mem_reverse.mp hl)
  · cases hl
  · exact .inl (hscans.lexed l hl)
  · exact .inr hl

/-- A number among the tokens of a text is the value of a literal. -/
theorem literal_of_tokenize (h : tokenize text = .ok ls) {l : Lexeme} {n : Number} (hl : l ∈ ls)
    (hn : l.token = .number n) : ∃ k : NumberLiteral, k.value? = some n := by
  obtain ⟨cs, rest, hlexed⟩ | ⟨m, hm⟩ := lexed_of_tokenize h l hl
  · rw [hn] at hlexed
    exact hlexed.value
  · rw [hn] at hm
    cases hm

/-- No `NOT` of a text is left in front of a word that it forms an operator with. -/
theorem isChain_of_tokenize (h : tokenize text = .ok ls) :
    ls.IsChain fun a b => ¬ Source.Fusable a b := by
  obtain ⟨ts, -, rfl⟩ := Source.scans_of_tokenize h
  exact List.isChain_reverse.mpr (Source.Settles.foldl_push List.isChain_nil)

/-- The tokens of a text end with the end of the input, which stands nowhere else. -/
theorem ends_of_tokenize (h : tokenize text = .ok ls) :
    ∃ before last, ls = before ++ [last] ∧ last.token = .endOfInput ∧
      ∀ l ∈ before, l.token ≠ .endOfInput := by
  obtain ⟨ts, hscans, rfl⟩ := Source.scans_of_tokenize h
  exact hscans.ends_foldl_push

end RecordQuery
