import RecordQuery.Proofs.Token.Numbers
import RecordQuery.Proofs.Token.Recased
import RecordQuery.Proofs.Token.Spread
import RecordQuery.Proofs.Token.Texts

/-! # Tokens that read back

A token is faithful if its text, alone, is read as it (`Token.Faithful`). Then nothing in the text
is passed over as a blank or a comment, and nothing is left of it (`Faithful.scan`): the text of a
token is never longer than the characters that the token is read from (`Lexed.length_text`), numbers
aside, whose texts are literals again. So a faithful token is read from its text in front of
whatever cannot go on the token (`Faithful.scan_append`). -/

namespace RecordQuery

/-- **A token that reads back**: its text has the token and no other. -/
def Token.Faithful (t : Token) : Prop := tokensOf t.text.toList = .ok [t, .endOfInput]

variable {cs body mid rest : List Char} {t : Token}

/-! ### Texts between quotes -/

/-- **A text between quotes** is what was read of it, written out again. -/
theorem eq_of_readEnclosed {quote : Char} (h : readEnclosed quote body = some (cs, rest)) :
    body = cs.flatMap (fun c => if c = quote then [c, c] else [c]) ++ quote :: rest := by
  fun_induction readEnclosed quote body generalizing cs with
  | case1 => cases h
  | case2 =>
    cases h
    rfl
  | case3 more ih =>
    obtain ⟨⟨content, left⟩, hread, heq⟩ := Option.map_eq_some_iff.mp h
    obtain ⟨rfl, rfl⟩ := Prod.mk.inj heq
    rw [ih hread]
    simp
  | case4 d more hd =>
    cases h
    rfl
  | case5 c more hc ih =>
    obtain ⟨⟨content, left⟩, hread, heq⟩ := Option.map_eq_some_iff.mp h
    obtain ⟨rfl, rfl⟩ := Prod.mk.inj heq
    rw [ih hread]
    simp [hc]

theorem toList_enclose (quote : Char) (s : String) : (Token.enclose quote s).toList =
    quote :: (s.toList.flatMap (fun c => if c = quote then [c, c] else [c]) ++ [quote]) := by
  rw [Token.enclose, String.toList_ofList]
  rfl

theorem length_le_flatMap (quote : Char) (cs : List Char) :
    cs.length ≤ (cs.flatMap fun c => if c = quote then [c, c] else [c]).length := by
  induction cs with
  | nil => exact Nat.le_refl _
  | cons c cs ih =>
    rw [List.flatMap_cons, List.length_append, List.length_cons]
    split_ifs <;> simp only [List.length_cons, List.length_nil] <;> omega

/-! ### The length of a text -/

/-- The text of a symbol is the characters that it is read from. -/
theorem toList_symbolAt? {c : Char} {next : Option Char} {s : Symbol} {both : Bool}
    (h : symbolAt? c next = some (s, both)) :
    s.text.toList = c :: if both then next.toList else [] := by
  unfold symbolAt? at h
  split at h <;> (try split_ifs at h) <;> cases h <;> simp_all <;> rfl

theorem length_span (p : Char → Bool) (cs : List Char) :
    (cs.takeWhile p).length + (cs.dropWhile p).length = cs.length := by
  rw [← List.length_append, List.takeWhile_append_dropWhile]

/-- The small form of the letters at the start of a text without the dotted capital I. -/
theorem length_lowerCase (h : '\u0130' ∉ cs) :
    (lowerCase (String.ofList (cs.takeWhile isWordChar))).toList.length +
      (cs.dropWhile isWordChar).length = cs.length := by
  rw [toList_lowerCase, length_lowerFrom fun hmem => h ((List.takeWhile_subset _) hmem),
    length_span]

theorem length_keyword {letters : List Char} {k : Keyword} (h : Keyword.ofWord? letters = some k) :
    k.text.toList.length = letters.length := by
  have htext := List.find?_some (p := fun k : Keyword => k.text.toList == letters.map Char.toUpper) h
  rw [eq_of_beq htext, List.length_map]

/-- **The text of a token** is no longer than the characters that the token is read from, if it
ends with them. The texts of numbers and numbered parameters are set apart. -/
theorem Lexed.length_text (h : Lexed body t mid) (hbody : body <:+ t.text.toList)
    (ht : t ≠ .endOfInput) (hwritten : t.Written) (hnumber : ∀ n, t ≠ .number n)
    (hnumbered : ∀ n, t ≠ .parameter (.numbered n)) :
    t.text.toList.length + mid.length ≤ body.length := by
  cases h with
  | endOfInput => exact absurd rfl ht
  | @symbol c rest s both h =>
    rw [Token.text, toList_symbolAt? h]
    cases both with
    | false => rw [List.length_cons, List.length_cons, Nat.add_comm]; rfl
    | true =>
      obtain ⟨d, hd⟩ := Option.isSome_iff_exists.mp (symbolAt?_double h)
      obtain ⟨more, rfl⟩ := List.head?_eq_some_iff.mp hd
      simp only [if_true, List.drop_one, List.tail_cons, List.head?_cons, Option.toList_some,
        List.length_cons, List.length_nil]
      omega
  | string h | quotedIdentifier h =>
    rw [eq_of_readEnclosed h, Token.text, toList_enclose, String.toList_ofList]
    simp only [List.length_cons, List.length_append, List.length_nil]
    omega
  | @blob _ _ content _ _ h =>
    have := length_le_flatMap '\'' content
    rw [eq_of_readEnclosed h, toList_blob, String.toList_ofList]
    simp only [List.length_cons, List.length_append, List.length_nil]
    omega
  | @next rest =>
    have := (splitDigits_suffix rest).length_le
    rw [List.length_cons]
    change 1 + _ ≤ _
    omega
  | numbered => exact absurd rfl (hnumbered _)
  | @quotedName _ _ content _ h =>
    have := length_le_flatMap '"' content
    rw [eq_of_readEnclosed h, Token.text, Parameter.toList_text]
    simp only [Parameter.tail, String.toList_ofList, List.length_cons, List.length_append]
    omega
  | @name sigil c body hc =>
    rw [Token.text, Parameter.toList_text] at hbody ⊢
    have hsigil : sigil ≠ '\u0130' := by rcases hwritten with rfl | rfl | rfl <;> decide
    have hdotted : '\u0130' ∉ c :: body := fun hmem => by
      obtain h | h := List.mem_cons.mp (hbody.subset (List.mem_cons_of_mem _ hmem))
      · exact hsigil h.symm
      · exact dotted_not_mem_lowerCase _ h
    have hlength := length_lowerCase hdotted
    simp only [List.length_cons, Parameter.tail] at hlength ⊢
    omega
  | number => exact absurd rfl (hnumber _)
  | @keyword c rest k hc h =>
    rw [Token.text, length_keyword h, length_span]
  | identifier hc h =>
    exact (length_lowerCase fun hmem => dotted_not_mem_lowerCase _ (hbody.subset hmem)).le

/-! ### Faithful tokens -/

theorem lexed_of_found (h : scanToken cs = .found t rest) : Lexed cs t rest := by
  have hlexed := Scan.lexes_scanToken cs t (by rw [h]; rfl)
  rwa [h] at hlexed

/-- Tokens read one after another are each scanned from an end of the text. -/
theorem Source.Scans.scanned {s : Source} {ts : List Lexeme} (h : Scans s ts) :
    ∀ l ∈ ts, ∃ body mid, body <:+ s.rest ∧ Solid body ∧ scanToken body = .found l.token mid := by
  induction h with
  | last h =>
    obtain ⟨body, hparts⟩ := parts_of_next h
    exact List.forall_mem_singleton.mpr
      ⟨body, _, skipTrivia_suffix hparts.skip, solid_of_skipTrivia hparts.skip, hparts.scan⟩
  | more h _ _ ih =>
    obtain ⟨body, hparts⟩ := parts_of_next h
    have hbody := skipTrivia_suffix hparts.skip
    have hrest := (lexed_of_found hparts.scan).rest_suffix
    refine List.forall_mem_cons.mpr
      ⟨⟨body, _, hbody, solid_of_skipTrivia hparts.skip, hparts.scan⟩, fun k hk => ?_⟩
    obtain ⟨later, mid, hlater, hsolid, hfound⟩ := ih k hk
    exact ⟨later, mid, (hlater.trans hrest).trans hbody, hsolid, hfound⟩

/-- The only token of a text is scanned from an end of it. -/
theorem scanned_of_tokensOf (h : tokensOf cs = .ok [t, .endOfInput])
    (hn : ∀ n, t ≠ .negated n) :
    ∃ body mid, body <:+ cs ∧ Solid body ∧ scanToken body = .found t mid := by
  obtain ⟨ls, hls, htokens⟩ := tokensOf_ok h
  obtain ⟨ts, hscans, rfl⟩ := Source.scans_of_tokenize hls
  have ht : t ∈ (ts.foldl Source.push []).reverse.map Lexeme.token := by
    rw [htokens]
    exact List.mem_cons_self
  obtain ⟨l, hl, rfl⟩ := List.mem_map.mp ht
  have hscanned := hscans.scanned l
  rw [Source.ofString, String.toList_ofList] at hscanned
  obtain hl | hl | ⟨n, hnegated⟩ := Source.mem_foldl_push (List.mem_reverse.mp hl)
  · cases hl
  · exact hscanned hl
  · exact absurd hnegated (hn n)

/-- The number of a parameter that was read is not zero. -/
theorem Lexed.numbered_pos {n : UInt32} (h : Lexed body (.parameter (.numbered n)) mid) :
    0 < n.toNat := by
  cases h with
  | numbered hpos hlt =>
    rw [UInt32.toNat_ofNat_of_lt' hlt]
    exact hpos

theorem scan_numbered {n : UInt32} (hn : 0 < n.toNat) :
    scanToken ('?' :: Nat.toDigits 10 n.toNat) = .found (.parameter (.numbered n)) [] := by
  have hdigits := @NumberLiteral.splitDigits_ends _ [] (allDigits_toDigits n.toNat) nofun
  rw [List.append_nil] at hdigits
  have hne : (Nat.toDigits 10 n.toNat).isEmpty = false :=
    List.isEmpty_eq_false_iff.mpr Nat.toDigits_ne_nil
  change Scan.numberedParameter (Nat.toDigits 10 n.toNat) = _
  simp only [Scan.numberedParameter, hdigits, hne, Decimal.natural_toDigits]
  simp [hn, n.toNat_lt]

/-- **The text of a faithful token** is read to its end, and nothing of it is passed over. -/
theorem Token.Faithful.scan (h : t.Faithful) (hwritten : t.Written) (ht : t ≠ .endOfInput)
    (hn : ∀ n, t ≠ .negated n) : Solid t.text.toList ∧ scanToken t.text.toList = .found t [] := by
  by_cases hnumber : ∃ n, t = .number n
  · obtain ⟨n, rfl⟩ := hnumber
    obtain ⟨l, hl, htext⟩ := Number.Unsigned.text hwritten
    have hfaithful : tokensOf n.text.toList = .ok [.number n, .endOfInput] := h
    obtain ⟨hsolid, hscan⟩ := scan_literal hl.writtenAs
    rw [htext, tokensOf_literal hl.writtenAs] at hfaithful
    rw [Token.text, htext]
    refine ⟨hsolid, ?_⟩
    rw [hscan]
    split at hfaithful
    · next m hm =>
      cases hfaithful
      rfl
    · cases hfaithful
  by_cases hnumbered : ∃ n, t = .parameter (.numbered n)
  · obtain ⟨n, rfl⟩ := hnumbered
    obtain ⟨body, mid, -, -, hscan⟩ := scanned_of_tokensOf h hn
    rw [Token.text, Parameter.toList_text]
    refine ⟨?_, scan_numbered (lexed_of_found hscan).numbered_pos⟩
    exact @solid_of_ne '?' _ (by decide) (by decide) (by decide)
  · obtain ⟨body, mid, hbody, hsolid, hscan⟩ := scanned_of_tokensOf h hn
    have hlength := (lexed_of_found hscan).length_text hbody ht hwritten (not_exists.mp hnumber)
      (not_exists.mp hnumbered)
    have heq := hbody.eq_of_length_le (by omega)
    subst heq
    obtain rfl : mid = [] := List.length_eq_zero_iff.mp (by omega)
    exact ⟨hsolid, hscan⟩

/-! ### Faithful tokens in front of other text -/

/-- Text that does not go on a token: what cuts it off, a dot behind a name, anything but a digit
behind a dot, anything behind a symbol that no other begins with, and anything but a second minus
behind a minus. -/
inductive Token.Fronts (t : Token) (rest : List Char) : Prop
  | cut (h : Cuts rest)
  | name (ht : t.name?.isSome = true) (h : rest.head? = some '.')
  | dot (ht : t = .symbol .dot) (h : ∀ c ∈ rest.head?, c.isDigit = false)
  | tight (ht : t = .symbol .leftParen ∨ t = .symbol .plus ∨ t = .symbol .tilde)
  | minus (ht : t = .symbol .minus) (h : rest.head? ≠ some '-')

theorem symbolAt?_word {c : Char} {next : Option Char} (hc : isWordStart c = true) :
    symbolAt? c next = none := by
  fun_cases symbolAt? c next <;> first | rfl | exact absurd hc (by decide)

/-- A word is scanned as such, unless it is the mark of a blob. -/
theorem scanToken_word {c : Char} (hc : isWordStart c = true) (hquote : rest.head? ≠ some '\'') :
    scanToken (c :: rest) = Scan.word (c :: rest) := by
  have hne {d : Char} (hd : isWordStart d = false) : c ≠ d := by
    rintro rfl
    rw [hc] at hd
    cases hd
  have hmarks : ∀ d ∈ ['!', '\'', '"', '?', ':', '@', '$', '.'], isWordStart d = false :=
    forall_of_all (by decide)
  rw [Scan.scanToken_cons, symbolAt?_word hc]
  dsimp only
  unfold Scan.plain
  rw [if_neg (hne (hmarks '!' (by simp))), if_neg (hne (hmarks '\'' (by simp))),
    if_neg (hne (hmarks '"' (by simp))), if_neg fun h => hquote h.2,
    if_neg (hne (hmarks '?' (by simp))), if_neg, if_neg, if_pos hc]
  · rintro (hdigit | hpoint)
    · rw [not_isDigit_of_isWordStart hc] at hdigit
      cases hdigit
    · exact hne (hmarks '.' (by simp)) hpoint
  · rintro (h | h | h)
    · exact hne (hmarks ':' (by simp)) h
    · exact hne (hmarks '@' (by simp)) h
    · exact hne (hmarks '$' (by simp)) h

/-- A bare name in front of a dot. -/
theorem scan_identifier {name : String} (h : scanToken cs = .found (.identifier name) [])
    (hr : rest.head? = some '.') : scanToken (cs ++ rest) = .found (.identifier name) rest := by
  have hword : ∀ c ∈ rest.head?, isWordChar c = false := by
    rw [hr]
    rintro _ ⟨⟩
    decide
  have hlexed := lexed_of_found h
  generalize hmid : ([] : List Char) = mid at hlexed
  cases hlexed with
  | @identifier c body hc hkeyword =>
    obtain ⟨htake, hdrop⟩ := Scan.word_append hword (c :: body)
    have hquote : (body ++ rest).head? ≠ some '\'' := by
      intro hhead
      cases body with
      | nil =>
        rw [List.nil_append, hr] at hhead
        exact absurd hhead (by decide)
      | cons d body =>
        obtain rfl : d = '\'' := Option.some.inj hhead
        have hd := List.dropWhile_eq_nil_iff.mp hmid.symm '\'' (by simp)
        exact absurd hd (by decide)
    rw [List.cons_append, scanToken_word hc hquote, ← List.cons_append, Scan.word, htake, hdrop,
      hkeyword, ← hmid]
    rfl

/-- A quoted name in front of a dot. -/
theorem scan_quoted {name : String} (h : scanToken cs = .found (.quotedIdentifier name) [])
    (hr : rest.head? = some '.') :
    scanToken (cs ++ rest) = .found (.quotedIdentifier name) rest := by
  have hlexed := lexed_of_found h
  generalize hmid : ([] : List Char) = mid at hlexed
  cases hlexed with
  | @quotedIdentifier body content _ hread =>
    have hquote : rest.head? ≠ some '"' := by
      rw [hr]
      decide
    have hscan : scanToken ('"' :: (body ++ rest)) =
        Scan.enclosed .quotedIdentifier '"' 0 (body ++ rest) fun s rest =>
          .found (.quotedIdentifier s) rest := rfl
    rw [List.cons_append, hscan, Scan.enclosed, readEnclosed_steady hquote hread, ← hmid]
    rfl

/-- A token that is no minus and no slash does not begin a comment, whatever stands behind it. -/
theorem solid_append_of_scan (hsolid : Solid cs) (hscan : scanToken cs = .found t mid)
    (ht : t ≠ .endOfInput) (hminus : t ≠ .symbol .minus) (hslash : t ≠ .symbol .slash) :
    Solid (cs ++ rest) := by
  cases cs with
  | nil => exact absurd (Scan.found_inj hscan).1.symm ht
  | cons c cs =>
    refine solid_cons.mpr ⟨(solid_cons.mp hsolid).1, ?_, ?_⟩
    · rintro rfl
      have hfound : scanToken ('-' :: cs) = .found (.symbol .minus) cs := rfl
      exact absurd (Scan.found_inj (hscan.symm.trans hfound)).1 hminus
    · rintro rfl
      have hfound : scanToken ('/' :: cs) = .found (.symbol .slash) cs := rfl
      exact absurd (Scan.found_inj (hscan.symm.trans hfound)).1 hslash

/-- **A faithful token** is read from its text in front of what does not go on it. -/
theorem Token.scan_append (ht : t ≠ .endOfInput) (hsolid : Solid t.text.toList)
    (hscan : scanToken t.text.toList = .found t []) (hr : t.Fronts rest) :
    Solid (t.text.toList ++ rest) ∧ scanToken (t.text.toList ++ rest) = .found t rest := by
  cases hr with
  | cut h =>
    have hne : t.text.toList ≠ [] := by
      intro hnil
      rw [hnil] at hscan
      exact ht (Scan.found_inj hscan).1.symm
    exact ⟨hsolid.append hne h, scanToken_steady h hne hscan⟩
  | name hname h =>
    refine ⟨solid_append_of_scan hsolid hscan ht ?_ ?_, ?_⟩
    · rintro rfl
      cases hname
    · rintro rfl
      cases hname
    · cases t <;> first | exact scan_identifier hscan h | exact scan_quoted hscan h | cases hname
  | dot hdot h =>
    subst hdot
    have hdigit : ¬ rest.head?.any Char.isDigit = true := by
      rw [Option.any_eq_true]
      rintro ⟨c, hc, hd⟩
      rw [h c hc] at hd
      cases hd
    have hsymbol : symbolAt? '.' rest.head? = some (.dot, false) := if_neg hdigit
    refine ⟨solid_of_ne (by decide) (by decide) (by decide), ?_⟩
    change scanToken ('.' :: rest) = _
    rw [Scan.scanToken_cons, hsymbol]
    rfl
  | tight htight =>
    rcases htight with rfl | rfl | rfl <;>
      exact ⟨solid_of_ne (by decide) (by decide) (by decide), rfl⟩
  | minus hminus h =>
    subst hminus
    exact ⟨solid_cons.mpr ⟨by decide, fun _ => h, nofun⟩, rfl⟩

/-! ### Names and reserved words -/

theorem solid_of_isWordStart {c : Char} (hc : isWordStart c = true) : Solid (c :: rest) := by
  have hne {d : Char} (hd : isWordStart d = false) : c ≠ d := by
    rintro rfl
    rw [hc] at hd
    cases hd
  refine solid_of_ne ?_ (hne (by decide)) (hne (by decide))
  by_contra hblank
  have hword := (isBlank_spec (Bool.of_not_eq_false hblank)).2.1
  rw [hc] at hword
  cases hword

theorem solid_of_name {name : String} (h : scanToken cs = .found t rest)
    (ht : t.name? = some name) : Solid cs := by
  cases lexed_of_found h with
  | identifier hc => exact solid_of_isWordStart hc
  | quotedIdentifier => exact solid_of_ne (by decide) (by decide) (by decide)
  | _ => cases ht

/-- A name in front of what cuts it off. -/
theorem scan_name {name : String} (h : scanToken cs = .found t []) (ht : t.name? = some name)
    (hr : Cuts rest) : Solid (cs ++ rest) ∧ scanToken (cs ++ rest) = .found t rest := by
  have hne : cs ≠ [] := by
    intro hnil
    rw [hnil] at h
    obtain rfl := (Scan.found_inj h).1
    cases ht
  exact ⟨(solid_of_name h ht).append hne hr, scanToken_steady hr hne h⟩

theorem parting_space : Parting ' ' := by decide

theorem closed_space : Closed [' '] := fun _ => .blank (by decide) .nil

/-- A reserved word is a word in capital letters. -/
theorem Keyword.word_spec (k : Keyword) : (k.text.toList.head?.any isWordStart) = true ∧
    (k.text.toList.all fun c => isWordChar c && c.toUpper == c) = true := by
  cases k <;> decide

theorem Keyword.ofWord?_text (k : Keyword) : ofWord? k.text.toList = some k := by
  have hupper : k.text.toList.map Char.toUpper = k.text.toList.map id :=
    List.map_congr_left fun c hc =>
      eq_of_beq (Bool.and_eq_true_iff.mp (List.all_eq_true.mp k.word_spec.2 c hc)).2
  have hbeq : (fun j : Keyword => j.text.toList == k.text.toList) = fun j => j.text == k.text := by
    funext j
    rw [Bool.eq_iff_iff, beq_iff_eq, beq_iff_eq, String.toList_inj]
  rw [ofWord?, hupper, List.map_id, hbeq, find_text]

theorem scan_keywordText (k : Keyword) :
    Solid k.text.toList ∧ scanToken k.text.toList = .found (.keyword k) [] := by
  have hword : ∀ c ∈ k.text.toList, isWordChar c = true := fun c hc =>
    (Bool.and_eq_true_iff.mp (List.all_eq_true.mp k.word_spec.2 c hc)).1
  have hlookup := k.ofWord?_text
  obtain ⟨c, hc, hstart⟩ := (Option.any_eq_true _ _).mp k.word_spec.1
  obtain ⟨cs, htext⟩ := List.head?_eq_some_iff.mp hc
  rw [htext] at hword hlookup ⊢
  have hquote : cs.head? ≠ some '\'' := by
    intro hhead
    have hmark := hword _ (List.mem_cons_of_mem c (List.mem_of_head? hhead))
    exact absurd hmark (by decide)
  refine ⟨solid_of_isWordStart hstart, ?_⟩
  rw [scanToken_word hstart hquote, Scan.word, List.takeWhile_eq_self_iff.mpr hword, hlookup,
    List.dropWhile_eq_nil_iff.mpr hword]

/-- A reserved word in front of what cuts it off. -/
theorem scan_keyword (k : Keyword) (hr : Cuts rest) : Solid (k.text.toList ++ rest) ∧
    scanToken (k.text.toList ++ rest) = .found (.keyword k) rest := by
  obtain ⟨hsolid, hscan⟩ := scan_keywordText k
  exact Token.scan_append (t := .keyword k) nofun hsolid hscan (.cut hr)

end RecordQuery
