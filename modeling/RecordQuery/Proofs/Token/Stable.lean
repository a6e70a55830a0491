import RecordQuery.Proofs.Token.Faithful

/-! # Names that stay names

A bare name is a word that is not reserved, put in lower case. Whether a word is reserved is asked
before that, and for ASCII letters only, but lower case is that of all characters: the Kelvin sign
becomes a `k`, and the dotted capital I becomes two characters, of which the second is none of a
word. So the name of a token can be a reserved word itself, and it need not be a word at all.
`names_stable_iff` says when: the only reserved word among names is `like`, from a word with the
Kelvin sign, and a name that is not reserved reads back exactly if its word has no dotted capital I.

* `scanToken_identifier`: the bare names are the words that are not reserved, as they are scanned.
* `kelvin_of_reserved`: without the Kelvin sign, no name is reserved.
* `isWord_lowerFrom`: without the dotted capital I, a name is a word. -/

namespace RecordQuery

open Keyword (ofWord?)

variable {c d : Char} {cs rest : List Char} {name : String} {k : Keyword}

/-! ### Words -/

/-- **A word**: characters of words, and in front one that can start a word. -/
structure IsWord (cs : List Char) : Prop where
  start : ∃ c ∈ cs.head?, isWordStart c = true
  chars : ∀ c ∈ cs, isWordChar c = true

theorem scanToken_identifier : scanToken cs = .found (.identifier name) [] ↔
    IsWord cs ∧ ofWord? cs = none ∧ name = lowerCase (String.ofList cs) := by
  constructor
  · intro h
    have hlexed := lexed_of_found h
    generalize hrest : ([] : List Char) = rest at hlexed
    cases hlexed with
    | @identifier c body hc hk =>
      have hchars := List.dropWhile_eq_nil_iff.mp hrest.symm
      rw [List.takeWhile_eq_self_iff.mpr hchars] at hk ⊢
      exact ⟨⟨⟨c, rfl, hc⟩, hchars⟩, hk, rfl⟩
  · rintro ⟨⟨⟨c, hhead, hc⟩, hchars⟩, hk, rfl⟩
    obtain ⟨body, rfl⟩ := List.head?_eq_some_iff.mp hhead
    have hquote : body.head? ≠ some '\'' := by
      intro hhead
      have hmark := hchars _ (List.mem_cons_of_mem c (List.mem_of_head? hhead))
      exact absurd hmark (by decide)
    rw [scanToken_word hc hquote, Scan.word, List.takeWhile_eq_self_iff.mpr hchars, hk,
      List.dropWhile_eq_nil_iff.mpr hchars]

theorem IsWord.solid (h : IsWord cs) : Solid cs := by
  obtain ⟨c, hhead, hc⟩ := h.start
  obtain ⟨body, rfl⟩ := List.head?_eq_some_iff.mp hhead
  exact solid_of_isWordStart hc

/-- A word stays one in lower case, unless it has the dotted capital I. -/
theorem isWord_lowerFrom (h : IsWord cs) (hdotted : '\u0130' ∉ cs) : IsWord (lowerFrom [] cs) := by
  have hletter {c : Char} (hc : isLetter c = true) : isWordStart c = true := by
    rw [isWordStart, hc, Bool.true_or]
  obtain ⟨c, hhead, hc⟩ := h.start
  obtain ⟨body, rfl⟩ := List.head?_eq_some_iff.mp hhead
  constructor
  · obtain ⟨d, ds, hfirst, hd⟩ :=
      head_lowerFrom [] body fun he => hdotted (he ▸ List.mem_cons_self)
    refine ⟨d, by rw [hfirst]; rfl, ?_⟩
    obtain rfl | hd := hd
    · exact hc
    · exact hletter hd
  · intro d hd
    obtain ⟨-, hmem | hd⟩ := smallForm_lowerFrom hdotted d hd
    · exact h.chars d hmem
    · exact isWordChar_of_start (hletter hd)

/-- The dotted capital I leaves a mark in lower case that is no character of a word. -/
theorem not_isWord_lowerFrom (hdotted : '\u0130' ∈ cs) : ¬ IsWord (lowerFrom [] cs) := by
  intro h
  have hmark : '\u0307' ∈ lowerFrom [] cs :=
    mem_lowerFrom_of_lowerChar hdotted (by decide) (by decide)
  exact absurd (h.chars _ hmark) (by decide)

/-! ### Reserved words -/

/-- **A reserved word** in any case of its letters. -/
def Reserved (name : String) : Prop := ∃ k : Keyword, name.toList.map Char.toUpper = k.text.toList

theorem reserved_iff : Reserved name ↔ ofWord? name.toList ≠ none := by
  constructor
  · rintro ⟨k, hk⟩ hnone
    have hall : k ∈ Keyword.all := List.mem_of_find?_eq_some k.find_text
    exact List.find?_eq_none.mp hnone k hall (beq_iff_eq.mpr hk.symm)
  · intro h
    obtain ⟨k, hk⟩ := Option.ne_none_iff_exists'.mp h
    have htext := List.find?_some (p := fun k : Keyword =>
      k.text.toList == name.toList.map Char.toUpper) hk
    exact ⟨k, (eq_of_beq htext).symm⟩

theorem toUpper_of_beyond (h : 0x80 ≤ c.toNat) : c.toUpper = c := by
  refine dif_neg fun hc => ?_
  have hle : c.toNat ≤ 0x7a := UInt32.le_iff_toNat_le.mp hc.2
  omega

/-- A word whose capital letters spell a reserved word is ASCII. -/
theorem ascii_of_toUpper (h : cs.map Char.toUpper = k.text.toList) : ∀ c ∈ cs, c.toNat < 0x80 := by
  have hall : ∀ c ∈ k.text.toList, c.toNat < 0x80 := forall_of_all (by cases k <;> decide)
  intro c hc
  by_contra hbeyond
  have hupper := hall c.toUpper (h ▸ List.mem_map_of_mem hc)
  rw [toUpper_of_beyond (not_lt.mp hbeyond)] at hupper
  exact hbeyond hupper

/-- Small letters are told from their capitals. -/
theorem map_toLower_toUpper (hascii : ∀ c ∈ cs, c.toNat < 0x80)
    (hsmall : cs.any Char.isUpper = false) : (cs.map Char.toUpper).map Char.toLower = cs := by
  rw [List.map_map]
  refine (List.map_congr_left fun c hc => ?_).trans (List.map_id cs)
  exact forall_ascii (P := fun c => c.isUpper = false → c.toUpper.toLower = c) (by decide)
    (hascii c hc) (Bool.eq_false_iff.mpr (List.any_eq_false.mp hsmall c hc))

/-- **Without the Kelvin sign**, the name of a word is reserved only if the word is. -/
theorem kelvin_of_reserved (hword : ofWord? cs = none)
    (h : (lowerFrom [] cs).map Char.toUpper = k.text.toList) : '\u212a' ∈ cs := by
  by_contra hkelvin
  have hlower : lowerFrom [] cs = cs.map Char.toLower :=
    lowerFrom_ascii hkelvin (ascii_of_toUpper h)
  have hsame : (cs.map Char.toLower).map Char.toLower = cs.map Char.toLower := by
    rw [List.map_map]
    exact List.map_congr_left fun c _ => toLower_invariant (p := Char.toLower) (by decide) c
  have hreserved : Reserved (String.ofList (cs.map Char.toLower)) :=
    ⟨k, by rw [String.toList_ofList, ← hlower, h]⟩
  rw [reserved_iff, String.toList_ofList, Keyword.ofWord?_congr hsame, hword] at hreserved
  exact hreserved rfl

/-- **The only reserved name** is `like`: no other reserved word has a `K`. -/
theorem reserved_lowerCase_iff (hword : ofWord? cs = none) :
    Reserved (lowerCase (String.ofList cs)) ↔
      lowerCase (String.ofList cs) = "like" ∧ '\u212a' ∈ cs := by
  constructor
  · rintro ⟨k, hk⟩
    rw [toList_lowerCase] at hk
    have hkelvin := kelvin_of_reserved hword hk
    have hmem : 'K' ∈ k.text.toList := by
      rw [← hk]
      exact List.mem_map_of_mem (f := Char.toUpper)
        (mem_lowerFrom_of_lowerChar (d := 'k') hkelvin (by decide) (by decide))
    obtain rfl : k = .LIKE := by
      cases k <;> first | rfl | exact absurd hmem (by decide)
    refine ⟨?_, hkelvin⟩
    rw [← String.toList_inj, toList_lowerCase,
      ← map_toLower_toUpper (ascii_of_toUpper hk) (any_lowerFrom [] cs), hk]
    decide
  · rintro ⟨hlike, -⟩
    rw [hlike]
    exact ⟨.LIKE, by decide⟩

/-! ### Names -/

/-- The name of a token that was scanned is scanned as that token again exactly if it is not
reserved and its word has no dotted capital I. -/
theorem scan_name_iff (h : scanToken cs = .found (.identifier name) []) :
    scanToken name.toList = .found (.identifier name) [] ↔ ¬ Reserved name ∧ '\u0130' ∉ cs := by
  obtain ⟨hword, -, rfl⟩ := scanToken_identifier.mp h
  rw [scanToken_identifier, reserved_iff, not_not, toList_lowerCase]
  constructor
  · rintro ⟨hsmall, hnone, -⟩
    exact ⟨hnone, fun hdotted => not_isWord_lowerFrom hdotted hsmall⟩
  · rintro ⟨hnone, hdotted⟩
    refine ⟨isWord_lowerFrom hword hdotted, hnone, ?_⟩
    rw [← String.toList_inj, toList_lowerCase, toList_lowerCase,
      lowerFrom_small fun d hd => (smallForm_lowerFrom hdotted d hd).1]

theorem tokensOf_name_iff (h : scanToken cs = .found (.identifier name) []) :
    tokensOf name.toList = .ok [.identifier name, .endOfInput] ↔
      ¬ Reserved name ∧ '\u0130' ∉ cs := by
  rw [← scan_name_iff h]
  constructor
  · intro hone
    have hwritten : (Token.identifier name).Written := Scan.writes_scanToken cs _ (by rw [h]; rfl)
    have hfaithful : (Token.identifier name).Faithful := hone
    exact (hfaithful.scan hwritten nofun nofun).2
  · intro hscan
    exact tokensOf_one (scanToken_identifier.mp hscan).1.solid hscan nofun

/-- **When bare names are stable.** A bare name in a text is its word in lower case. It is reserved
only if that word spells `like` with the Kelvin sign, and it is read as the same name again, and
nothing else, exactly if it is not reserved and its word has no dotted capital I. -/
theorem names_stable_iff {text : String} {ls : List Lexeme} {l : Lexeme}
    (h : tokenize text = .ok ls) (hl : l ∈ ls) (hname : l.token = .identifier name) :
    let word := stretch text.toList l.start.offset l.stop
    name = lowerCase (String.ofList word) ∧
      (Reserved name ↔ name = "like" ∧ '\u212a' ∈ word) ∧
      (tokensOf name.toList = .ok [.identifier name, .endOfInput] ↔
        ¬ Reserved name ∧ '\u0130' ∉ word) := by
  intro word
  have hscan : scanToken word = .found (.identifier name) [] := by
    cases read_of_tokenize h l hl with
    | one hstands => exact hname ▸ hstands.scan_stretch.2
    | fused _ _ _ _ hfuse =>
      obtain ⟨n, k, -, -, -, rfl⟩ := fuse?_words hfuse
      cases hname
  obtain ⟨-, hnone, hlower⟩ := scanToken_identifier.mp hscan
  refine ⟨hlower, ?_, tokensOf_name_iff hscan⟩
  rw [hlower]
  exact reserved_lowerCase_iff hnone

/-- Letters beyond ASCII are put in lower case, and stay. -/
theorem names_stable_accents : ∃ ls, tokenize "x.ÉTAT" = .ok ls ∧
    (∃ l ∈ ls, l.token = .identifier "état") ∧ ¬ Reserved "état" ∧
    tokensOf "état".toList = .ok [.identifier "état", .endOfInput] := by
  have htokens : tokenize "x.ÉTAT" = .ok [⟨.identifier "x", ⟨0, 1, 1⟩, 1⟩,
      ⟨.symbol .dot, ⟨1, 1, 2⟩, 2⟩, ⟨.identifier "état", ⟨2, 1, 3⟩, 6⟩,
      ⟨.endOfInput, ⟨6, 1, 7⟩, 6⟩] := by decide +kernel
  have hmem : (⟨.identifier "état", ⟨2, 1, 3⟩, 6⟩ : Lexeme) ∈ [⟨.identifier "x", ⟨0, 1, 1⟩, 1⟩,
      ⟨.symbol .dot, ⟨1, 1, 2⟩, 2⟩, ⟨.identifier "état", ⟨2, 1, 3⟩, 6⟩,
      ⟨.endOfInput, ⟨6, 1, 7⟩, 6⟩] := by decide
  obtain ⟨-, hreserved, hstable⟩ := names_stable_iff htokens hmem rfl
  have hfree : ¬ Reserved "état" := fun h => absurd (hreserved.mp h).1 (by decide)
  exact ⟨_, htokens, ⟨_, hmem, rfl⟩, hfree, hstable.mpr ⟨hfree, by decide⟩⟩

/-- The Kelvin sign makes a name of a reserved word, and the dotted capital I one of no word. -/
theorem names_not_stable :
    (tokenize "LI\u212aE" =
        .ok [⟨.identifier "like", ⟨0, 1, 1⟩, 4⟩, ⟨.endOfInput, ⟨4, 1, 5⟩, 4⟩] ∧
      Reserved "like" ∧ tokensOf "like".toList = .ok [.keyword .LIKE, .endOfInput]) ∧
    tokenize "\u0130" =
        .ok [⟨.identifier "i\u0307", ⟨0, 1, 1⟩, 1⟩, ⟨.endOfInput, ⟨1, 1, 2⟩, 1⟩] ∧
      ¬ Reserved "i\u0307" ∧
      tokensOf "i\u0307".toList ≠ .ok [.identifier "i\u0307", .endOfInput] := by
  refine ⟨⟨by decide +kernel, ⟨.LIKE, by decide⟩, by decide +kernel⟩, by decide +kernel, ?_,
    by decide +kernel⟩
  rw [reserved_iff]
  decide +kernel

end RecordQuery
