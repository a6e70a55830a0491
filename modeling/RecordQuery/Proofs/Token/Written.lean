import RecordQuery.Proofs.Query.Nodes
import RecordQuery.Proofs.Text.Folding
import RecordQuery.Proofs.Token.Lexed

/-! # What tokens hold

A token that was read from a text holds nothing that its own spelling could not hold
(`written_of_tokenize`): a number has no minus sign, a blob has hexadecimal digits, a named
parameter has one of three marks, and the characters of a bare name are plain. A plain character is
a small letter, a digit, an underscore, or beyond ASCII; every letter of a name in lower case is,
since no character has an image among the capital letters and punctuation marks of ASCII
(`mem_lowerChar`). -/

namespace RecordQuery

/-! ### Names in lower case -/

/-- Whether a character can stand in a name in lower case. -/
def isPlainChar (c : Char) : Bool :=
  c.isLower || c.isDigit || c == '_' || decide (0x80 ≤ c.toNat)

theorem isPlainChar_of_isWordChar {c : Char} (h : isWordChar c = true) (hc : c.isUpper = false) :
    isPlainChar c = true := by
  by_cases hascii : c.toNat < 0x80
  · exact forall_ascii (P := fun c => isWordChar c = true → c.isUpper = false →
      isPlainChar c = true) (by decide) hascii h hc
  · simp [isPlainChar, not_lt.mp hascii]

theorem not_isDigit_of_beyond {c : Char} (h : 0x80 ≤ c.toNat) : c.isDigit = false := by
  refine Bool.eq_false_iff.mpr fun hd => ?_
  have hle : c.toNat ≤ 0x39 :=
    UInt32.le_iff_toNat_le.mp (of_decide_eq_true ((Bool.and_eq_true ..).mp hd).2)
  omega

theorem not_isDigit_of_isWordStart {c : Char} (h : isWordStart c = true) : c.isDigit = false := by
  by_cases hascii : c.toNat < 0x80
  · exact forall_ascii (P := fun c => isWordStart c = true → c.isDigit = false) (by decide)
      hascii h
  · exact not_isDigit_of_beyond (not_lt.mp hascii)

/-- The name of a token that is one: plain characters, of which the first one is no digit. -/
structure IsPlainName (name : String) : Prop where
  nonempty : name.toList ≠ []
  start : ∀ c ∈ name.toList.head?, c.isDigit = false
  chars : ∀ c ∈ name.toList, isPlainChar c = true

/-- **A word in lower case** is a plain name. -/
theorem isPlainName_lowerCase {c : Char} {cs : List Char} (hc : isWordStart c = true)
    (hcs : ∀ d ∈ c :: cs, isWordChar d = true) :
    IsPlainName (lowerCase (String.ofList (c :: cs))) := by
  have hlist : (lowerCase (String.ofList (c :: cs))).toList = lowerFrom [] (c :: cs) := by
    rw [lowerCase, String.toList_ofList, String.toList_ofList]
  have hplain : ∀ {d e : Char}, isWordChar e = true →
      ((d = e ∧ e.isUpper = false) ∨ d.isLower = true ∨ 0x80 ≤ d.toNat) →
      isPlainChar d = true := by
    rintro d e he (⟨rfl, hupper⟩ | hlower | hbeyond)
    · exact isPlainChar_of_isWordChar he hupper
    · simp [isPlainChar, hlower]
    · simp [isPlainChar, hbeyond]
  obtain ⟨d, ds, hfirst, hd⟩ := lowerFrom_cons [] c cs
  constructor
  · rw [hlist, hfirst]
    exact List.cons_ne_nil _ _
  · rw [hlist, hfirst]
    rintro _ ⟨⟩
    rcases hd with ⟨rfl, -⟩ | hlower | hbeyond
    · exact not_isDigit_of_isWordStart hc
    · refine Bool.eq_false_iff.mpr fun hdigit => ?_
      have halpha : d.isAlpha = true := (Bool.or_eq_true ..).mpr (.inr hlower)
      rw [not_alpha_of_digit hdigit] at halpha
      cases halpha
    · exact not_isDigit_of_beyond hbeyond
  · rw [hlist]
    intro e he
    obtain ⟨w, hw, hcases⟩ := mem_lowerFrom he
    exact hplain (hcs w hw) hcases

/-! ### Tokens that are read -/

/-- **A token that its spelling can hold.** -/
def Token.Written : Token → Prop
  | .number n => n.Unsigned
  | .blob digits => ∀ c ∈ digits.toList, (hexValue? c).isSome = true
  | .parameter (.named sigil _) => sigil = ':' ∨ sigil = '@' ∨ sigil = '$'
  | .identifier name => IsPlainName name
  | _ => True

/-- A scan that reads, if anything, a token that its spelling can hold. -/
def Scan.Writes (s : Scan) : Prop := ∀ t, s.outcome = .ok t → t.Written

namespace Scan

variable {rest body : List Char} {t : Token} {what : Enclosed} {quote : Char} {skipped : Nat}
  {use : String → List Char → Scan}

theorem writes_found (h : t.Written) : (found t rest).Writes := by
  rintro _ ⟨⟩
  exact h

theorem writes_fail (fault : LexFault) : (fail fault rest).Writes := nofun

theorem writes_enclosed (h : ∀ content rest, (use content rest).Writes) :
    (enclosed what quote skipped body use).Writes := by
  unfold enclosed
  split
  · exact h _ _
  · exact nofun

theorem writes_blob : (blob body).Writes := by
  refine writes_enclosed fun content rest => ?_
  split_ifs with hbad
  · exact writes_fail _
  · simp only [Bool.or_eq_true, Bool.not_eq_true', not_or, Bool.not_eq_false] at hbad
    exact writes_found (List.all_eq_true.mp hbad.2)

theorem writes_numberedParameter : (numberedParameter body).Writes := by
  unfold numberedParameter
  dsimp only
  split_ifs
  · exact writes_found trivial
  · exact writes_found trivial
  · exact writes_fail _

theorem writes_namedParameter {sigil : Char} (h : sigil = ':' ∨ sigil = '@' ∨ sigil = '$') :
    (namedParameter sigil body).Writes := by
  unfold namedParameter
  split
  · exact writes_fail _
  · dsimp only
    split_ifs
    · exact writes_enclosed fun content rest => writes_found h
    · exact writes_found h
    · exact writes_fail _

theorem writes_number : (number body).Writes := by
  unfold number
  dsimp only
  split
  · next n hn => exact writes_found (NumberLiteral.unsigned hn)
  · exact writes_fail _

theorem writes_word {c : Char} (hc : isWordStart c = true) : (word (c :: body)).Writes := by
  unfold word
  dsimp only
  split
  · exact writes_found trivial
  · rw [List.takeWhile_cons_of_pos (isWordChar_of_start hc)]
    refine writes_found (isPlainName_lowerCase hc fun d hd => ?_)
    rcases List.mem_cons.mp hd with rfl | hd
    · exact isWordChar_of_start hc
    · exact List.all_eq_true.mp List.all_takeWhile d hd

/-- **Every token that is scanned** is one that its spelling can hold. -/
theorem writes_scanToken (cs : List Char) : (scanToken cs).Writes := by
  unfold scanToken
  split
  · exact writes_found trivial
  · next c body =>
    split
    · exact writes_found trivial
    · refine iteInduction (fun _ => writes_fail _) fun _ => ?_
      refine iteInduction (fun _ => ?_) fun _ => ?_
      · exact writes_enclosed fun content rest => writes_found trivial
      refine iteInduction (fun _ => ?_) fun _ => ?_
      · exact writes_enclosed fun content rest => writes_found trivial
      refine iteInduction (fun _ => writes_blob) fun _ => ?_
      refine iteInduction (fun _ => writes_numberedParameter) fun _ => ?_
      refine iteInduction (fun hc => writes_namedParameter hc) fun _ => ?_
      refine iteInduction (fun _ => writes_number) fun _ => ?_
      exact iteInduction (fun hc => writes_word hc) fun _ => writes_fail _

end Scan

theorem Source.written_of_next {s s' : Source} {l : Lexeme} (h : s.next = (.ok l, s')) :
    l.token.Written := by
  obtain ⟨cs, hparts⟩ := parts_of_next h
  exact Scan.writes_scanToken cs _ hparts.outcome

theorem Source.Scans.written {s : Source} {ts : List Lexeme} (h : Scans s ts) :
    ∀ l ∈ ts, l.token.Written := by
  induction h with
  | last h => exact List.forall_mem_singleton.mpr (written_of_next h)
  | more h _ _ ih => exact List.forall_mem_cons.mpr ⟨written_of_next h, ih⟩

/-- **The tokens of a text** are tokens that their spellings can hold. -/
theorem written_of_tokenize {text : String} {ls : List Lexeme} (h : tokenize text = .ok ls) :
    ∀ l ∈ ls, l.token.Written := by
  obtain ⟨ts, hscans, rfl⟩ := Source.scans_of_tokenize h
  intro l hl
  obtain hl | hl | ⟨n, hn⟩ := Source.mem_foldl_push (List.mem_reverse.mp hl)
  · cases hl
  · exact hscans.written l hl
  · rw [hn]
    trivial

end RecordQuery
