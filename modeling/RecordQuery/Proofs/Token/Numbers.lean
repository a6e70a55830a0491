import RecordQuery.Proofs.Number.Exact
import RecordQuery.Proofs.Token.Apart
import RecordQuery.Proofs.Token.Tiles

/-! # Number literals as tokens

The text of a number literal is one token, or it is out of range (`tokensOf_literal`). An integer is
always the literal itself. A decimal is the literal itself if it has a place for every digit;
otherwise it is the nearest one with the digits it has places for (`literal_held`), which can be
another number: `real_not_exact` is about a literal that is held as zero. -/

namespace RecordQuery

variable {l : NumberLiteral} {cs rest : List Char} {c : Char}

/-- A character that a number can begin with, given the one behind it. -/
def BeginsNumber (c : Char) (next : Option Char) : Prop :=
  c.isDigit = true ∨ c = '.' ∧ next.any Char.isDigit = true

theorem NumberLiteral.WrittenAs.head (h : l.WrittenAs cs) :
    ∃ c rest, cs = c :: rest ∧ BeginsNumber c rest.head? := by
  obtain ⟨letter, -, rfl⟩ := h.text
  rcases hw : l.whole with _ | ⟨c, whole⟩
  · rcases hf : l.fraction with _ | ⟨d, fraction⟩
    · rcases h.begun with hne | hne
      · exact absurd hw hne
      · exact absurd hf hne
    · refine ⟨'.', _, rfl, .inr ⟨rfl, ?_⟩⟩
      exact h.fraction d (hf ▸ List.mem_cons_self)
  · exact ⟨c, _, rfl, .inl (h.whole c (hw ▸ List.mem_cons_self))⟩

theorem symbolAt?_number {next : Option Char} (h : BeginsNumber c next) :
    symbolAt? c next = none := by
  rcases h with hdigit | ⟨rfl, hnext⟩
  · fun_cases symbolAt? c next <;> first | rfl | exact absurd hdigit (by decide)
  · exact if_pos hnext

theorem ne_of_beginsNumber {d : Char} {next : Option Char} (h : BeginsNumber c next)
    (hd : d.isDigit = false) (hpoint : d ≠ '.') : c ≠ d := by
  rintro rfl
  rcases h with hdigit | ⟨hc, -⟩
  · rw [hd] at hdigit
    cases hdigit
  · exact hpoint hc

theorem scanToken_number (h : BeginsNumber c rest.head?) :
    scanToken (c :: rest) = Scan.number (c :: rest) := by
  have hne {d : Char} (hd : d.isDigit = false) (hpoint : d ≠ '.') : c ≠ d :=
    ne_of_beginsNumber h hd hpoint
  rw [Scan.scanToken_cons, symbolAt?_number h]
  dsimp only
  unfold Scan.plain
  rw [if_neg (hne rfl (by decide)), if_neg (hne rfl (by decide)), if_neg (hne rfl (by decide)),
    if_neg, if_neg (hne rfl (by decide)), if_neg, if_pos]
  · exact h.imp_right And.left
  · rintro (hc | hc | hc)
    · exact hne rfl (by decide) hc
    · exact hne rfl (by decide) hc
    · exact hne rfl (by decide) hc
  · rintro ⟨hc | hc, -⟩
    · exact hne rfl (by decide) hc
    · exact hne rfl (by decide) hc

theorem solid_number {next : Option Char} (h : BeginsNumber c next) : Solid (c :: rest) := by
  have hblank : isBlank c = false := by
    refine Bool.eq_false_iff.mpr fun hc => ?_
    obtain ⟨-, -, hdigit, hinner⟩ := isBlank_spec hc
    rcases h with h | ⟨rfl, -⟩
    · rw [hdigit] at h
      cases h
    · exact hinner (by decide)
  exact solid_of_ne hblank (ne_of_beginsNumber h rfl (by decide))
    (ne_of_beginsNumber h rfl (by decide))

/-- A text whose first token is at fault. -/
theorem tokensOf_fault {fault : LexFault} (hs : Solid cs) (hscan : scanToken cs = .fail fault rest) :
    tokensOf cs = .error ⟨fault, .start⟩ := by
  have hsource : Source.ofString (String.ofList cs) = ⟨.start, cs⟩ := by
    rw [Source.ofString, String.toList_ofList]
  have hskip : skipTrivia .outside cs = .ok cs := hs
  have hnext : (Source.next ⟨.start, cs⟩).1 = .error ⟨fault, .start⟩ := by
    simp only [Source.next, hskip, hscan, Scan.fail, Source.moveTo, Nat.sub_self, List.take_zero,
      Position.after_nil]
  rcases hfull : Source.next ⟨.start, cs⟩ with ⟨result, behind⟩
  rw [hfull] at hnext
  obtain rfl : result = .error ⟨fault, .start⟩ := hnext
  rw [tokensOf, tokenize, hsource, Source.tokens, Source.tokensWithin, hfull]
  rfl

/-- A number literal is scanned to its end. -/
theorem scan_literal (h : l.WrittenAs cs) : Solid cs ∧ scanToken cs = match l.value? with
    | some n => .found (.number n) []
    | none => .fail (.outOfRange l.text) [] := by
  obtain ⟨c, rest, rfl, hbegins⟩ := h.head
  refine ⟨solid_number hbegins, ?_⟩
  cases hvalue : l.value? <;>
    simp only [scanToken_number hbegins, Scan.number, NumberLiteral.splitNumber_written h, hvalue]

/-- **A number literal** is one token, or out of range. -/
theorem tokensOf_literal (h : l.WrittenAs cs) : tokensOf cs = match l.value? with
    | some n => .ok [.number n, .endOfInput]
    | none => .error ⟨.outOfRange l.text, .start⟩ := by
  obtain ⟨hsolid, hscan⟩ := scan_literal h
  rcases hvalue : l.value? with _ | n
  · rw [hvalue] at hscan
    exact tokensOf_fault hsolid hscan
  · rw [hvalue] at hscan
    exact tokensOf_one hsolid hscan nofun

/-- **What a number literal is held as.** An integer is the literal. A decimal is the literal if its
digits fit, and the literal up to rounding if they do not. -/
theorem literal_held (h : l.WrittenAs cs) :
    (tokensOf cs = .error ⟨.outOfRange l.text, .start⟩ ∨
      ∃ n, tokensOf cs = .ok [.number n, .endOfInput]) ∧
    (∀ i, tokensOf cs = .ok [.number (.integer i), .endOfInput] → (i.toInt : ℚ) = l.amount) ∧
    ∀ d, tokensOf cs = .ok [.number (.real d), .endOfInput] →
      (l.Fits l.fraction → d.value = l.amount) ∧ ∃ kept dropped, l.Rounds d kept dropped := by
  have htokens := tokensOf_literal h
  have hvalue {n : Number} (hn : tokensOf cs = .ok [.number n, .endOfInput]) :
      l.value? = some n := by
    rw [htokens] at hn
    split at hn
    · next m hm =>
      cases hn
      exact hm
    · cases hn
  refine ⟨?_, fun i hi => ?_, fun d hd => ?_⟩
  · rw [htokens]
    rcases l.value? with _ | n
    · exact .inl rfl
    · exact .inr ⟨n, rfl⟩
  · obtain ⟨j, heq, hinteger⟩ | ⟨d, heq, -⟩ | ⟨x, heq, -⟩ := NumberLiteral.value?_cases (hvalue hi)
    · cases heq
      exact NumberLiteral.integer?_value hinteger
    · cases heq
    · cases heq
  · obtain ⟨i, heq, -⟩ | ⟨e, heq, hread⟩ | ⟨x, heq, -⟩ := NumberLiteral.value?_cases (hvalue hd)
    · cases heq
    · cases heq
      obtain ⟨kept, dropped, hrounds⟩ := NumberLiteral.rounds_of_read? h.fraction hread
      exact ⟨hrounds.eq_amount, kept, dropped, hrounds⟩
    · cases heq

/-- A literal with a digit that a decimal has no place for. -/
def longLiteral : NumberLiteral := ⟨['0'], List.replicate 28 '0' ++ ['1'], none⟩

theorem longLiteral_written :
    longLiteral.WrittenAs "0.00000000000000000000000000001".toList where
  whole := allDigits_zeros 1
  fraction := .append (allDigits_zeros 28) (List.forall_mem_singleton.mpr rfl)
  begun := .inl nofun
  exponent := nofun
  text := ⟨'e', .inl rfl, by decide⟩

theorem tokensOf_longLiteral : tokensOf "0.00000000000000000000000000001".toList =
    .ok [.number (.real ⟨0, 0, by decide, by decide⟩), .endOfInput] := by
  decide +kernel

theorem literal_held_long : ∃ d kept dropped,
    tokensOf "0.00000000000000000000000000001".toList = .ok [.number (.real d), .endOfInput] ∧
      longLiteral.WrittenAs "0.00000000000000000000000000001".toList ∧
      d.text = "0" ∧ longLiteral.Rounds d kept dropped := by
  obtain ⟨-, -, hreal⟩ := literal_held longLiteral_written
  obtain ⟨-, kept, dropped, hrounds⟩ := hreal _ tokensOf_longLiteral
  exact ⟨_, kept, dropped, tokensOf_longLiteral, longLiteral_written, by decide, hrounds⟩

/-- A decimal can be another number than its literal. -/
theorem real_not_exact : ¬ ∀ (l : NumberLiteral) (cs : List Char) (d : Decimal), l.WrittenAs cs →
    tokensOf cs = .ok [.number (.real d), .endOfInput] → d.value = l.amount := by
  intro h
  have hequal := h longLiteral _ _ longLiteral_written tokensOf_longLiteral
  have hone : Decimal.natural (longLiteral.whole ++ longLiteral.fraction) = 1 := by decide
  have hpositive : 0 < longLiteral.amount := by
    unfold NumberLiteral.amount
    rw [hone]
    positivity
  rw [← hequal] at hpositive
  norm_num [Decimal.value] at hpositive

end RecordQuery
