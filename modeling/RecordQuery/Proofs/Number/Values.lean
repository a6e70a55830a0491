import RecordQuery.Number.Literal
import RecordQuery.Proofs.Number.Shortest

/-! # Values of number literals

A literal is an integer if it can be one, else a decimal, else a floating point number
(`NumberLiteral.value?_cases`). There is no sign in a literal, so none of the three is negative. -/

namespace RecordQuery

theorem Decimal.nonneg_of_ofParts? {n scale : Nat} {d : Decimal}
    (h : Decimal.ofParts? n scale = some d) : 0 ≤ d.coefficient := by
  unfold Decimal.ofParts? at h
  split at h
  · cases h
    exact Int.natCast_nonneg _
  · cases h

theorem Decimal.nonneg_of_read? {whole fraction : List Char} {tens : Option Int} {d : Decimal}
    (h : Decimal.read? whole fraction tens = some d) : 0 ≤ d.coefficient := by
  unfold Decimal.read? at h
  obtain ⟨⟨n, scale⟩, -, h⟩ := Option.bind_eq_some_iff.mp h
  dsimp only at h
  cases tens with
  | none => exact nonneg_of_ofParts? h
  | some t =>
    obtain ⟨shifted, -, h⟩ := Option.bind_eq_some_iff.mp h
    exact nonneg_of_ofParts? h

theorem Binary64.unsigned_of_ofRatio? {num den : Nat} {x : Binary64}
    (h : Binary64.ofRatio? num den = some x) : x.negative = false := by
  unfold Binary64.ofRatio? at h
  split at h
  · cases h
    rfl
  · dsimp only at h
    -- the mantissa decides which of two numbers it is
    split at h <;> split at h <;> cases h <;> rfl

theorem Binary64.unsigned_of_ofTens? {n : Nat} {tens : Int} {x : Binary64}
    (h : Binary64.ofTens? n tens = some x) : x.negative = false := by
  unfold Binary64.ofTens? at h
  split at h
  · cases h
    rfl
  · split at h
    · cases h
    · split at h
      · cases h
        rfl
      · exact unsigned_of_ofRatio? h

namespace NumberLiteral

variable {l : NumberLiteral}

/-- A literal that is an integer has neither a point nor an exponent. -/
theorem integer?_eq_some {n : Int64} (h : l.integer? = some n) :
    l.fraction = [] ∧ l.exponent = none ∧ n.toInt = Decimal.natural l.whole := by
  unfold integer? at h
  split at h
  · next hinteger =>
    obtain ⟨hfraction, hexponent, hlt⟩ := hinteger
    cases h
    exact ⟨List.isEmpty_iff.mp hfraction, Option.isNone_iff_eq_none.mp hexponent,
      Int64.toInt_ofNat_of_lt hlt⟩
  · cases h

/-- Where the number of a literal comes from. -/
theorem value?_cases {n : Number} (h : l.value? = some n) :
    (∃ i, n = .integer i ∧ l.integer? = some i) ∨
      (∃ d, n = .real d ∧ Decimal.read? l.whole l.fraction l.tens? = some d) ∨
      ∃ x, n = .float x ∧ l.float? = some x := by
  unfold value? at h
  split at h
  · next i hi =>
    cases h
    exact .inl ⟨i, rfl, hi⟩
  · split at h
    · next d hd =>
      cases h
      exact .inr (.inl ⟨d, rfl, hd⟩)
    · obtain ⟨x, hx, rfl⟩ := Option.map_eq_some_iff.mp h
      exact .inr (.inr ⟨x, rfl, hx⟩)

theorem nonneg_of_value? {n : Int64} (h : l.value? = some (.integer n)) : 0 ≤ n.toInt := by
  obtain ⟨i, ⟨⟩, hi⟩ | ⟨d, ⟨⟩, -⟩ | ⟨x, ⟨⟩, -⟩ := value?_cases h
  rw [(integer?_eq_some hi).2.2]
  exact Int.natCast_nonneg _

/-- A floating point number that a literal denotes has its canonical form. -/
theorem canonical_of_value? {x : Binary64} (h : l.value? = some (.float x)) : x.Canonical := by
  obtain ⟨i, ⟨⟩, -⟩ | ⟨d, ⟨⟩, -⟩ | ⟨x, ⟨⟩, hx⟩ := value?_cases h
  exact Binary64.canonical_of_ofTens? hx

end NumberLiteral

end RecordQuery
