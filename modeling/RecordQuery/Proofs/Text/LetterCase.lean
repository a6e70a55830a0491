import RecordQuery.Text.Character
import RecordQuery.Text.LowerCase
import RecordQuery.Text.Letter
import RecordQuery.Token.Keyword

/-! # The case of ASCII letters

What a capital ASCII letter and its small one have in common. A property of characters that does not
tell these apart does not tell apart any two characters with one small form (`congr_toLower`); there
are 26 capitals to look at. So reserved words, and words in lower case, do not depend on the case of
ASCII letters. A text in lower case has no capital (`hasCapital_lowerCase`). -/

namespace RecordQuery

/-- The capital letters of ASCII. -/
def capitals : List Char := (List.range' 0x41 26).map Char.ofNat

theorem toNat_of_isUpper {c : Char} (h : c.isUpper = true) : 0x41 ≤ c.toNat ∧ c.toNat ≤ 0x5a := by
  obtain ⟨hlow, hhigh⟩ := of_decide_eq_true h
  exact ⟨UInt32.le_iff_toNat_le.mp hlow, UInt32.le_iff_toNat_le.mp hhigh⟩

theorem not_alpha_of_digit {c : Char} (h : c.isDigit = true) : c.isAlpha = false := by
  refine Bool.eq_false_iff.mpr fun halpha => ?_
  have hdigit : c.toNat ≤ 0x39 :=
    UInt32.le_iff_toNat_le.mp (of_decide_eq_true ((Bool.and_eq_true ..).mp h).2)
  rcases (Bool.or_eq_true ..).mp halpha with hupper | hlower
  · have hbounds := toNat_of_isUpper hupper
    omega
  · have hlow : 0x61 ≤ c.toNat :=
      UInt32.le_iff_toNat_le.mp (of_decide_eq_true ((Bool.and_eq_true ..).mp hlower).1)
    omega

theorem mem_capitals_of_isUpper {c : Char} (h : c.isUpper = true) : c ∈ capitals := by
  have hbounds := toNat_of_isUpper h
  exact List.mem_map.mpr ⟨c.toNat, List.mem_range'_1.mpr (by omega), Char.ofNat_toNat c⟩

theorem toLower_of_not_mem {c : Char} (h : c ∉ capitals) : c.toLower = c :=
  dif_neg fun hc => h (mem_capitals_of_isUpper (decide_eq_true hc))

/-- What is checked on the members of a list, one by one, and not on a whole type. -/
theorem forall_of_all {α : Type} {p : α → Prop} [DecidablePred p] {l : List α}
    (h : (l.all fun a => decide (p a)) = true) : ∀ a ∈ l, p a :=
  fun a ha => of_decide_eq_true (List.all_eq_true.mp h a ha)

/-- What is checked on code points holds of the characters of ASCII. -/
theorem forall_ascii {P : Char → Prop} (h : ∀ n < 0x80, P (Char.ofNat n)) {c : Char}
    (hc : c.toNat < 0x80) : P c := by
  have hn := h c.toNat hc
  rwa [Char.ofNat_toNat] at hn

/-- What is checked on code points holds of the capitals. -/
theorem forall_capitals {P : Char → Prop} (h : ∀ n < 26, P (Char.ofNat (0x41 + n))) :
    ∀ c ∈ capitals, P c := by
  intro c hc
  obtain ⟨n, hn, rfl⟩ := List.mem_map.mp hc
  obtain ⟨hlow, hhigh⟩ := List.mem_range'_1.mp hn
  have hcode := h (n - 0x41) (by omega)
  rwa [Nat.add_sub_cancel' hlow] at hcode

section Invariance
variable {β : Type} {p : Char → β} {c d : Char}

theorem toLower_invariant
    (h : ∀ n < 26, p (Char.ofNat (0x41 + n)).toLower = p (Char.ofNat (0x41 + n))) (c : Char) :
    p c.toLower = p c := by
  by_cases hc : c ∈ capitals
  · exact forall_capitals (P := fun c => p c.toLower = p c) h c hc
  · rw [toLower_of_not_mem hc]

/-- **What does not tell a capital from its small letter** does not depend on case. -/
theorem congr_toLower
    (h : ∀ n < 26, p (Char.ofNat (0x41 + n)).toLower = p (Char.ofNat (0x41 + n)))
    (hcd : c.toLower = d.toLower) : p c = p d := by
  rw [← toLower_invariant h c, hcd, toLower_invariant h d]

end Invariance

section Kinds
variable {c d : Char}

theorem isWordChar_congr (h : c.toLower = d.toLower) : isWordChar c = isWordChar d :=
  congr_toLower (by decide) h

theorem isWordStart_congr (h : c.toLower = d.toLower) : isWordStart c = isWordStart d :=
  congr_toLower (by decide) h

theorem isBlank_congr (h : c.toLower = d.toLower) : isBlank c = isBlank d :=
  congr_toLower (by decide) h

theorem isDigit_congr (h : c.toLower = d.toLower) : c.isDigit = d.isDigit :=
  congr_toLower (p := Char.isDigit) (by decide) h

theorem isAlpha_congr (h : c.toLower = d.toLower) : c.isAlpha = d.isAlpha :=
  congr_toLower (p := Char.isAlpha) (by decide) h

theorem toLower_of_not_alpha (h : c.isAlpha = false) : c.toLower = c := by
  refine toLower_of_not_mem fun hc => ?_
  have hall : ∀ x ∈ capitals, x.isAlpha = true := forall_capitals (by decide)
  rw [hall c hc] at h
  cases h

/-- A character that is no ASCII letter has no other case. -/
theorem eq_of_toLower (h : c.toLower = d.toLower) (hc : c.isAlpha = false) : c = d := by
  have hd : d.isAlpha = false := isAlpha_congr h ▸ hc
  rw [← toLower_of_not_alpha hc, h, toLower_of_not_alpha hd]

/-- So both are that character, or neither is. -/
theorem eq_iff_of_toLower (h : c.toLower = d.toLower) {x : Char} (hx : x.isAlpha = false) :
    c = x ↔ d = x := by
  constructor
  · rintro rfl
    exact (eq_of_toLower h hx).symm
  · rintro rfl
    exact (eq_of_toLower h.symm hx).symm

end Kinds

/-! ### Words -/

section Words
variable {cs ds : List Char}

theorem Keyword.ofWord?_congr (h : cs.map Char.toLower = ds.map Char.toLower) :
    ofWord? cs = ofWord? ds := by
  have hupper : ∀ cs : List Char, cs.map Char.toUpper = (cs.map Char.toLower).map Char.toUpper := by
    intro cs
    rw [List.map_map]
    exact List.map_congr_left fun c _ =>
      (toLower_invariant (p := Char.toUpper) (by decide) c).symm
  unfold ofWord?
  rw [hupper cs, h, ← hupper ds]

theorem casedNext_map (cs : List Char) : casedNext (cs.map Char.toLower) = casedNext cs := by
  have hskip : caseIgnorable.contains ∘ Char.toLower = caseIgnorable.contains :=
    funext (toLower_invariant (by decide))
  have hcased : (fun c => cased.contains c.toLower) = cased.contains :=
    funext (toLower_invariant (by decide))
  rw [casedNext, casedNext, List.dropWhile_map, hskip, List.head?_map, Option.any_map, hcased]

theorem lowerFrom_map (before cs : List Char) :
    lowerFrom (before.map Char.toLower) (cs.map Char.toLower) = lowerFrom before cs := by
  induction cs generalizing before with
  | nil => rfl
  | cons c cs ih =>
    have hsigma : (c.toLower = 'Σ') = (c = 'Σ') :=
      toLower_invariant (p := fun c => c = 'Σ') (by decide) c
    have hchar : lowerChar c.toLower = lowerChar c := toLower_invariant (by decide) c
    rw [List.map_cons, lowerFrom, lowerFrom, ← List.map_cons, ih, casedNext_map, casedNext_map,
      hchar]
    simp only [hsigma]

/-- **Words in lower case** do not depend on the case of ASCII letters. -/
theorem lowerCase_congr (h : cs.map Char.toLower = ds.map Char.toLower) :
    lowerCase (String.ofList cs) = lowerCase (String.ofList ds) := by
  have hlower : ∀ cs, lowerFrom [] cs = lowerFrom [] (cs.map Char.toLower) := fun cs =>
    (lowerFrom_map [] cs).symm
  unfold lowerCase
  rw [String.toList_ofList, String.toList_ofList, hlower cs, h, ← hlower ds]

end Words

/-! ### Lower case -/

/-- Whether a text has a capital letter of ASCII. -/
def hasCapital (s : String) : Bool := s.toList.any Char.isUpper

namespace CaseRun

variable {r : CaseRun} {n m : Nat}

theorem image?_eq_some : r.image? n = some m ↔
    (r.first ≤ n ∧ n ≤ r.last ∧ (n - r.first) % r.step = 0) ∧ r.image + (n - r.first) = m := by
  unfold image?
  split
  · next h => simp [h]
  · next h => simp [h]

theorem image_le (h : r.image? n = some m) : r.image ≤ m ∧ m ≤ r.image + (r.last - r.first) := by
  obtain ⟨hin, rfl⟩ := image?_eq_some.mp h
  omega

end CaseRun

/-- **A code point stays, or it has an image** under a run. -/
theorem lowerCode_image (runs : List CaseRun) (n : Nat) :
    lowerCode runs n = n ∨ ∃ r ∈ runs, r.image? n = some (lowerCode runs n) := by
  induction runs with
  | nil => exact .inl rfl
  | cons r runs ih =>
    rw [lowerCode]
    split
    · exact .inl rfl
    · rcases hr : r.image? n with _ | m
      · obtain hsame | ⟨s, hs, himage⟩ := ih
        · exact .inl hsame
        · exact .inr ⟨s, List.mem_cons_of_mem r hs, himage⟩
      · exact .inr ⟨r, List.mem_cons_self, hr⟩

/-- No image is that of a capital letter. -/
theorem lowerCode_cases {runs : List CaseRun} (h : ∀ r ∈ runs, 0x61 ≤ r.image) (n : Nat) :
    lowerCode runs n = n ∨ 0x61 ≤ lowerCode runs n := by
  obtain hsame | ⟨r, hr, himage⟩ := lowerCode_image runs n
  · exact .inl hsame
  · exact .inr (Nat.le_trans (h r hr) (CaseRun.image_le himage).1)

theorem isUpper_ofNat {n : Nat} (h : 0x61 ≤ n) : (Char.ofNat n).isUpper = false := by
  refine Bool.eq_false_iff.mpr fun hupper => ?_
  have hbounds := toNat_of_isUpper hupper
  have hcode : (Char.ofNat n).toNat = n ∨ (Char.ofNat n).toNat = 0 := by
    by_cases hvalid : n.isValidChar
    · exact .inl (congrArg Char.toNat (dif_pos hvalid))
    · exact .inr (congrArg Char.toNat (dif_neg hvalid))
  omega

theorem any_lowerChar (c : Char) : (lowerChar c).any Char.isUpper = false := by
  by_cases hc : c ∈ capitals
  · exact forall_capitals (P := fun c => (lowerChar c).any Char.isUpper = false)
      (by decide) c hc
  · have hruns : ∀ r ∈ caseRuns, 0x61 ≤ r.image := by decide +kernel
    unfold lowerChar
    split
    · rfl
    · rw [List.any_cons, List.any_nil, Bool.or_false]
      obtain hsame | hsmall := lowerCode_cases hruns c.toNat
      · rw [hsame, Char.ofNat_toNat]
        exact Bool.eq_false_iff.mpr (mt mem_capitals_of_isUpper hc)
      · exact isUpper_ofNat hsmall

theorem any_lowerFrom (before cs : List Char) :
    (lowerFrom before cs).any Char.isUpper = false := by
  induction cs generalizing before with
  | nil => rfl
  | cons c cs ih =>
    rw [lowerFrom, List.any_append, ih, Bool.or_false]
    split
    · split <;> rfl
    · exact any_lowerChar c

/-- **A text in lower case** has no capital letter. -/
theorem hasCapital_lowerCase (s : String) : hasCapital (lowerCase s) = false := by
  rw [hasCapital, lowerCase, String.toList_ofList]
  exact any_lowerFrom [] s.toList

/-- A character that is its own lower case. -/
def SmallForm (c : Char) : Prop := lowerChar c = [c]

instance (c : Char) : Decidable (SmallForm c) := inferInstanceAs (Decidable (_ = _))

theorem SmallForm.ne_sigma {c : Char} (h : SmallForm c) : c ≠ 'Σ' := by
  rintro rfl
  exact absurd h (by decide)

/-- A text of such characters is its own lower case. -/
theorem lowerFrom_small {before cs : List Char} (h : ∀ c ∈ cs, SmallForm c) :
    lowerFrom before cs = cs := by
  induction cs generalizing before with
  | nil => rfl
  | cons c cs ih =>
    obtain ⟨hc, hcs⟩ := List.forall_mem_cons.mp h
    rw [lowerFrom, if_neg hc.ne_sigma, show lowerChar c = [c] from hc, ih hcs]
    rfl

end RecordQuery
