import RecordQuery.Proofs.Text.LetterCase

/-! # The images of characters

What is checked on the runs of images, once for all characters. An image is a small letter, or
beyond ASCII (`lowerCode_apart`), and it is a letter (`isLetter_image`). No image is the dotted
capital I (`lowerCode_undotted`), and no image has another image (`lowerCode_lowerCode`). Only the
Kelvin sign is beyond ASCII and has an image in ASCII (`kelvin_caseRuns`). -/

namespace RecordQuery

/-! ### Where images lie -/

/-- The images of a run are small letters, or characters beyond ASCII. -/
def CaseRun.Apart (r : CaseRun) : Prop :=
  (0x61 ≤ r.image ∧ r.image + (r.last - r.first) ≤ 0x7a) ∨
    (0x80 ≤ r.image ∧ r.image + (r.last - r.first) < 0xd800) ∨
    (0xdfff < r.image ∧ r.image + (r.last - r.first) < 0x110000)

instance (r : CaseRun) : Decidable r.Apart := inferInstanceAs (Decidable (_ ∨ _ ∨ _))

theorem apart_caseRuns : ∀ r ∈ caseRuns, r.Apart := by decide +kernel

/-- A code point without an image stays. -/
theorem lowerCode_apart {runs : List CaseRun} (h : ∀ r ∈ runs, r.Apart) (n : Nat) :
    lowerCode runs n = n ∨ (0x61 ≤ lowerCode runs n ∧ lowerCode runs n ≤ 0x7a) ∨
      (0x80 ≤ lowerCode runs n ∧ (lowerCode runs n).isValidChar) := by
  obtain hsame | ⟨r, hr, himage⟩ := lowerCode_image runs n
  · exact .inl hsame
  · have hbounds := CaseRun.image_le himage
    have hapart := h r hr
    unfold CaseRun.Apart at hapart
    unfold Nat.isValidChar
    omega

theorem toNat_ofNat {n : Nat} (h : n.isValidChar) : (Char.ofNat n).toNat = n :=
  congrArg Char.toNat (dif_pos h)

/-- Whether the images of a run leave the dotted capital I out. -/
def CaseRun.Undotted (r : CaseRun) : Prop :=
  0x130 < r.image ∨ r.image + (r.last - r.first) < 0x130

instance (r : CaseRun) : Decidable r.Undotted := inferInstanceAs (Decidable (_ ∨ _))

theorem undotted_caseRuns : ∀ r ∈ caseRuns, r.Undotted := by decide +kernel

theorem lowerCode_undotted {runs : List CaseRun} (h : ∀ r ∈ runs, r.Undotted) {n : Nat}
    (hn : n ≠ 0x130) : lowerCode runs n ≠ 0x130 := by
  obtain hsame | ⟨r, hr, himage⟩ := lowerCode_image runs n
  · rwa [hsame]
  · have hbounds := CaseRun.image_le himage
    have hundotted := h r hr
    unfold CaseRun.Undotted at hundotted
    omega

theorem ofNat_ne_dotted {n : Nat} (hn : n ≠ 0x130) : Char.ofNat n ≠ '\u0130' := by
  intro h
  by_cases hvalid : n.isValidChar
  · have := congrArg Char.toNat h
    rw [toNat_ofNat hvalid] at this
    exact hn this
  · rw [Char.ofNat, dif_neg hvalid] at h
    exact absurd h (by decide)

/-- The only run with images in ASCII of characters beyond it is that of the Kelvin sign. -/
theorem kelvin_caseRuns : ∀ r ∈ caseRuns,
    0x80 ≤ r.image ∨ r.last < 0x80 ∨ r.first = 0x212a ∧ r.last = 0x212a := by
  decide +kernel

/-! ### Images of images -/

/-- Whether no code point from one to another is a member of a run, or only every other one is, and
`twos` says that those in between are meant. The runs are in increasing order. -/
def clearOf (low high : Nat) (twos : Bool) : List CaseRun → Bool
  | [] => true
  | r :: rest => Nat.blt high r.first ||
    (Nat.blt r.last low || twos && Nat.beq r.step 2 && Nat.beq ((low + r.first) % 2) 1) &&
      clearOf low high twos rest

theorem lowerCode_of_clearOf {runs : List CaseRun} {low high n : Nat} {twos : Bool}
    (h : clearOf low high twos runs = true) (hlow : low ≤ n) (hhigh : n ≤ high)
    (htwos : twos = true → n % 2 = low % 2) : lowerCode runs n = n := by
  induction runs with
  | nil => rfl
  | cons r runs ih =>
    simp only [clearOf, Bool.or_eq_true, Bool.and_eq_true, Nat.blt_eq, Nat.beq_eq] at h
    rw [lowerCode]
    split
    · rfl
    · obtain hbefore | ⟨hrun, hrest⟩ := h
      · omega
      · have hnone : r.image? n = none := by
          refine if_neg fun hin => ?_
          obtain hbehind | ⟨⟨hboth, hstep⟩, hodd⟩ := hrun
          · omega
          · have hsame := htwos hboth
            rw [hstep] at hin
            omega
        rw [hnone]
        exact ih hrest

/-- Where a run goes by twos, or has one member only, its images go by twos. -/
def CaseRun.byTwos (r : CaseRun) : Bool := Nat.beq r.step 2 || Nat.beq r.first r.last

theorem clearOf_caseRuns : (caseRuns.all fun r =>
    clearOf r.image (r.image + (r.last - r.first)) r.byTwos caseRuns) = true := by
  decide +kernel

/-- **An image has no other image.** -/
theorem lowerCode_lowerCode (n : Nat) :
    lowerCode caseRuns (lowerCode caseRuns n) = lowerCode caseRuns n := by
  obtain hsame | ⟨r, hr, himage⟩ := lowerCode_image caseRuns n
  · rw [hsame, hsame]
  · obtain ⟨hlow, hhigh⟩ := CaseRun.image_le himage
    refine lowerCode_of_clearOf (List.all_eq_true.mp clearOf_caseRuns r hr) hlow hhigh ?_
    obtain ⟨⟨hfirst, hlast, hstep⟩, heq⟩ := CaseRun.image?_eq_some.mp himage
    intro htwos
    simp only [CaseRun.byTwos, Bool.or_eq_true, Nat.beq_eq] at htwos
    obtain htwo | hone := htwos
    · rw [htwo] at hstep
      omega
    · omega

/-! ### Images are letters -/

/-- Whether a range of code points lies in one of some ranges, in increasing order. -/
def CharSet.spans : List (Nat × Nat) → Nat → Nat → Bool
  | [], _, _ => false
  | (low, high) :: rest, i, j => Nat.ble low i && (Nat.ble j high || spans rest i j)

theorem CharSet.covers_of_spans {ranges : List (Nat × Nat)} {i j n : Nat}
    (h : spans ranges i j = true) (hi : i ≤ n) (hj : n ≤ j) : covers ranges n = true := by
  induction ranges with
  | nil => cases h
  | cons range ranges ih =>
    simp only [spans, Bool.and_eq_true, Bool.or_eq_true, Nat.ble_eq] at h
    simp only [covers, Bool.and_eq_true, Bool.or_eq_true, decide_eq_true_eq]
    obtain ⟨hlow, hhigh | hrest⟩ := h
    · omega
    · exact ⟨by omega, .inr (ih hrest)⟩

theorem spans_caseRuns : (caseRuns.all fun r =>
    CharSet.spans letters.ranges r.image (r.image + (r.last - r.first))) = true := by
  decide +kernel

theorem isLetter_image {c : Char} {r : CaseRun} {n : Nat} (hr : r ∈ caseRuns)
    (h : r.image? n = some c.toNat) : isLetter c = true := by
  obtain ⟨hlow, hhigh⟩ := CaseRun.image_le h
  exact CharSet.covers_of_spans (List.all_eq_true.mp spans_caseRuns r hr) hlow hhigh

end RecordQuery
