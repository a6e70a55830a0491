import Mathlib.Tactic.SplitIfs
import RecordQuery.Proofs.Text.Images

/-! # Texts in lower case

Every character becomes one character, which is itself or a letter; only the dotted capital I
becomes two. So a text without it keeps its length (`length_lowerFrom`), and all characters of the
result are their own lower case (`smallForm_lowerFrom`). If the result is ASCII, the text was put in
lower case by its ASCII letters alone, unless it has the Kelvin sign (`lowerFrom_ascii`). -/

namespace RecordQuery

/-! ### Characters in lower case -/

variable {c d : Char} {cs ds before : List Char}

/-- Every character but the dotted capital I has one image, which is itself, or a letter. -/
theorem exists_lowerChar (hc : c ≠ '\u0130') : ∃ d, lowerChar c = [d] ∧
    d.toNat = lowerCode caseRuns c.toNat ∧ (d = c ∨ isLetter d = true) := by
  have hcode : (Char.ofNat (lowerCode caseRuns c.toNat)).toNat = lowerCode caseRuns c.toNat := by
    obtain hsame | ⟨-, hhigh⟩ | ⟨-, hvalid⟩ := lowerCode_apart apart_caseRuns c.toNat
    · rw [hsame, Char.ofNat_toNat]
    · exact toNat_ofNat (.inl (by omega))
    · exact toNat_ofNat hvalid
  refine ⟨Char.ofNat (lowerCode caseRuns c.toNat), if_neg hc, hcode, ?_⟩
  obtain hsame | ⟨r, hr, himage⟩ := lowerCode_image caseRuns c.toNat
  · rw [hsame, Char.ofNat_toNat]
    exact .inl rfl
  · exact .inr (isLetter_image hr (himage.trans (congrArg some hcode.symm)))

theorem dotted_not_mem_lowerChar (c : Char) : '\u0130' ∉ lowerChar c := by
  unfold lowerChar
  split_ifs with hc
  · decide
  · rw [List.mem_singleton]
    refine (ofNat_ne_dotted (lowerCode_undotted undotted_caseRuns fun hn => hc ?_)).symm
    rw [← Char.ofNat_toNat c, hn]

/-- **An image is its own lower case.** -/
theorem smallForm_of_lowerChar (hc : c ≠ '\u0130') (hd : lowerChar c = [d]) : SmallForm d := by
  obtain ⟨e, he, hcode, -⟩ := exists_lowerChar hc
  obtain rfl : d = e := List.singleton_inj.mp (hd.symm.trans he)
  have hdotted : d ≠ '\u0130' := by
    rintro rfl
    exact dotted_not_mem_lowerChar c (hd ▸ List.mem_cons_self)
  rw [SmallForm, lowerChar, if_neg hdotted, hcode, lowerCode_lowerCode, ← hcode, Char.ofNat_toNat]

/-- **The small form of a character** is that character, unless it is a capital, or a small letter,
or beyond ASCII. -/
theorem mem_lowerChar {c d : Char} (h : d ∈ lowerChar c) :
    (d = c ∧ c.isUpper = false) ∨ d.isLower = true ∨ 0x80 ≤ d.toNat := by
  by_cases hc : c ∈ capitals
  · have hall : ∀ c ∈ capitals, (lowerChar c).all Char.isLower = true :=
      forall_capitals (by decide)
    exact .inr (.inl (List.all_eq_true.mp (hall c hc) d h))
  · unfold lowerChar at h
    split_ifs at h
    · have hdotted : ∀ d ∈ ['i', '\u0307'], d.isLower = true ∨ 0x80 ≤ d.toNat :=
        forall_of_all (by decide)
      exact .inr (hdotted d h)
    · obtain rfl := List.mem_singleton.mp h
      obtain hsame | ⟨hlow, hhigh⟩ | ⟨hlow, hvalid⟩ := lowerCode_apart apart_caseRuns c.toNat
      · rw [hsame, Char.ofNat_toNat]
        exact .inl ⟨rfl, Bool.eq_false_iff.mpr (mt mem_capitals_of_isUpper hc)⟩
      · refine .inr (.inl ?_)
        have hsmall : ∀ n < 26, (Char.ofNat (0x61 + n)).isLower = true := by decide
        have := hsmall (lowerCode caseRuns c.toNat - 0x61) (by omega)
        rwa [Nat.add_sub_cancel' hlow] at this
      · refine .inr (.inr ?_)
        rwa [toNat_ofNat hvalid]

/-! ### Words in lower case -/

/-- What stands in a text in lower case, and at its start. -/
theorem mem_lowerFrom {before cs : List Char} {d : Char} (h : d ∈ lowerFrom before cs) :
    ∃ c ∈ cs, (d = c ∧ c.isUpper = false) ∨ d.isLower = true ∨ 0x80 ≤ d.toNat := by
  induction cs generalizing before with
  | nil => cases h
  | cons c cs ih =>
    rw [lowerFrom] at h
    rcases List.mem_append.mp h with h | h
    · refine ⟨c, List.mem_cons_self, ?_⟩
      split_ifs at h
      · obtain rfl := List.mem_singleton.mp h
        exact .inr (.inr (by decide))
      · obtain rfl := List.mem_singleton.mp h
        exact .inr (.inr (by decide))
      · exact mem_lowerChar h
    · obtain ⟨e, he, hd⟩ := ih h
      exact ⟨e, List.mem_cons_of_mem c he, hd⟩

theorem lowerChar_ne_nil (c : Char) : lowerChar c ≠ [] := by
  unfold lowerChar
  split_ifs <;> exact List.cons_ne_nil _ _

/-- A text in lower case begins with the small form of its first character. -/
theorem lowerFrom_cons (before : List Char) (c : Char) (cs : List Char) :
    ∃ d ds, lowerFrom before (c :: cs) = d :: ds ∧
      ((d = c ∧ c.isUpper = false) ∨ d.isLower = true ∨ 0x80 ≤ d.toNat) := by
  rw [lowerFrom]
  split_ifs
  · exact ⟨_, _, rfl, .inr (.inr (by decide))⟩
  · exact ⟨_, _, rfl, .inr (.inr (by decide))⟩
  · obtain ⟨d, ds, hd⟩ := List.exists_cons_of_ne_nil (lowerChar_ne_nil c)
    refine ⟨d, _, by rw [hd]; rfl, mem_lowerChar ?_⟩
    rw [hd]
    exact List.mem_cons_self

/-- No small form is the dotted capital I. -/
theorem dotted_not_mem_lowerFrom (before cs : List Char) : '\u0130' ∉ lowerFrom before cs := by
  induction cs generalizing before with
  | nil => exact List.not_mem_nil
  | cons c cs ih =>
    rw [lowerFrom, List.mem_append, not_or]
    refine ⟨?_, ih _⟩
    split_ifs
    · decide
    · decide
    · exact dotted_not_mem_lowerChar c

/-- Only the dotted capital I has a longer small form. -/
theorem length_lowerFrom {before : List Char} (h : '\u0130' ∉ cs) :
    (lowerFrom before cs).length = cs.length := by
  induction cs generalizing before with
  | nil => rfl
  | cons c cs ih =>
    rw [List.mem_cons, not_or] at h
    obtain ⟨hc, hcs⟩ := h
    rw [lowerFrom, List.length_append, ih hcs, List.length_cons, Nat.add_comm]
    congr 1
    split_ifs
    · rfl
    · rfl
    · rw [lowerChar, if_neg (Ne.symm hc)]
      rfl

theorem toList_lowerCase (cs : List Char) :
    (lowerCase (String.ofList cs)).toList = lowerFrom [] cs := by
  rw [lowerCase, String.toList_ofList, String.toList_ofList]

theorem dotted_not_mem_lowerCase (s : String) : '\u0130' ∉ (lowerCase s).toList := by
  rw [lowerCase, String.toList_ofList]
  exact dotted_not_mem_lowerFrom _ _

/-- What stands in the lower case of a text without the dotted capital I. -/
theorem smallForm_lowerFrom (h : '\u0130' ∉ cs) : ∀ d ∈ lowerFrom before cs,
    SmallForm d ∧ (d ∈ cs ∨ isLetter d = true) := by
  induction cs generalizing before with
  | nil => exact nofun
  | cons c cs ih =>
    rw [List.mem_cons, not_or] at h
    rw [lowerFrom]
    intro d hd
    obtain hd | hd := List.mem_append.mp hd
    · split_ifs at hd
      · obtain rfl := List.mem_singleton.mp hd
        exact ⟨by decide, .inr (by decide)⟩
      · obtain rfl := List.mem_singleton.mp hd
        exact ⟨by decide, .inr (by decide)⟩
      · obtain ⟨e, he, -, hkind⟩ := exists_lowerChar (Ne.symm h.1)
        rw [he] at hd
        obtain rfl := List.mem_singleton.mp hd
        refine ⟨smallForm_of_lowerChar (Ne.symm h.1) he, hkind.imp_left ?_⟩
        rintro rfl
        exact List.mem_cons_self
    · exact (ih h.2 d hd).imp_right (Or.imp_left (List.mem_cons_of_mem c))

/-- The lower case of a text begins with an image of its first character. -/
theorem head_lowerFrom (before cs : List Char) (hc : c ≠ '\u0130') :
    ∃ d ds, lowerFrom before (c :: cs) = d :: ds ∧ (d = c ∨ isLetter d = true) := by
  rw [lowerFrom]
  split_ifs
  · exact ⟨_, _, rfl, .inr (by decide)⟩
  · exact ⟨_, _, rfl, .inr (by decide)⟩
  · obtain ⟨d, hd, -, hkind⟩ := exists_lowerChar hc
    exact ⟨d, _, by rw [hd]; rfl, hkind⟩

/-- The images of a character stand in the lower case of a text that it stands in. -/
theorem mem_lowerFrom_of_lowerChar (hc : c ∈ cs) (hsigma : c ≠ 'Σ') (hd : d ∈ lowerChar c) :
    d ∈ lowerFrom before cs := by
  induction cs generalizing before with
  | nil => cases hc
  | cons b cs ih =>
    rw [lowerFrom]
    obtain rfl | hc := List.mem_cons.mp hc
    · rw [if_neg hsigma]
      exact List.mem_append_left _ hd
    · exact List.mem_append_right _ (ih hc)

/-! ### Words in ASCII -/

/-- An image in ASCII is the small letter of an ASCII letter, or that of the Kelvin sign. -/
theorem lowerChar_ascii (hkelvin : c ≠ '\u212a') (hc : c ≠ '\u0130') (hd : lowerChar c = [d])
    (hascii : d.toNat < 0x80) : d = c.toLower := by
  by_cases hbeyond : c.toNat < 0x80
  · have hlower : lowerChar c = [c.toLower] :=
      forall_ascii (P := fun c => lowerChar c = [c.toLower]) (by decide) hbeyond
    exact List.singleton_inj.mp (hd.symm.trans hlower)
  · exfalso
    obtain ⟨e, he, hcode, -⟩ := exists_lowerChar hc
    obtain rfl : d = e := List.singleton_inj.mp (hd.symm.trans he)
    obtain hsame | ⟨r, hr, himage⟩ := lowerCode_image caseRuns c.toNat
    · omega
    · have hbounds := CaseRun.image_le himage
      obtain ⟨⟨hfirst, hlast, -⟩, -⟩ := CaseRun.image?_eq_some.mp himage
      obtain hrun | hrun | ⟨hrun, hrun'⟩ := kelvin_caseRuns r hr
      · omega
      · omega
      · refine hkelvin ?_
        rw [← Char.ofNat_toNat c, show c.toNat = 0x212a by omega]

/-- **A text that is ASCII in lower case** is put in lower case by its ASCII letters alone, unless
it has the Kelvin sign. -/
theorem lowerFrom_ascii (hkelvin : '\u212a' ∉ cs)
    (h : ∀ d ∈ lowerFrom before cs, d.toNat < 0x80) :
    lowerFrom before cs = cs.map Char.toLower := by
  induction cs generalizing before with
  | nil => rfl
  | cons c cs ih =>
    rw [List.mem_cons, not_or] at hkelvin
    rw [lowerFrom] at h ⊢
    obtain ⟨hfirst, hrest⟩ := List.forall_mem_append.mp h
    rw [ih hkelvin.2 hrest, List.map_cons]
    split_ifs at hfirst ⊢ with hsigma hfinal
    · exact absurd (hfirst _ List.mem_cons_self) (by decide)
    · exact absurd (hfirst _ List.mem_cons_self) (by decide)
    · have hdotted : c ≠ '\u0130' := by
        rintro rfl
        exact absurd (hfirst '\u0307' (by decide)) (by decide)
      obtain ⟨d, hd, -⟩ := exists_lowerChar hdotted
      rw [hd] at hfirst ⊢
      rw [lowerChar_ascii (Ne.symm hkelvin.1) hdotted hd (hfirst d List.mem_cons_self)]
      rfl

end RecordQuery
