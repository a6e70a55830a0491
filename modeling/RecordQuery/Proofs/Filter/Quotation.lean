import RecordQuery.Proofs.Filter.Mark
import RecordQuery.Proofs.Filter.Numeral

/-! # String tokens in a text

A reader of a text is outside of string tokens, inside one, or in one behind a backslash
(`TextState`). `blank` removes what stands inside of string tokens, `contents` collects it. In a
text of clean marks the string tokens are the quoted marks, one for each, with nothing else in them
(`blank_render`, `contents_render`); what stands in one opens no interpolation and is read back as
the text that was quoted. -/

namespace RecordQuery

/-- Where a reader of a text stands. -/
inductive TextState where
  | outside | inside | escaped
  deriving DecidableEq

namespace TextState

/-- Where a reader stands behind one more character. -/
def step : TextState → Char → TextState
  | outside, c => if c = '"' then inside else outside
  | inside, c => if c = '"' then outside else if c = '\\' then escaped else inside
  | escaped, _ => inside

/-- Where a reader stands behind a run of characters. -/
def after (s : TextState) (cs : List Char) : TextState := cs.foldl step s

/-- A text with nothing left inside of its string tokens. -/
def blank : TextState → List Char → List Char
  | _, [] => []
  | s, c :: cs =>
    if s = outside ∨ s.step c = outside then c :: blank (s.step c) cs else blank (s.step c) cs

/-- What stands inside of the string tokens of a text, given what was read of one so far. -/
def contents : TextState → List Char → List Char → List (List Char)
  | _, _, [] => []
  | s, done, c :: cs =>
    if s = outside then contents (s.step c) [] cs
    else if s.step c = outside then done :: contents outside [] cs
    else contents (s.step c) (done ++ [c]) cs

end TextState

/-- Whether what stands inside of a string token opens an interpolation: a backslash that is not
escaped itself, and a parenthesis. -/
def interpolates : List Char → Bool
  | '\\' :: c :: cs => c == '(' || interpolates cs
  | _ :: cs => interpolates cs
  | [] => false

/-- The text that a string token denotes, given what stands inside of it. -/
def decoded (content : List Char) : Option String :=
  (Json.Quoted.readBody (content ++ ['"'])).map fun (cs, _) => String.ofList cs

namespace Json.Quoted

/-! ### Escaped characters -/

open TextState

/-- The ways in which a character is written. -/
theorem escapeChar_cases (c : Char) :
    (c ≠ '"' ∧ c ≠ '\\' ∧ 0x20 ≤ c.toNat ∧ escapeChar c = [c]) ∨
    (∃ d, d ≠ 'u' ∧ d ≠ '(' ∧ shortEscape? d = some c ∧ escapeChar c = ['\\', d]) ∨
    (c.toNat < 0x20 ∧ escapeChar c =
      ['\\', 'u', '0', '0', hexDigit (c.toNat / 16), hexDigit (c.toNat % 16)]) := by
  unfold escapeChar
  split
  · next h => exact Or.inr (Or.inl ⟨'"', by decide, by decide, by rw [h]; rfl, rfl⟩)
  split
  · next h => exact Or.inr (Or.inl ⟨'\\', by decide, by decide, by rw [h]; rfl, rfl⟩)
  split
  · next h1 h2 h3 => exact Or.inl ⟨h1, h2, h3, rfl⟩
  split
  · next h => exact Or.inr (Or.inl ⟨'n', by decide, by decide, by rw [h]; rfl, rfl⟩)
  split
  · next h => exact Or.inr (Or.inl ⟨'r', by decide, by decide, by rw [h]; rfl, rfl⟩)
  split
  · next h => exact Or.inr (Or.inl ⟨'t', by decide, by decide, by rw [h]; rfl, rfl⟩)
  split
  · next h =>
    have hc : c = '\x08' := Char.toNat_inj.mp h
    exact Or.inr (Or.inl ⟨'b', by decide, by decide, by rw [hc]; rfl, rfl⟩)
  split
  · next h =>
    have hc : c = '\x0c' := Char.toNat_inj.mp h
    exact Or.inr (Or.inl ⟨'f', by decide, by decide, by rw [hc]; rfl, rfl⟩)
  · next h _ _ _ _ _ => exact Or.inr (Or.inr ⟨by omega, rfl⟩)

/-- A character that is no quote and no backslash stays inside. -/
theorem step_inside {c : Char} (h : c ≠ '"') (h' : c ≠ '\\') : TextState.step inside c = inside := by
  simp only [TextState.step, if_neg h, if_neg h']

theorem hexDigit_ne : ∀ n < 16, hexDigit n ≠ '"' ∧ hexDigit n ≠ '\\' := by decide

/-- An escaped character stands inside of a string token as a whole. -/
theorem escapeChar_inside (c : Char) (rest done : List Char) :
    blank inside (escapeChar c ++ rest) = blank inside rest ∧
      contents inside done (escapeChar c ++ rest) =
        contents inside (done ++ escapeChar c) rest ∧
      after inside (escapeChar c ++ rest) = after inside rest := by
  obtain ⟨h, h', -, he⟩ | ⟨d, -, -, -, he⟩ | ⟨hc, he⟩ := escapeChar_cases c
  · rw [he]
    simp [blank, contents, after, step_inside h h']
  · rw [he]
    simp [blank, contents, after, TextState.step]
  · have h1 := hexDigit_ne (c.toNat / 16) (by omega)
    have h2 := hexDigit_ne (c.toNat % 16) (by omega)
    rw [he]
    simp [blank, contents, after, TextState.step, h1.1, h1.2, h2.1, h2.2]

theorem escape_cons (c : Char) (cs : List Char) : escape (c :: cs) = escapeChar c ++ escape cs :=
  List.flatMap_cons

/-- **An escaped text** stands inside of a string token as a whole. -/
theorem escape_inside (cs rest done : List Char) :
    blank inside (escape cs ++ rest) = blank inside rest ∧
      contents inside done (escape cs ++ rest) = contents inside (done ++ escape cs) rest ∧
      after inside (escape cs ++ rest) = after inside rest := by
  induction cs generalizing done with
  | nil => simp [escape]
  | cons c cs ih =>
    obtain ⟨hb, hc, ha⟩ := escapeChar_inside c (escape cs ++ rest) done
    obtain ⟨ihb, ihc, iha⟩ := ih (done ++ escapeChar c)
    rw [escape_cons, List.append_assoc, hb, hc, ha, ihb, ihc, iha, List.append_assoc]
    exact ⟨rfl, rfl, rfl⟩

theorem interpolates_cons {c : Char} {cs : List Char} (h : c ≠ '\\') :
    interpolates (c :: cs) = interpolates cs := by
  rw [interpolates]
  rintro d ds rfl
  exact absurd rfl h

/-- **No interpolation** is opened in an escaped text. -/
theorem interpolates_escape (cs : List Char) : interpolates (escape cs) = false := by
  induction cs with
  | nil => rfl
  | cons c cs ih =>
    rw [escape_cons]
    obtain ⟨-, h, -, he⟩ | ⟨d, -, hd, -, he⟩ | ⟨hc, he⟩ := escapeChar_cases c
    · rw [he, List.singleton_append, interpolates_cons h, ih]
    · rw [he]
      simp [interpolates, hd, ih]
    · have h1 := (hexDigit_ne (c.toNat / 16) (by omega)).2
      have h2 := (hexDigit_ne (c.toNat % 16) (by omega)).2
      rw [he]
      simp [interpolates, h1, h2, ih]

/-- A step that does not end the text. -/
theorem readFrom_step {s s' : State} {c : Char} {shown rest : List Char}
    (hq : s = .plain → c ≠ '"') (h : step s c = some (shown, s')) :
    readFrom s (c :: rest) = (readFrom s' rest).map fun (cs, rest) => (shown ++ cs, rest) := by
  rw [readFrom]
  · rw [h]
    cases hr : readFrom s' rest with
    | none => simp [hr]
    | some p => simp [hr]
  · intro hs hc
    exact hq hs hc

/-- A code below the space is read digit by digit. -/
theorem readFrom_code {c : Char} (hc : c.toNat < 0x20) (rest : List Char) :
    readFrom .plain ('\\' :: 'u' :: '0' :: '0' :: hexDigit (c.toNat / 16) ::
      hexDigit (c.toNat % 16) :: rest) =
      (readFrom .plain rest).map fun (cs, rest) => (c :: cs, rest) := by
  have h1 := hexValue?_hexDigit (c.toNat / 16) (by omega)
  have h2 := hexValue?_hexDigit (c.toNat % 16) (by omega)
  have hsum : c.toNat / 16 * 16 + c.toNat % 16 = c.toNat := by omega
  have hsteps : step (.code 2 0 none) (hexDigit (c.toNat / 16)) =
      some ([], .code 1 (c.toNat / 16) none) := by
    simp [step, h1]
  have hlast : step (.code 1 (c.toNat / 16) none) (hexDigit (c.toNat % 16)) =
      some ([c], .plain) := by
    have hlow : ¬ (0xd800 ≤ c.toNat ∧ c.toNat < 0xdc00) := by omega
    have hhigh : ¬ (0xdc00 ≤ c.toNat ∧ c.toNat < 0xe000) := by omega
    simp [step, h2, hsum, finishCode, hlow, hhigh, Char.ofNat_toNat]
  have hletter : step .escaped 'u' = some ([], .code 4 0 none) := rfl
  have hfirst : step (.code 4 0 none) '0' = some ([], .code 3 0 none) := rfl
  have hsecond : step (.code 3 0 none) '0' = some ([], .code 2 0 none) := rfl
  rw [readFrom_step (fun _ => by decide) rfl, readFrom_step (by nofun) hletter,
    readFrom_step (by nofun) hfirst, readFrom_step (by nofun) hsecond,
    readFrom_step (by nofun) hsteps, readFrom_step (by nofun) hlast]
  cases readFrom .plain rest <;> rfl

/-- **An escaped text** is read back. -/
theorem readFrom_escape (cs rest : List Char) :
    readFrom .plain (escape cs ++ '"' :: rest) = some (cs, rest) := by
  induction cs with
  | nil => rfl
  | cons c cs ih =>
    rw [escape_cons, List.append_assoc]
    obtain ⟨h, h', hc, he⟩ | ⟨d, hu, -, hd, he⟩ | ⟨hc, he⟩ := escapeChar_cases c
    · have hstep : step .plain c = some ([c], .plain) := by
        simp only [step, if_neg h', if_neg (Nat.not_lt.mpr hc)]
      rw [he, List.singleton_append, readFrom_step (fun _ => h) hstep, ih]
      rfl
    · have hstep : step .escaped d = some ([c], .plain) := by
        simp only [step, if_neg hu, hd, Option.map_some]
      rw [he]
      change readFrom .plain ('\\' :: d :: (escape cs ++ '"' :: rest)) = _
      rw [readFrom_step (fun _ => by decide) rfl, readFrom_step (by nofun) hstep, ih]
      rfl
    · rw [he]
      change readFrom .plain ('\\' :: 'u' :: '0' :: '0' :: hexDigit (c.toNat / 16) ::
        hexDigit (c.toNat % 16) :: (escape cs ++ '"' :: rest)) = _
      rw [readFrom_code hc, ih]
      rfl

theorem decoded_escape (s : String) : decoded (escape s.toList) = some s := by
  unfold decoded readBody
  rw [readFrom_escape, Option.map_some]
  exact congrArg some String.ofList_toList

end Json.Quoted

/-! ### Texts of marks -/

namespace Mark

open TextState Json.Quoted

/-- The text that a mark quotes. -/
def quoted? : Mark → Option String
  | .quoted s => some s
  | _ => none

/-- A mark with nothing in its quotes. -/
def blanked : Mark → Mark
  | .quoted _ => .quoted ""
  | m => m

/-- Whether only quotes of string tokens can stand in the text of a mark. -/
def Clean (m : Mark) : Prop := m.quoted? = none → '"' ∉ m.text.toList

/-- Marks all of which are clean. -/
def AllClean (ms : List Mark) : Prop := ∀ m ∈ ms, m.Clean

theorem after_outside {cs : List Char} (h : '"' ∉ cs) (rest : List Char) :
    blank outside (cs ++ rest) = cs ++ blank outside rest ∧
      contents outside [] (cs ++ rest) = contents outside [] rest ∧
      after outside (cs ++ rest) = after outside rest := by
  induction cs with
  | nil => exact ⟨rfl, rfl, rfl⟩
  | cons c cs ih =>
    rw [List.mem_cons, not_or] at h
    obtain ⟨ihb, ihc, iha⟩ := ih h.2
    have hstep : TextState.step outside c = outside := if_neg (Ne.symm h.1)
    refine ⟨?_, ?_, ?_⟩
    · rw [List.cons_append, blank, hstep, if_pos (Or.inl rfl), ihb]
      rfl
    · rw [List.cons_append, contents, hstep, if_pos rfl, ihc]
    · change after (TextState.step outside c) (cs ++ rest) = _
      rw [hstep, iha]

theorem after_quote (s : String) (rest : List Char) :
    blank outside ((Json.quote s).toList ++ rest) = '"' :: '"' :: blank outside rest ∧
      contents outside [] ((Json.quote s).toList ++ rest) =
        escape s.toList :: contents outside [] rest ∧
      after outside ((Json.quote s).toList ++ rest) = after outside rest := by
  obtain ⟨hb, hc, ha⟩ := escape_inside s.toList ('"' :: rest) []
  have htext : (Json.quote s).toList ++ rest = '"' :: (escape s.toList ++ '"' :: rest) := by
    unfold Json.quote
    rw [String.toList_ofList]
    simp
  rw [htext]
  refine ⟨?_, ?_, ?_⟩
  · change '"' :: blank .inside (escape s.toList ++ '"' :: rest) = _
    rw [hb]
    rfl
  · change contents .inside [] (escape s.toList ++ '"' :: rest) = _
    rw [hc]
    rfl
  · change after .inside (escape s.toList ++ '"' :: rest) = _
    rw [ha]
    rfl

/-- **The string tokens** of clean marks are the quoted ones. -/
theorem strings_render {ms : List Mark} (h : AllClean ms) :
    blank outside (render ms) = render (ms.map blanked) ∧
      contents outside [] (render ms) = (ms.filterMap quoted?).map (fun s => escape s.toList) ∧
      after outside (render ms) = outside := by
  induction ms with
  | nil => exact ⟨rfl, rfl, rfl⟩
  | cons m ms ih =>
    obtain ⟨ihb, ihc, iha⟩ := ih fun m hm => h m (List.mem_cons_of_mem _ hm)
    have hm := h m List.mem_cons_self
    cases hq : m.quoted? with
    | some s =>
      have hms : m = .quoted s := by
        cases m <;> first | (cases hq; rfl) | cases hq
      subst hms
      obtain ⟨hb, hc, ha⟩ := after_quote s (render ms)
      rw [render_cons]
      refine ⟨?_, ?_, ?_⟩
      · rw [List.map_cons, render_cons, ← ihb]
        have hempty : (Json.quote "").toList = ['"', '"'] := by decide
        change _ = (Json.quote "").toList ++ _
        rw [hempty]
        exact hb
      · rw [List.filterMap_cons_some hq, List.map_cons, ← ihc]
        exact hc
      · exact ha.trans iha
    | none =>
      have hblank : m.blanked = m := by
        cases m <;> first | rfl | cases hq
      obtain ⟨hb, hc, ha⟩ := after_outside (hm hq) (render ms)
      rw [render_cons]
      refine ⟨?_, ?_, ?_⟩
      · rw [List.map_cons, render_cons, hblank, ← ihb]
        exact hb
      · rw [List.filterMap_cons_none hq, ← ihc]
        exact hc
      · exact ha.trans iha

end Mark

end RecordQuery
