import Mathlib.Logic.Function.Defs
import RecordQuery.Compile.Expr

/-! # What a pattern of `LIKE` matches

A reading of regular expressions that is just large enough for those of patterns: the two anchors,
any character, any run of characters, characters behind a backslash, and characters that have no
meaning of their own (`Regex.read?`). A regular expression is searched for anywhere in a text, so it
is the anchors that tie it to both ends (`Regex.Finds`).

* `Like` says what a pattern matches, on its own characters;
* `Regex.read?_likeRegex`: what a pattern is written as is read back part by part, whatever
  characters stand next to each other in it;
* `Regex.matches_likeParts`: those parts match what the pattern matches, by induction on the
  pattern.

Both relations are taken over the relation `same` on characters, which may be equality or equality
up to letter case. -/

namespace RecordQuery

/-- What a pattern matches: `%` any run of characters, `_` any one character, and every other
character the same one. -/
inductive Like (same : Char → Char → Prop) : List Char → List Char → Prop
  | nil : Like same [] []
  | run {p s : List Char} (passed : List Char) : Like same p s → Like same ('%' :: p) (passed ++ s)
  | any {p s : List Char} (d : Char) : Like same p s → Like same ('_' :: p) (d :: s)
  | char {c d : Char} {p s : List Char} : c ≠ '%' → c ≠ '_' → same c d → Like same p s →
    Like same (c :: p) (d :: s)

namespace Regex

/-- A part of a regular expression. -/
inductive Part where
  | start
  | stop
  | any
  | run
  | char (c : Char)
  deriving DecidableEq

/-- Whether a character does not stand for itself. -/
def isSpecial (c : Char) : Bool := "\\.+*?()|[]\x7b\x7d^$".toList.contains c

/-- Whether a character is a mark of ASCII: no letter, no digit and no blank. -/
def isPunctuation (c : Char) : Bool := 0x20 < c.toNat && c.toNat < 0x7F && !c.isAlphanum

/-- The parts that a regular expression consists of; none where it has a part of another kind. -/
def read? : List Char → Option (List Part)
  | [] => some []
  | '^' :: rest => (read? rest).map (.start :: ·)
  | '$' :: rest => (read? rest).map (.stop :: ·)
  | '.' :: '*' :: '?' :: rest => (read? rest).map (.run :: ·)
  | '.' :: rest => (read? rest).map (.any :: ·)
  | '\\' :: c :: rest => if isPunctuation c then (read? rest).map (.char c :: ·) else none
  | c :: rest => if isSpecial c then none else (read? rest).map (.char c :: ·)

variable {same : Char → Char → Prop}

/-- Parts match what is taken of a text between `front` and `rest`. -/
inductive Matches (same : Char → Char → Prop) (rest : List Char) :
    List Char → List Part → List Char → Prop
  | nil (front : List Char) : Matches same rest front [] []
  | start {ps : List Part} {taken : List Char} : Matches same rest [] ps taken →
    Matches same rest [] (.start :: ps) taken
  | stop {front : List Char} {ps : List Part} : rest = [] → Matches same rest front ps [] →
    Matches same rest front (.stop :: ps) []
  | any {front taken : List Char} {ps : List Part} (d : Char) :
    Matches same rest (front ++ [d]) ps taken → Matches same rest front (.any :: ps) (d :: taken)
  | run {front taken : List Char} {ps : List Part} (passed : List Char) :
    Matches same rest (front ++ passed) ps taken →
    Matches same rest front (.run :: ps) (passed ++ taken)
  | char {c d : Char} {front taken : List Char} {ps : List Part} : same c d →
    Matches same rest (front ++ [d]) ps taken →
    Matches same rest front (.char c :: ps) (d :: taken)

/-- Some stretch of a text is matched. -/
def Finds (same : Char → Char → Prop) (ps : List Part) (s : List Char) : Prop :=
  ∃ front taken rest, s = front ++ (taken ++ rest) ∧ Matches same rest front ps taken

/-! ### Reading -/

/-- The part that a character of a pattern is written as. -/
def likePart (c : Char) : Part :=
  if c = '%' then .run else if c = '_' then .any else .char c

/-- The parts that a pattern is written as. -/
def likeParts (p : List Char) : List Part := .start :: (p.map likePart ++ [.stop])

theorem isRegexMeta_of_isSpecial {c : Char} (h : isSpecial c = true) : isRegexMeta c = true := by
  have hall : "\\.+*?()|[]\x7b\x7d^$".toList.all isRegexMeta = true := by decide
  exact List.all_eq_true.mp hall c (List.contains_iff_mem.mp h)

theorem isPunctuation_of_isRegexMeta {c : Char} (h : isRegexMeta c = true) :
    isPunctuation c = true := by
  have hall : "\\.+*?()|[]\x7b\x7d^$#&-~".toList.all isPunctuation = true := by decide
  exact List.all_eq_true.mp hall c (List.contains_iff_mem.mp h)

theorem read?_plain {c : Char} (h : isSpecial c = false) (rest : List Char) :
    read? (c :: rest) = (read? rest).map (.char c :: ·) := by
  have hne (special : Char) (hspecial : isSpecial special = true) : c ≠ special := by
    rintro rfl
    rw [h] at hspecial
    cases hspecial
  rw [read?]
  · rw [h]
    rfl
  · exact hne '^' rfl
  · exact hne '$' rfl
  · exact fun _ hc => absurd hc (hne '.' rfl)
  · exact hne '.' rfl
  · exact fun _ _ hc => absurd hc (hne '\\' rfl)

theorem read?_any {rest : List Char} (h : rest.head? ≠ some '*') :
    read? ('.' :: rest) = (read? rest).map (.any :: ·) := by
  rw [read?]
  rintro rest rfl
  exact h rfl

/-- One character is read back, where what stands behind cannot make a run of it. -/
theorem read?_likeChar (c : Char) {rest : List Char} (h : rest.head? ≠ some '*') :
    read? (likeChar c ++ rest) = (read? rest).map (likePart c :: ·) := by
  unfold likeChar likePart
  by_cases hrun : c = '%'
  · rw [if_pos hrun, if_pos hrun]
    rfl
  · rw [if_neg hrun, if_neg hrun]
    by_cases hany : c = '_'
    · rw [if_pos hany, if_pos hany]
      exact read?_any h
    · rw [if_neg hany, if_neg hany]
      by_cases hmeta : isRegexMeta c = true
      · rw [if_pos hmeta]
        change (if isPunctuation c then _ else _) = _
        rw [if_pos (isPunctuation_of_isRegexMeta hmeta)]
        rfl
      · have hplain : isSpecial c = false :=
          Bool.eq_false_iff.mpr fun hc => hmeta (isRegexMeta_of_isSpecial hc)
        rw [if_neg hmeta]
        exact read?_plain hplain rest

/-- No character is written with an asterisk in front. -/
theorem head?_likeChar (c : Char) : ∃ d rest, likeChar c = d :: rest ∧ d ≠ '*' := by
  unfold likeChar
  split
  · exact ⟨_, _, rfl, by decide⟩
  · split
    · exact ⟨_, _, rfl, by decide⟩
    · split
      · exact ⟨_, _, rfl, by decide⟩
      · next hmeta =>
        refine ⟨_, _, rfl, ?_⟩
        rintro rfl
        exact hmeta (by decide)

theorem read?_flatMap (p : List Char) :
    read? (p.flatMap likeChar ++ ['$']) = some (p.map likePart ++ [.stop]) := by
  induction p with
  | nil => rfl
  | cons c p ih =>
    have hrest : (p.flatMap likeChar ++ ['$']).head? ≠ some '*' := by
      rcases p with _ | ⟨d, p⟩
      · decide
      · obtain ⟨x, xs, hchar, hne⟩ := head?_likeChar d
        rw [List.flatMap_cons, hchar]
        exact fun h => hne (Option.some.inj h)
    rw [List.flatMap_cons, List.append_assoc, read?_likeChar c hrest, ih]
    rfl

theorem read?_likeRegex (p : String) : read? (likeRegex p).toList = some (likeParts p.toList) := by
  unfold likeRegex
  rw [String.toList_ofList]
  change (read? (p.toList.flatMap likeChar ++ ['$'])).map (.start :: ·) = _
  rw [read?_flatMap]
  rfl

example : read? (likeRegex "_%.*").toList =
    some [.start, .any, .run, .char '.', .char '*', .stop] := by decide

/-- The character of a pattern that is written as a part. -/
def Part.written : Part → Char
  | .run => '%'
  | .any => '_'
  | .char c => c
  | .start => '^'
  | .stop => '$'

theorem written_likePart (c : Char) : (likePart c).written = c := by
  unfold likePart
  split
  · next hrun => exact hrun.symm
  · split
    · next hany => exact hany.symm
    · rfl

theorem likeParts_injective {p q : List Char} (h : likeParts p = likeParts q) : p = q := by
  have hparts : p.map likePart = q.map likePart := List.append_cancel_right (List.cons.inj h).2
  have hwritten (p : List Char) : (p.map likePart).map Part.written = p := by
    rw [List.map_map]
    exact (List.map_congr_left fun c _ => written_likePart c).trans (List.map_id p)
  rw [← hwritten p, hparts, hwritten q]

/-! ### Matching -/

/-- The parts of a pattern match up to the end of the text, and what the pattern matches. -/
theorem matches_likeParts {rest : List Char} (p : List Char) : ∀ front taken : List Char,
    Matches same rest front (p.map likePart ++ [.stop]) taken ↔ rest = [] ∧ Like same p taken := by
  induction p with
  | nil =>
    intro front taken
    constructor
    · intro h
      rcases h with _ | _ | ⟨hrest, hnil⟩
      exact ⟨hrest, .nil⟩
    · rintro ⟨hrest, hlike⟩
      rcases hlike
      exact .stop hrest (.nil front)
  | cons c p ih =>
    intro front taken
    rw [List.map_cons, List.cons_append]
    constructor
    · intro h
      unfold likePart at h
      split at h
      · next hrun =>
        rcases h with _ | _ | _ | _ | ⟨passed, htaken⟩
        obtain ⟨hrest, hlike⟩ := (ih _ _).mp htaken
        rw [hrun]
        exact ⟨hrest, .run passed hlike⟩
      · split at h
        · next hany =>
          rcases h with _ | _ | _ | ⟨d, htaken⟩
          obtain ⟨hrest, hlike⟩ := (ih _ _).mp htaken
          rw [hany]
          exact ⟨hrest, .any d hlike⟩
        · next hrun hany =>
          rcases h with _ | _ | _ | _ | _ | ⟨hsame, htaken⟩
          obtain ⟨hrest, hlike⟩ := (ih _ _).mp htaken
          exact ⟨hrest, .char hrun hany hsame hlike⟩
    · rintro ⟨hrest, hlike⟩
      rcases hlike with _ | ⟨passed, hp⟩ | ⟨d, hp⟩ | ⟨hrun, hany, hsame, hp⟩
      · exact .run passed ((ih _ _).mpr ⟨hrest, hp⟩)
      · exact .any d ((ih _ _).mpr ⟨hrest, hp⟩)
      · unfold likePart
        rw [if_neg hrun, if_neg hany]
        exact .char hsame ((ih _ _).mpr ⟨hrest, hp⟩)

theorem finds_likeParts (p s : List Char) : Finds same (likeParts p) s ↔ Like same p s := by
  constructor
  · rintro ⟨front, taken, rest, rfl, hmatches⟩
    rcases hmatches with _ | hmatches
    obtain ⟨rfl, hlike⟩ := (matches_likeParts p _ _).mp hmatches
    rw [List.nil_append, List.append_nil]
    exact hlike
  · intro hlike
    refine ⟨[], s, [], (List.append_nil s).symm, ?_⟩
    exact .start ((matches_likeParts p _ _).mpr ⟨rfl, hlike⟩)

end Regex

/-- **The translation of patterns is exact.** -/
theorem likeRegex_exact (same : Char → Char → Prop) :
    (∀ p : String, ∃ ps, Regex.read? (likeRegex p).toList = some ps ∧
      ∀ s : String, Regex.Finds same ps s.toList ↔ Like same p.toList s.toList) ∧
    Function.Injective likeRegex := by
  constructor
  · intro p
    exact ⟨_, Regex.read?_likeRegex p, fun s => Regex.finds_likeParts p.toList s.toList⟩
  · intro p q h
    have hparts : Regex.likeParts p.toList = Regex.likeParts q.toList := by
      have hread := Regex.read?_likeRegex p
      rw [h, Regex.read?_likeRegex q] at hread
      exact (Option.some.inj hread).symm
    exact String.toList_inj.mp (Regex.likeParts_injective hparts)

end RecordQuery
