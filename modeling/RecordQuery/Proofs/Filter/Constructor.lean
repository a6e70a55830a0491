import RecordQuery.Plan.Projection
import RecordQuery.Proofs.Filter.Balance
import RecordQuery.Proofs.Filter.Terms
import RecordQuery.Proofs.Json.Members

/-! # Object constructors

An object constructor is read from its text: a key in quotes, a colon and a text in parentheses for
each entry, with commas between (`Constructor.read?`). A text in parentheses ends with the first
parenthesis that closes them; brackets in quotes do not count (`Constructor.group?`), and what is
quoted opens no interpolation (`Json.Quoted.interpolates_escape`). For a record a constructor makes
a row of each choice of outputs of these texts (`Constructor.rows`): the entries take effect in
their order, and a repeated key keeps its place and takes the last value.

* `Constructor.group?_of_balanced`: a balanced text is read back.
* `Constructor.read?_object`: so the entries of an object are, each with the text of its filter.
* `Constructor.keys_rows`: the keys of each row are those of the entries at their first occurrence.
* `Constructor.member?_rows`: the value of a key is an output of the last entry with that key. -/

namespace RecordQuery

namespace Constructor

/-- Passes blanks and one character. -/
def pass? (c : Char) (cs : List Char) : Option (List Char) :=
  match cs.dropWhile (· == ' ') with
  | [] => none
  | d :: rest => if d = c then some rest else none

/-- Reads up to the parenthesis that closes the one in front of a text, given the brackets that have
been opened behind that one. -/
def group? : TextState → List Bracket → List Char → Option (List Char × List Char)
  | _, _, [] => none
  | .outside, [], ')' :: rest => some ([], rest)
  | .outside, opened, c :: rest => do
    let opened ← Bracket.step opened c
    let (body, rest) ← group? (TextState.step .outside c) opened rest
    some (c :: body, rest)
  | s, opened, c :: rest => do
    let (body, rest) ← group? (s.step c) opened rest
    some (c :: body, rest)

/-- Reads an entry: a key, and the text in the parentheses behind it. -/
def item? (cs : List Char) : Option ((String × String) × List Char) := do
  let cs ← pass? '"' cs
  let (key, cs) ← Json.Quoted.readBody cs
  let cs ← pass? ':' cs
  let cs ← pass? '(' cs
  let (body, cs) ← group? .outside [] cs
  some ((String.ofList key, String.ofList body), cs)

/-- Reads at most `n` entries, and the bracket behind them. -/
def entries? : Nat → List Char → Option (List (String × String) × List Char)
  | 0, _ => none
  | n + 1, cs => do
    let (entry, cs) ← item? cs
    match pass? '\x7d' cs with
    | some cs => some ([entry], cs)
    | none => do
      let cs ← pass? ',' cs
      let (entries, cs) ← entries? n cs
      some (entry :: entries, cs)

/-- The entries of an object constructor. -/
def read? (text : String) : Option (List (String × String)) := do
  let cs ← pass? '\x7b' text.toList
  let (entries, rest) ← match pass? '\x7d' cs with
    | some rest => some ([], rest)
    | none => entries? cs.length cs
  if rest.isEmpty then some entries else none

/-- The rows that entries make behind the members of a row, given the outputs of each text. -/
def rowsFrom (outputs : String → List Json) (members : List (String × Json)) :
    List (String × String) → List (List (String × Json))
  | [] => [members]
  | (key, text) :: rest =>
    (outputs text).flatMap fun v => rowsFrom outputs (Json.setMember key v members) rest

/-- **The rows of a constructor** for a record, given the outputs of each text for that record. -/
def rows (outputs : String → List Json) (entries : List (String × String)) :
    List (List (String × Json)) := rowsFrom outputs [] entries

variable {c : Char} {cs rest : List Char} {s : TextState} {opened opened' : List Bracket}

theorem pass?_cons (hc : c ≠ ' ') : pass? c (c :: rest) = some rest := by
  unfold pass?
  rw [List.dropWhile_cons_of_neg (by simpa using hc)]
  exact if_pos rfl

theorem pass?_blank : pass? c (' ' :: rest) = pass? c rest := rfl

theorem pass?_other {d : Char} (hd : d ≠ ' ') (h : d ≠ c) : pass? c (d :: rest) = none := by
  unfold pass?
  rw [List.dropWhile_cons_of_neg (by simpa using hd)]
  exact if_neg h

/-! ### Texts in parentheses -/

theorem group?_outside (h : Bracket.step opened c = some opened') :
    group? .outside opened (c :: rest) = (group? (TextState.step .outside c) opened' rest).map
      fun (body, rest) => (c :: body, rest) := by
  have hclose : opened = [] → c ≠ ')' := by
    rintro rfl rfl
    cases h
  rw [group?, h, Option.map_eq_bind]
  · rfl
  · exact hclose

theorem group?_quoted (hs : s ≠ .outside) : group? s opened (c :: rest) =
    (group? (s.step c) opened rest).map fun (body, rest) => (c :: body, rest) := by
  cases s with
  | outside => exact absurd rfl hs
  | inside | escaped =>
    rw [group?, Option.map_eq_bind]
    · rfl
    all_goals exact nofun

/-- Neither what stands in quotes nor the quote behind it is a bracket. -/
theorem after_blank_quoted (hs : s ≠ .outside) :
    Bracket.after opened (s.blank (c :: cs)) = Bracket.after opened ((s.step c).blank cs) := by
  by_cases hc : s.step c = .outside
  · have hquote : c = '"' := by
      unfold TextState.step at hc
      grind
    subst hquote
    rw [TextState.blank, if_pos (.inr hc)]
    rfl
  · rw [TextState.blank, if_neg (not_or.mpr ⟨hs, hc⟩)]

/-- **A balanced text** is read up to the parenthesis behind it. -/
theorem group?_of_balanced (ha : s.after cs = .outside)
    (hb : Bracket.after opened (s.blank cs) = some []) :
    group? s opened (cs ++ ')' :: rest) = some (cs, rest) := by
  induction cs generalizing s opened with
  | nil =>
    obtain rfl : s = .outside := ha
    obtain rfl : opened = [] := Option.some.inj hb
    rfl
  | cons c cs ih =>
    by_cases hs : s = .outside
    · subst hs
      obtain ⟨opened', hstep, hrest⟩ := Option.bind_eq_some_iff.mp hb
      rw [List.cons_append, group?_outside hstep, ih ha hrest]
      rfl
    · rw [after_blank_quoted hs] at hb
      rw [List.cons_append, group?_quoted hs, ih ha hb]
      rfl

/-! ### Entries -/

variable {f : Filter} {es : List (String × Filter)} {n : Nat}

/-- The text of a filter is read from its parentheses. -/
theorem group?_text (h : f.WellNamed) :
    group? .outside [] (f.text.toList ++ ')' :: rest) = some (f.text.toList, rest) :=
  group?_of_balanced h.after h.balanced

theorem toList_quote (key : String) :
    (Json.quote key).toList = '"' :: (Json.Quoted.escape key.toList ++ ['"']) :=
  String.toList_ofList

theorem item?_text {key : String} (h : f.WellNamed) :
    item? ((Json.quote key ++ ": (" ++ f.text ++ ")").toList ++ rest) =
      some ((key, f.text), rest) := by
  have hspelled : (Json.quote key ++ ": (" ++ f.text ++ ")").toList ++ rest =
      '"' :: (Json.Quoted.escape key.toList ++
        '"' :: ':' :: ' ' :: '(' :: (f.text.toList ++ ')' :: rest)) := by
    simp [toList_quote]
  rw [hspelled]
  simp [item?, Json.Quoted.readBody, Json.Quoted.readFrom_escape, pass?_cons, pass?_blank,
    group?_text h]

theorem entries?_blank : entries? n (' ' :: cs) = entries? n cs := by
  cases n with
  | zero => rfl
  | succ n => rw [entries?, entries?, item?, item?, pass?_blank]

theorem length_entriesText (es : List (String × Filter)) :
    es.length ≤ (Filter.entriesText es).toList.length := by
  induction es with
  | nil => exact Nat.zero_le _
  | cons e es ih =>
    obtain ⟨key, f⟩ := e
    cases es with
    | nil =>
      simp [Filter.entriesText]
      omega
    | cons e' es =>
      simp [Filter.entriesText] at ih ⊢
      omega

theorem pass?_entriesText (hes : es ≠ []) :
    pass? '\x7d' ((Filter.entriesText es).toList ++ rest) = none := by
  have hquote : ∃ cs, (Filter.entriesText es).toList ++ rest = '"' :: cs := by
    cases es with
    | nil => exact absurd rfl hes
    | cons e es =>
      obtain ⟨key, f⟩ := e
      cases es <;> simp [Filter.entriesText, toList_quote]
  obtain ⟨cs, hcs⟩ := hquote
  rw [hcs, pass?_other (by decide) (by decide)]

/-- The entries of an object are read up to its closing bracket. -/
theorem entries?_entriesText (hes : es ≠ []) (h : ∀ e ∈ es, e.2.WellNamed) (hn : es.length ≤ n) :
    entries? n ((Filter.entriesText es).toList ++ '\x7d' :: rest) =
      some (es.map fun e => (e.1, e.2.text), rest) := by
  induction es generalizing n with
  | nil => exact absurd rfl hes
  | cons e es ih =>
    obtain ⟨n, rfl⟩ := Nat.exists_eq_add_one_of_ne_zero (Nat.ne_zero_of_lt hn)
    obtain ⟨he, hrest⟩ := List.forall_mem_cons.mp h
    obtain ⟨key, f⟩ := e
    cases es with
    | nil =>
      rw [Filter.entriesText, entries?, item?_text he]
      simp [pass?_cons]
    | cons e' es =>
      have hspelled : (Filter.entriesText ((key, f) :: e' :: es)).toList ++ '\x7d' :: rest =
          (Json.quote key ++ ": (" ++ f.text ++ ")").toList ++
            ',' :: ' ' :: ((Filter.entriesText (e' :: es)).toList ++ '\x7d' :: rest) := by
        simp [Filter.entriesText]
      have hrec := ih (List.cons_ne_nil _ _) hrest (Nat.le_of_succ_le_succ hn)
      rw [hspelled, entries?, item?_text he]
      dsimp only [Option.bind_eq_bind, Option.bind_some]
      rw [pass?_other (by decide) (by decide), pass?_cons (by decide)]
      dsimp only [Option.bind_some]
      rw [entries?_blank, hrec]
      rfl

/-- **The entries of an object** are read back, each with the text of its filter. -/
theorem read?_object (h : ∀ e ∈ es, e.2.WellNamed) :
    read? (Filter.object es).text = some (es.map fun e => (e.1, e.2.text)) := by
  have hspelled : (Filter.object es).text.toList =
      '\x7b' :: ((Filter.entriesText es).toList ++ ['\x7d']) := by
    simp [Filter.text]
  have hlength : es.length ≤ ((Filter.entriesText es).toList ++ ['\x7d']).length :=
    (length_entriesText es).trans (List.length_append ▸ Nat.le_add_right _ _)
  rw [read?, hspelled, pass?_cons (by decide)]
  dsimp only [Option.bind_eq_bind, Option.bind_some]
  by_cases hes : es = []
  · subst hes
    rfl
  · rw [pass?_entriesText hes, entries?_entriesText hes h hlength]
    rfl

/-! ### Rows -/

variable {outputs : String → List Json} {members row : List (String × Json)} {key text : String}
  {entries front back : List (String × String)} {v : Json}

/-- **The keys of a row** are those of the entries at their first occurrence. -/
theorem keys_rowsFrom (h : row ∈ rowsFrom outputs members entries) : row.map Prod.fst =
    Projection.distinctFrom (members.map Prod.fst) (entries.map Prod.fst) := by
  induction entries generalizing members with
  | nil =>
    obtain rfl := List.mem_singleton.mp h
    rfl
  | cons e entries ih =>
    obtain ⟨v, -, hrow⟩ := List.mem_flatMap.mp h
    rw [ih hrow, Json.keys_setMember]
    rfl

/-- A key that no entry has keeps its value. -/
theorem member?_rowsFrom_of_not_mem (h : row ∈ rowsFrom outputs members entries)
    (hkey : key ∉ entries.map Prod.fst) : Json.member? key row = Json.member? key members := by
  induction entries generalizing members with
  | nil =>
    obtain rfl := List.mem_singleton.mp h
    rfl
  | cons e entries ih =>
    obtain ⟨v, -, hrow⟩ := List.mem_flatMap.mp h
    obtain ⟨hne, hrest⟩ := List.ne_and_not_mem_of_not_mem_cons hkey
    rw [ih hrow hrest, Json.member?_setMember_of_ne hne]

theorem rowsFrom_append (entries entries' : List (String × String)) :
    rowsFrom outputs members (entries ++ entries') =
      (rowsFrom outputs members entries).flatMap fun row => rowsFrom outputs row entries' := by
  induction entries generalizing members with
  | nil => simp [rowsFrom]
  | cons e entries ih => simp [rowsFrom, ih, List.flatMap_assoc]

theorem keys_rows (h : row ∈ rows outputs entries) :
    row.map Prod.fst = Projection.distinctFrom [] (entries.map Prod.fst) := keys_rowsFrom h

/-- **The value of a key** is an output of the last entry with that key. -/
theorem member?_rows (h : row ∈ rows outputs (front ++ (key, text) :: back))
    (hkey : key ∉ back.map Prod.fst) : ∃ v ∈ outputs text, Json.member? key row = some v := by
  rw [rows, rowsFrom_append] at h
  obtain ⟨members, -, hrest⟩ := List.mem_flatMap.mp h
  obtain ⟨v, hv, hrow⟩ := List.mem_flatMap.mp hrest
  refine ⟨v, hv, ?_⟩
  rw [member?_rowsFrom_of_not_mem hrow hkey, Json.member?_setMember_self]

/-- There are rows if each text has outputs. -/
theorem rowsFrom_ne_nil (h : ∀ e ∈ entries, outputs e.2 ≠ []) :
    rowsFrom outputs members entries ≠ [] := by
  induction entries generalizing members with
  | nil => exact List.cons_ne_nil _ _
  | cons e entries ih =>
    obtain ⟨he, hrest⟩ := List.forall_mem_cons.mp h
    obtain ⟨v, hv⟩ := List.exists_mem_of_ne_nil _ he
    obtain ⟨row, hrow⟩ := List.exists_mem_of_ne_nil _
      (@ih (Json.setMember e.1 v members) hrest)
    exact List.ne_nil_of_mem (List.mem_flatMap.mpr ⟨v, hv, hrow⟩)

end Constructor

end RecordQuery
