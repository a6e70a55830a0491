import Mathlib.Algebra.GroupWithZero.Nat
import Mathlib.Data.List.Forall2
import Mathlib.Order.Bounds.Basic
import RecordQuery.Table.Layout

/-! # Where the parts of a table stand

All lines of a table have the same number of characters. So the place of a line in the text is known
from its number, and the place of a field in its line from the widths of the columns before it. Both
are counted in characters: newlines inside a cell move nothing.

* `standsAt_field`, `standsAt_mark`: the parts of a line, by induction on its fields.
* `LineAt`: a line of a table in a text. It is shown of a line alone (`lineAt_line`), and a line
  that stands in a text takes its parts there (`LineAt.of_standsAt`).
* `LaidOut`: the lines of a whole text, where no column is too wide to be filled up (`lines?_eq`).
* `text_layout`: when a table has a text, and that it is laid out. -/

namespace RecordQuery.Table

variable {text part piece mark : List Char} {parts ls fields : List (List Char)}
  {widths : List Nat} {filler : Char} {name : String} {row : Row} {i j n w : Nat}

/-! ### Parts of a text -/

/-- A part of a text, with the number of characters in front of it. -/
def StandsAt (text : List Char) (offset : Nat) (part : List Char) : Prop :=
  ∃ before behind, text = before ++ (part ++ behind) ∧ before.length = offset

theorem standsAt_zero (part behind : List Char) : StandsAt (part ++ behind) 0 part :=
  ⟨[], behind, rfl, rfl⟩

theorem standsAt_self (text : List Char) : StandsAt text 0 text :=
  ⟨[], [], (List.append_nil text).symm, rfl⟩

theorem standsAt_length (before part : List Char) :
    StandsAt (before ++ part) before.length part :=
  ⟨before, [], by rw [List.append_nil], rfl⟩

theorem StandsAt.trans (h : StandsAt text i part) (h' : StandsAt part j piece) :
    StandsAt text (i + j) piece := by
  obtain ⟨before, behind, rfl, rfl⟩ := h
  obtain ⟨before', behind', rfl, rfl⟩ := h'
  refine ⟨before ++ before', behind' ++ behind, ?_, List.length_append⟩
  simp only [List.append_assoc]

/-- Of lines that are equally long, each one begins behind as many characters as the lines before
it have. -/
theorem standsAt_flatten (hlength : ∀ l ∈ ls, l.length = n) (h : ls[i]? = some part) :
    StandsAt ls.flatten (i * n) part := by
  induction ls generalizing i with
  | nil => simp at h
  | cons l ls ih =>
    cases i with
    | zero =>
      obtain rfl : l = part := by simpa using h
      rw [Nat.zero_mul]
      exact standsAt_zero l ls.flatten
    | succ i =>
      have hrest := ih (fun k hk => hlength k (List.mem_cons_of_mem l hk)) (by simpa using h)
      have hl : l.length = n := hlength l List.mem_cons_self
      rw [show (i + 1) * n = l.length + i * n by rw [Nat.succ_mul, hl]; omega]
      exact (standsAt_length l ls.flatten).trans hrest

theorem length_flatten_of_length (hlength : ∀ l ∈ ls, l.length = n) :
    ls.flatten.length = ls.length * n := by
  rw [List.length_flatten, List.eq_replicate_of_mem (a := n) (l := ls.map List.length) (by simpa),
    List.sum_replicate_nat, List.length_map]

/-! ### Parts of a line -/

/-- The number of characters of a line without its newline: those of the columns, and three for
each mark between two of them. -/
def lineWidth (widths : List Nat) : Nat := widths.sum + 3 * (widths.length - 1)

/-- The number of characters in front of a column in its line. -/
def columnOffset (widths : List Nat) (j : Nat) : Nat := (widths.take j).sum + 3 * j

theorem columnOffset_cons (w j : Nat) (widths : List Nat) :
    columnOffset (w :: widths) (j + 1) = w + 3 + columnOffset widths j := by
  simp only [columnOffset, List.take_succ_cons, List.sum_cons]
  omega

section Line
variable (hmark : mark.length = 3)
include hmark

theorem length_intercalate (parts : List (List Char)) :
    (mark.intercalate parts).length = lineWidth (parts.map List.length) := by
  induction parts with
  | nil => rfl
  | cons part parts ih =>
    cases parts with
    | nil => simp [lineWidth]
    | cons next parts =>
      rw [List.intercalate_cons_cons, List.length_append, List.length_append, ih, hmark]
      simp only [lineWidth, List.map_cons, List.sum_cons, List.length_cons]
      omega

/-- The first part, and what is behind it. -/
theorem standsAt_rest (part : List Char) {next : List Char} (parts : List (List Char)) :
    StandsAt (mark.intercalate (part :: next :: parts)) (part.length + 3)
      (mark.intercalate (next :: parts)) := by
  rw [List.intercalate_cons_cons]
  have h := standsAt_length (part ++ mark) (mark.intercalate (next :: parts))
  rwa [List.length_append, hmark] at h

theorem standsAt_field (h : parts[j]? = some part) :
    StandsAt (mark.intercalate parts) (columnOffset (parts.map List.length) j) part := by
  induction parts generalizing j with
  | nil => simp at h
  | cons first parts ih =>
    cases j with
    | zero =>
      obtain rfl : first = part := by simpa using h
      show StandsAt _ 0 first
      cases parts with
      | nil => exact List.intercalate_singleton ▸ standsAt_self first
      | cons next parts =>
        rw [List.intercalate_cons_cons, List.append_assoc]
        exact standsAt_zero first _
    | succ j =>
      cases parts with
      | nil => simp at h
      | cons next parts =>
        rw [List.map_cons, columnOffset_cons]
        exact (standsAt_rest hmark first parts).trans (ih (by simpa using h))

theorem standsAt_mark (h : parts[j]? = some part) (hj : j + 1 < parts.length) :
    StandsAt (mark.intercalate parts) (columnOffset (parts.map List.length) j + part.length)
      mark := by
  induction parts generalizing j with
  | nil => simp at h
  | cons first parts ih =>
    cases parts with
    | nil => simp at hj
    | cons next parts =>
      cases j with
      | zero =>
        obtain rfl : first = part := by simpa using h
        rw [show columnOffset _ 0 + first.length = first.length by simp [columnOffset],
          List.intercalate_cons_cons, List.append_assoc]
        exact (standsAt_length first _).trans (standsAt_zero mark _)
      | succ j =>
        rw [List.map_cons, columnOffset_cons, Nat.add_assoc]
        refine (standsAt_rest hmark first parts).trans (ih (by simpa using h) ?_)
        simp only [List.length_cons] at hj ⊢
        omega

end Line

/-! ### Lines -/

/-- **A line of a table** in a text. Each field is filled up to the width of its column, a mark
stands between two columns, and a newline behind the last one. -/
structure LineAt (text : List Char) (start : Nat) (mark : List Char) (filler : Char)
    (widths : List Nat) (fields : List (List Char)) : Prop where
  field : ∀ j field width, fields[j]? = some field → widths[j]? = some width →
    field.length ≤ width ∧ StandsAt text (start + columnOffset widths j)
      (field ++ List.replicate (width - field.length) filler)
  mark : ∀ j width, widths[j]? = some width → j + 1 < widths.length →
    StandsAt text (start + columnOffset widths j + width) mark
  newline : StandsAt text (start + lineWidth widths) ['\n']

/-- A line takes its parts to where it stands. -/
theorem LineAt.of_standsAt (h : StandsAt text i part)
    (hline : LineAt part 0 mark filler widths fields) :
    LineAt text i mark filler widths fields where
  field j field width hfield hwidth := by
    obtain ⟨hle, hat⟩ := hline.field j field width hfield hwidth
    rw [Nat.zero_add] at hat
    exact ⟨hle, h.trans hat⟩
  mark j width hwidth hj := by
    have hat := hline.mark j width hwidth hj
    rw [Nat.zero_add] at hat
    rw [Nat.add_assoc]
    exact h.trans hat
  newline := by
    have hat := hline.newline
    rw [Nat.zero_add] at hat
    exact h.trans hat

/-- Fields, filled up to the widths of their columns. -/
def filled (filler : Char) (widths : List Nat) (fields : List (List Char)) : List (List Char) :=
  List.zipWith (fun field width => field ++ List.replicate (width - field.length) filler)
    fields widths

section Filled
variable (hfits : List.Forall₂ (fun field width => field.length ≤ width) fields widths)
include hfits

theorem map_length_filled (filler : Char) :
    (filled filler widths fields).map List.length = widths := by
  induction hfits with
  | nil => rfl
  | cons h _ ih =>
    rw [filled, List.zipWith_cons_cons, List.map_cons, ← filled, ih, List.length_append,
      List.length_replicate, Nat.add_sub_cancel' h]

/-- Filled fields with a mark between them, and a newline behind. -/
theorem lineAt_line (hmark : mark.length = 3) (filler : Char) :
    LineAt (mark.intercalate (filled filler widths fields) ++ ['\n']) 0 mark filler widths
      fields := by
  have hwidths := map_length_filled hfits filler
  have hline := standsAt_zero (mark.intercalate (filled filler widths fields)) ['\n']
  constructor
  · intro j field width hfield hwidth
    have hfilled : (filled filler widths fields)[j]? =
        some (field ++ List.replicate (width - field.length) filler) :=
      List.getElem?_zipWith_eq_some.mpr ⟨field, width, hfield, hwidth, rfl⟩
    have hlength := congrArg (Option.map List.length) hfilled
    rw [← List.getElem?_map, hwidths, hwidth] at hlength
    refine ⟨?_, ?_⟩
    · simp only [Option.map_some, Option.some.injEq, List.length_append] at hlength
      omega
    · have hat := standsAt_field hmark hfilled
      rw [hwidths] at hat
      exact hline.trans hat
  · intro j width hwidth hj
    rw [← hwidths, List.length_map] at hj
    obtain ⟨part, hpart⟩ : ∃ part, (filled filler widths fields)[j]? = some part :=
      ⟨_, List.getElem?_eq_getElem (by omega)⟩
    have hlength := congrArg (Option.map List.length) hpart
    rw [← List.getElem?_map, hwidths, hwidth] at hlength
    have hat := standsAt_mark hmark hpart hj
    rw [hwidths, ← Option.some.inj hlength] at hat
    rw [Nat.zero_add]
    simpa using hline.trans hat
  · have hlength := length_intercalate hmark (filled filler widths fields)
    rw [hwidths] at hlength
    have hat := standsAt_length (mark.intercalate (filled filler widths fields)) ['\n']
    rwa [hlength, ← Nat.zero_add (lineWidth widths)] at hat

theorem length_line (hmark : mark.length = 3) (filler : Char) :
    (mark.intercalate (filled filler widths fields) ++ ['\n']).length = lineWidth widths + 1 := by
  rw [List.length_append, length_intercalate hmark, map_length_filled hfits]
  rfl

end Filled

/-! ### Widths -/

/-- **What a cell shows** for what its row has of the column. -/
inductive Shows : Option Json → List Char → Prop
  | missing : Shows none []
  | null : Shows (some .null) []
  | string (s : String) : Shows (some (.string s)) s.toList
  | value {v : Json} (hnull : v ≠ .null) (hstring : ∀ s, v ≠ .string s) :
      Shows (some v) v.compact.toList

theorem shows_iff : Shows (Json.member? name row) text ↔ cell row name = text := by
  rw [cell]
  constructor
  · intro h
    cases hmember : Json.member? name row with
    | none =>
      rw [hmember] at h
      cases h
      rfl
    | some v =>
      rw [hmember] at h
      cases h with
      | null => rfl
      | string => rfl
      | value hnull hstring =>
        cases v with
        | null => exact absurd rfl hnull
        | string s => exact absurd rfl (hstring s)
        | _ => rfl
  · rintro rfl
    rcases Json.member? name row with _ | v
    · exact .missing
    · cases v with
      | null => exact .null
      | string s => exact .string s
      | _ => exact .value nofun nofun

/-- **The width of a column**: the largest number of characters that its name or a cell has. -/
def IsWidth (t : Table) (name : String) (width : Nat) : Prop :=
  IsGreatest {n | n = name.length ∨ ∃ row ∈ t.rows, ∃ text,
    Shows (Json.member? name row) text ∧ n = text.length} width

theorem isGreatest_foldl_max (n : Nat) (ns : List Nat) :
    IsGreatest {m | m = n ∨ m ∈ ns} (ns.foldl max n) := by
  induction ns generalizing n with
  | nil => simp
  | cons k ns ih =>
    obtain ⟨hmem, hle⟩ := ih (max n k)
    constructor
    · have hmax : max n k = n ∨ max n k = k := by omega
      obtain hmem | hmem := hmem
      · obtain hmax | hmax := hmax
        · exact .inl (hmem.trans hmax)
        · exact .inr (List.mem_cons.mpr (.inl (hmem.trans hmax)))
      · exact .inr (List.mem_cons_of_mem k hmem)
    · have hmax : max n k ≤ (k :: ns).foldl max n := hle (.inl rfl)
      rintro m (rfl | hm)
      · omega
      · obtain rfl | hm := List.mem_cons.mp hm
        · omega
        · exact hle (.inr hm)

theorem isWidth_width (t : Table) (name : String) : t.IsWidth name (t.width name) := by
  have h := isGreatest_foldl_max name.length (t.rows.map fun row => (cell row name).length)
  simp only [List.mem_map] at h
  simp only [IsWidth, shows_iff, exists_eq_left']
  simpa only [width, eq_comm] using h

/-! ### The text of a table -/

section Columns
variable (t : Table)

/-- A line of a table, from what each column has in it. -/
def columnLine (mark : String) (filler : Char) (field : String → List Char) : List Char :=
  mark.toList.intercalate
    (filled filler (t.columns.map t.width) (t.columns.map field)) ++ ['\n']

/-- The lines of a table, if no column is too wide. -/
def columnLines : List (List Char) :=
  t.columnLine " | " ' ' String.toList :: t.columnLine "-+-" '-' (fun _ => []) ::
    t.rows.map fun row => t.columnLine " | " ' ' (cell row)

/-- No column is too wide to be filled up. -/
def Fits : Prop := ∀ name ∈ t.columns, t.width name ≤ greatestWidth

variable {t}

theorem mapM_fill? (field : String → List Char) {names : List String}
    (h : ∀ name ∈ names, t.width name ≤ greatestWidth) :
    (names.mapM fun name => fill? (t.width name) (field name)) =
      some (filled ' ' (names.map t.width) (names.map field)) := by
  induction names with
  | nil => rfl
  | cons name names ih =>
    obtain ⟨hname, hnames⟩ := List.forall_mem_cons.mp h
    rw [List.mapM_cons, fill?, if_pos hname, ih hnames]
    rfl

theorem mapM_fill?_eq_none (field : String → List Char) {names : List String}
    (hname : name ∈ names) (h : greatestWidth < t.width name) :
    (names.mapM fun name => fill? (t.width name) (field name)) = none := by
  induction names with
  | nil => cases hname
  | cons first names ih =>
    rw [List.mapM_cons]
    rcases List.mem_cons.mp hname with rfl | hname
    · rw [fill?, if_neg (Nat.not_le.mpr h)]
      rfl
    · rw [ih hname]
      cases fill? (t.width first) (field first) <;> rfl

theorem fields?_eq (h : t.Fits) (field : String → List Char) :
    t.fields? field = some (t.columnLine " | " ' ' field) := by
  rw [fields?, mapM_fill? field h]
  rfl

/-- **The lines of a table** are there if every column fits. -/
theorem lines?_eq (h : t.Fits) : t.lines? = some t.columnLines := by
  have hrows : (t.rows.mapM fun row => t.fields? (cell row)) =
      some (t.rows.map fun row => t.columnLine " | " ' ' (cell row)) := by
    simp only [fields?_eq h]
    exact List.mapM_pure
  have hrule : line "-+-" (t.columns.map fun name => List.replicate (t.width name) '-') =
      t.columnLine "-+-" '-' fun _ => [] := by
    simp only [columnLine, filled, List.zipWith_map, List.zipWith_self, line, List.nil_append,
      List.length_nil, Nat.sub_zero]
  rw [lines?, fields?_eq h, hrows, hrule]
  rfl

/-- The first line asks for every column, so nothing is printed if one is too wide. -/
theorem lines?_eq_none (hname : name ∈ t.columns) (h : greatestWidth < t.width name) :
    t.lines? = none := by
  rw [lines?, fields?, mapM_fill?_eq_none _ hname h]
  rfl

theorem text?_eq_none_iff : t.text? = none ↔ ∃ w ∈ t.columns.map t.width, greatestWidth < w := by
  rw [text?, Option.map_eq_none_iff]
  simp only [List.mem_map, exists_exists_and_eq_and]
  constructor
  · intro h
    by_contra hnone
    have hfits : t.Fits := fun name hname => Nat.not_lt.mp fun hlt => hnone ⟨name, hname, hlt⟩
    rw [lines?_eq hfits] at h
    cases h
  · rintro ⟨name, hname, hlt⟩
    exact lines?_eq_none hname hlt

/-- What is printed has the lines of the columns. -/
theorem toList_text {text : String} (h : t.text? = some text) :
    text.toList = t.columnLines.flatten := by
  obtain ⟨ls, hls, rfl⟩ := Option.map_eq_some_iff.mp h
  have hfits : t.Fits := fun name hname => Nat.not_lt.mp fun hlt => by
    rw [lines?_eq_none hname hlt] at hls
    cases hls
  rw [lines?_eq hfits] at hls
  rw [String.toList_ofList, ← Option.some.inj hls]

/-- What a field of each column is at most as wide as. -/
theorem fits_columns {field : String → List Char}
    (h : ∀ name, (field name).length ≤ t.width name) :
    List.Forall₂ (fun field width => field.length ≤ width) (t.columns.map field)
      (t.columns.map t.width) := by
  rw [List.forall₂_map_left_iff, List.forall₂_map_right_iff, List.forall₂_same]
  exact fun name _ => h name

theorem length_name_le (name : String) : name.toList.length ≤ t.width name :=
  (t.isWidth_width name).2 (.inl rfl)

theorem length_cell_le (hrow : row ∈ t.rows) (name : String) :
    (cell row name).length ≤ t.width name :=
  (t.isWidth_width name).2 (.inr ⟨row, hrow, _, shows_iff.mpr rfl, rfl⟩)

theorem length_columnLines :
    ∀ l ∈ t.columnLines, l.length = lineWidth (t.columns.map t.width) + 1 := by
  rw [columnLines, List.forall_mem_cons, List.forall_mem_cons, List.forall_mem_map]
  refine ⟨?_, ?_, fun row hrow => ?_⟩
  · exact length_line (fits_columns length_name_le) rfl ' '
  · exact length_line (fits_columns fun name => Nat.zero_le _) rfl '-'
  · exact length_line (fits_columns (length_cell_le hrow)) rfl ' '

end Columns

/-- **The layout of a table** whose columns have some widths. There is a line with the names, a
rule, and a line for each row, all of the same length. -/
structure LaidOut (t : Table) (widths : List Nat) (text : String) : Prop where
  length : text.length = (t.rows.length + 2) * (lineWidth widths + 1)
  names : LineAt text.toList 0 " | ".toList ' ' widths (t.columns.map String.toList)
  rule : LineAt text.toList (lineWidth widths + 1) "-+-".toList '-' widths
    (t.columns.map fun _ => [])
  row : ∀ i row, t.rows[i]? = some row → ∃ fields,
    List.Forall₂ (fun name field => Shows (Json.member? name row) field) t.columns fields ∧
    LineAt text.toList ((i + 2) * (lineWidth widths + 1)) " | ".toList ' ' widths fields

theorem laidOut_text {t : Table} {text : String} (h : t.text? = some text) :
    t.LaidOut (t.columns.map t.width) text := by
  have htext := toList_text h
  have hat : ∀ {i l}, t.columnLines[i]? = some l →
      StandsAt text.toList (i * (lineWidth (t.columns.map t.width) + 1)) l := fun h =>
    htext ▸ standsAt_flatten length_columnLines h
  constructor
  case length =>
    rw [← String.length_toList, htext, length_flatten_of_length length_columnLines, columnLines,
      List.length_cons, List.length_cons, List.length_map]
  case names =>
    have h := hat (i := 0) rfl
    rw [Nat.zero_mul] at h
    exact .of_standsAt h (lineAt_line (fits_columns length_name_le) rfl ' ')
  case rule =>
    have h := hat (i := 1) rfl
    rw [Nat.one_mul] at h
    exact .of_standsAt h (lineAt_line (fits_columns fun name => Nat.zero_le _) rfl '-')
  case row =>
    intro i row hi
    have h := hat (i := i + 2) (by
      rw [columnLines, List.getElem?_cons_succ, List.getElem?_cons_succ, List.getElem?_map, hi]
      rfl)
    refine ⟨t.columns.map (cell row), ?_, .of_standsAt h (lineAt_line ?_ rfl ' ')⟩
    · rw [List.forall₂_map_right_iff, List.forall₂_same]
      exact fun name _ => shows_iff.mpr rfl
    · exact fits_columns (length_cell_le (List.mem_of_getElem? hi))

theorem forall₂_isWidth (t : Table) :
    List.Forall₂ t.IsWidth t.columns (t.columns.map t.width) := by
  rw [List.forall₂_map_right_iff, List.forall₂_same]
  exact fun name _ => t.isWidth_width name

/-- **When a table is laid out**, whatever its cells show: printing it panics exactly if a column is
wider than 65535 characters, and what is printed otherwise has the layout of its widths. -/
theorem text_layout (t : Table) : ∃ widths, List.Forall₂ t.IsWidth t.columns widths ∧
    (t.text? = none ↔ ∃ w ∈ widths, 65535 < w) ∧
    ∀ text, t.text? = some text → t.LaidOut widths text :=
  ⟨t.columns.map t.width, t.forall₂_isWidth, text?_eq_none_iff, fun _ => laidOut_text⟩

/-- A cell of 65536 characters is too wide. -/
theorem text_not_laid_out :
    let wide := String.ofList (List.replicate 65536 'x')
    (⟨["a"], [[("a", .string wide)]]⟩ : Table).text? = none ∧
      ¬ ∀ t : Table, ∃ widths text, List.Forall₂ t.IsWidth t.columns widths ∧
        t.text? = some text ∧ t.LaidOut widths text := by
  intro wide
  have hwide : (⟨["a"], [[("a", .string wide)]]⟩ : Table).text? = none := by
    have hcell : (cell [("a", .string wide)] "a").length = 65536 := by
      rw [cell, show Json.member? "a" [("a", .string wide)] = some (.string wide) from rfl]
      exact (congrArg List.length String.toList_ofList).trans List.length_replicate
    have hle := length_cell_le (t := ⟨["a"], [[("a", .string wide)]]⟩) List.mem_cons_self "a"
    rw [hcell] at hle
    exact text?_eq_none_iff.mpr ⟨_, List.mem_cons_self, hle⟩
  refine ⟨hwide, fun h => ?_⟩
  obtain ⟨_, _, -, htext, -⟩ := h ⟨["a"], [[("a", .string wide)]]⟩
  rw [hwide] at htext
  cases htext

end RecordQuery.Table
