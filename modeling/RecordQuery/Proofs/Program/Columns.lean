import RecordQuery.Proofs.Filter.Constructor
import RecordQuery.Proofs.Plan.Order
import RecordQuery.Proofs.Program.Closed
import RecordQuery.Proofs.Program.Rows
import RecordQuery.Proofs.Program.Terms

/-! # Columns

The columns of a program, the keys of its rows and the keys that it sorts by agree.

* `Program.text_eq`: the text of a program with columns is an object constructor, with the stages on
  records in front of it and the stages on rows behind it.
* `Program.read?_row`: the constructor is read as one entry for each result column.
* `Program.run?_onRows`: the stages on rows keep some of the rows, as they are.
* `RowOrder.read?_filter`: rows are sorted by the keys of the ordering, which are columns
  (`RowOrder.keys_mem`).
* `Program.columns_rows_order`: so the columns are the keys of each row. -/

namespace RecordQuery

open Compile (CompilesTo)

/-! ### Orderings -/

namespace RowOrder

variable {p : Projection} {t : OrderingTerm} {k : String}

theorem key_mem {columns : List String} (hp : p.labels = some columns) (h : p.Names t k) :
    k ∈ columns := by
  cases p with
  | all => cases hp
  | columns cs =>
    obtain rfl : Projection.distinctFrom [] (cs.map Column.label) = columns := Option.some.inj hp
    refine Projection.mem_distinctFrom.mpr (.inr ?_)
    cases h with
    | label _ hlabel => exact List.mem_map.mpr hlabel
    | number _ hsplit _ =>
      rw [hsplit]
      exact List.mem_map_of_mem (List.mem_append_right _ List.mem_cons_self)

theorem keysOf_mem {columns : List String} (hp : p.labels = some columns)
    {terms : List OrderingTerm} {d : Direction} {ks : List String} (h : keysOf p d terms = .ok ks) :
    ∀ k ∈ ks, k ∈ columns := by
  have hmem : List.Forall₂ (fun k (_ : OrderingTerm) => k ∈ columns ∧ True) ks terms :=
    (keysOf_eq_ok.mp h).flip.imp fun k t hk => ⟨key_mem hp hk.2, trivial⟩
  exact ((List.forall₂_and_left _ _).mp hmem).1

/-- **The keys of an ordering** are columns. -/
theorem keys_mem {columns : List String} (hp : p.labels = some columns) {terms : List OrderingTerm}
    {order : Option RowOrder} (h : ofTerms p terms = .ok order) :
    ∀ o ∈ order, ∀ k ∈ o.keys, k ∈ columns := by
  unfold ofTerms at h
  split at h
  · cases h
    exact nofun
  · obtain ⟨ks, hks, rfl⟩ := ok_of_map h
    rintro _ ⟨⟩
    exact keysOf_mem hp hks

/-- The program that sorts by keys, in a direction. -/
def sorting (first : String) (rest : List String) : Direction → Jq
  | .ascending => .sortBy ((rest.map .field).foldl .comma (.field first))
  | .descending => .pipe (.sortBy ((rest.map .field).foldl .comma (.field first))) .reverse

/-- **The sort stage** sorts by the values of the keys. -/
theorem read?_filter {o : RowOrder} {first : String} {rest : List String}
    (h : o.keys = first :: rest) : Jq.read? o.filter.text = some (sorting first rest o.direction) := by
  have hfirst := (Filter.readAs_field first).looser (l := .or) (by decide)
  have hkeys := hfirst.sequence (Program.readEach_fields rest)
  have hsort := (hkeys.looser (l := .pipe) (by decide)).sortBy
  rw [← List.map_cons, ← h] at hsort
  unfold filter
  cases o.direction with
  | ascending => exact (hsort.looser (by decide)).read?
  | descending =>
    exact ((hsort.looser (by decide)).pipe (Filter.readAs_reverse.looser (by decide))).read?

end RowOrder

namespace Program

variable {p : Program} {st : Statement}

/-! ### Texts of programs -/

/-- The text of a stage behind others. -/
def stageText : Option Filter → String
  | none => ""
  | some f => " | " ++ f.text

/-- The filter that gives the records that a program makes rows of. -/
def onRecords (p : Program) : Filter := followedBy .elements (p.condition.map selection)

/-- The text of the stages on rows. -/
def onRows (p : Program) : String :=
  stageText (if p.distinct then some (Filter.apply .unique) else none) ++
    stageText (p.order.map RowOrder.filter) ++ stageText (p.slice.map Slice.filter)

theorem text_followedBy (f : Filter) (o : Option Filter) :
    (followedBy f o).text = f.text ++ stageText o := by
  cases o with
  | none => simp [followedBy, stageText]
  | some g => simp [followedBy, stageText, Filter.text, String.append_assoc]

theorem text_eq {fs : List (String × Filter)} (h : p.projection = some fs) : p.text =
    p.prelude ++ "[" ++ p.onRecords.text ++ " | " ++ (Filter.object fs).text ++ "]" ++ p.onRows := by
  unfold text filter
  simp only [text_followedBy, h, Option.map_some]
  simp [Filter.text, onRows, onRecords, text_followedBy, stageText, String.append_assoc]

/-! ### Result columns -/

/-- An entry of a constructor: the key of a result column, and the text of a filter that its
expression compiles to. -/
def IsFragment (column : String × Expr) (entry : String × String) : Prop :=
  entry.1 = column.1 ∧ ∃ f, CompilesTo column.2 f ∧ entry.2 = f.text

theorem keys_fragments {es : List (String × Expr)} {ts : List (String × String)}
    (h : List.Forall₂ IsFragment es ts) : ts.map Prod.fst = es.map Prod.fst := by
  induction h with
  | nil => rfl
  | cons h _ ih => rw [List.map_cons, List.map_cons, h.1, ih]

theorem compilesTo_entries {fs : List (String × Filter)} {cs : List Column} {s s' : Names}
    (h : (entries cs).run s = .ok fs s') :
    List.Forall₂ (fun c e => e.1 = c.label ∧ CompilesTo c.expr e.2) cs fs := by
  induction cs generalizing fs s with
  | nil =>
    cases h
    exact .nil
  | cons c cs ih =>
    obtain ⟨f, s₁, rest, hf, hrest, rfl⟩ := ok_of_entries_cons h
    exact .cons ⟨rfl, s, s₁, hf⟩ (ih hrest)

/-- **The constructor of a program** is read as one entry for each result column. -/
theorem read?_row {fs : List (String × Filter)} {cs : List Column} {s s' : Names}
    (h : (entries cs).run s = .ok fs s') :
    ∃ fragments, Constructor.read? (Filter.object fs).text = some fragments ∧
      List.Forall₂ IsFragment (cs.map fun c => (c.label, c.expr)) fragments := by
  have hfs := compilesTo_entries h
  refine ⟨_, Constructor.read?_object fun e he => ?_, ?_⟩
  · obtain ⟨_, -, hruns⟩ := Compile.compilesTo_of_mem (compiled_entries h) (List.mem_map_of_mem he)
    exact hruns.wellNamed
  · refine List.forall₂_map_left_iff.mpr (List.forall₂_map_right_iff.mpr (hfs.imp ?_))
    rintro c e ⟨hlabel, hruns⟩
    exact ⟨hlabel, e.2, hruns, rfl⟩

/-! ### Stages on rows -/

theorem merge_subset (le : Json → Json → Bool) (xs : List Json) : Json.merge le xs ⊆ xs := by
  fun_induction Json.merge le xs with
  | case1 => exact List.Subset.refl _
  | case2 => exact List.Subset.refl _
  | case3 x y rest h ih => exact List.Subset.trans ih (by simp)
  | case4 x y rest h ih => exact List.cons_subset_cons x ih

theorem unique_subset (le : Json → Json → Bool) (xs : List Json) : Json.unique le xs ⊆ xs :=
  fun _ hx => List.mem_mergeSort.mp (merge_subset le _ hx)

variable {ops : Operations} {σ : String → Json}

/-- A stage that keeps some rows as they are, unless it fails. -/
def KeepsRows (ops : Operations) (σ : String → Json) (o : Option Filter) : Prop :=
  ∃ g, RowStage ops σ o g ∧ ∀ rows, ∀ ys ∈ g rows, ys ⊆ rows

theorem keepsRows_none : KeepsRows ops σ none :=
  ⟨some, rowStage_none, by rintro rows _ ⟨⟩; exact List.Subset.refl rows⟩

theorem keepsRows_unique : KeepsRows ops σ (some (Filter.apply .unique)) :=
  ⟨_, rowStage_unique, by rintro rows _ ⟨⟩; exact unique_subset ops.le rows⟩

/-- Rows with their keys are the rows. -/
theorem map_keyed {key : Json → Option (List Json)} {rows : List Json}
    {keyed : List (List Json × Json)}
    (h : (rows.mapM fun y => (key y).map fun values => (values, y)) = some keyed) :
    keyed.map Prod.snd = rows := by
  induction rows generalizing keyed with
  | nil =>
    cases h
    rfl
  | cons y rows ih =>
    rw [List.mapM_cons] at h
    obtain ⟨_, hy, h⟩ := Option.bind_eq_some_iff.mp h
    obtain ⟨rest, hrest, h⟩ := Option.bind_eq_some_iff.mp h
    obtain ⟨values, -, rfl⟩ := Option.map_eq_some_iff.mp hy
    cases h
    rw [List.map_cons, ih hrest]

theorem sorted?_subset {keys : List String} {rows ys : List Json}
    (h : Statement.sorted? ops keys rows = some ys) : ys ⊆ rows := by
  obtain ⟨keyed, hkeyed, h⟩ := Option.bind_eq_some_iff.mp h
  cases h
  rw [← map_keyed hkeyed]
  exact List.map_subset _ fun _ hx => List.mem_mergeSort.mp hx

theorem keepsRows_order {o : RowOrder} (h : o.keys ≠ []) : KeepsRows ops σ (some o.filter) := by
  refine ⟨_, rowStage_order h, fun rows ys hys => ?_⟩
  obtain ⟨sorted, hsorted, rfl⟩ := Option.map_eq_some_iff.mp hys
  have hsubset := sorted?_subset hsorted
  split
  · exact hsubset
  · exact fun y hy => hsubset (List.mem_reverse.mp hy)

theorem keepsRows_slice {s : Slice} (h : s.Bounded) : KeepsRows ops σ (some s.filter) := by
  refine ⟨_, rowStage_slice h, ?_⟩
  rintro rows _ ⟨⟩
  unfold Slice.rows Json.sublist
  split
  · exact List.drop_subset _ _
  · exact fun y hy => List.take_subset _ _ (List.drop_subset _ _ hy)

/-- Some of the rows are given. -/
def GivesSome (ops : Operations) (σ : String → Json) (f : Filter) (rows : List Json) : Prop :=
  ∃ kept, Gives ops σ f (.array rows) kept ∧ ∀ ys ∈ kept, ys ⊆ rows

theorem givesSome_identity (rows : List Json) : GivesSome ops σ .identity rows :=
  ⟨some rows, ⟨[.identity], (Filter.readAs_identity.looser (by decide)).piped, fun _ _ => rfl⟩,
    by rintro _ ⟨⟩; exact List.Subset.refl rows⟩

theorem GivesSome.followedBy {f : Filter} {o : Option Filter} {rows : List Json}
    (h : GivesSome ops σ f rows) (h' : KeepsRows ops σ o) :
    GivesSome ops σ (followedBy f o) rows := by
  obtain ⟨kept, hgives, hkept⟩ := h
  obtain ⟨g, hg, hsubset⟩ := h'
  refine ⟨_, hgives.followedBy hg, fun ys hys => ?_⟩
  obtain ⟨xs, hxs, hys⟩ := Option.bind_eq_some_iff.mp hys
  exact List.Subset.trans (hsubset xs ys hys) (hkept xs hxs)

/-- **The stages on rows** keep some of the rows, as they are, unless they fail. -/
theorem run?_onRows {projection : Projection} {s s' : Names} (h : CompiledFrom st p projection s s')
    (ops : Operations) (σ : String → Json) (rows : List Json) :
    ∃ kept : Option (List Json),
      Jq.run? ops (fun name => some (σ name)) ("." ++ p.onRows) (.array rows) =
        some (.ofOption (kept.map .array)) ∧ ∀ ys ∈ kept, ys ⊆ rows := by
  have hdistinct : KeepsRows ops σ (if p.distinct then some (Filter.apply .unique) else none) := by
    split
    · exact keepsRows_unique
    · exact keepsRows_none
  have horder : KeepsRows ops σ (p.order.map RowOrder.filter) := by
    cases ho : p.order with
    | none => exact keepsRows_none
    | some o => exact keepsRows_order (RowOrder.keys_ne_nil h.order o ho)
  have hslice : KeepsRows ops σ (p.slice.map Slice.filter) := by
    cases hs : p.slice with
    | none => exact keepsRows_none
    | some s => exact keepsRows_slice ((Slice.limited?_ofLimit h.slice).2 s hs)
  obtain ⟨kept, ⟨ps, hread, heval⟩, hkept⟩ :=
    (((givesSome_identity rows).followedBy hdistinct).followedBy horder).followedBy hslice
  refine ⟨kept, ?_, hkept⟩
  have htext : (followedBy (followedBy (followedBy .identity
      (if p.distinct then some (Filter.apply .unique) else none))
      (p.order.map RowOrder.filter)) (p.slice.map Slice.filter)).text = "." ++ p.onRows := by
    simp only [text_followedBy, onRows, Filter.text, String.append_assoc]
  rw [← htext, Jq.run?, hread.readAs.read?, Option.map_some, Jq.eval_pipeline,
    heval _ fun _ _ => rfl]

/-! ### Columns, rows and orderings -/

/-- **Columns, rows and orderings agree.** A query without a star has the keys of its result columns
for columns, each once. The object constructor in the text of its program is read as one entry for
each result column. Each row that it makes, and it makes one if every entry has a value, has exactly
the columns for keys, in their order, and under a key a value of the last entry with that key. The
stages behind it keep rows as they are, and the one that sorts uses keys that are columns. -/
theorem columns_rows_order {q : String} (hst : Statement.ofText q = .ok st) (hp : ofText q = .ok p)
    (hstar : ∀ position, st.columns ≠ [.star position]) :
    ∃ entries columns constructor fragments,
      st.entries? = some entries ∧ p.columns = some columns ∧ columns.Nodup ∧
      columns = Projection.distinctFrom [] (entries.map Prod.fst) ∧
      p.text = p.prelude ++ "[" ++ p.onRecords.text ++ " | " ++ constructor ++ "]" ++ p.onRows ∧
      Constructor.read? constructor = some fragments ∧
      List.Forall₂ IsFragment entries fragments ∧
      (∀ outputs,
        ((∀ t ∈ fragments, outputs t.2 ≠ []) → Constructor.rows outputs fragments ≠ []) ∧
        ∀ row ∈ Constructor.rows outputs fragments, row.map Prod.fst = columns ∧
          ∀ front key text back, fragments = front ++ (key, text) :: back →
            key ∉ back.map Prod.fst → ∃ v ∈ outputs text, Json.member? key row = some v) ∧
      (∀ (ops : Operations) (σ : String → Json) (rows : List Json), ∃ kept,
        Jq.run? ops (fun name => some (σ name)) ("." ++ p.onRows) (.array rows) =
          some (.ofOption (Option.map .array kept)) ∧ ∀ ys ∈ kept, ys ⊆ rows) ∧
      ∀ o ∈ p.order, ∃ first rest, o.keys = first :: rest ∧ (∀ key ∈ o.keys, key ∈ columns) ∧
        Jq.read? o.filter.text = some (RowOrder.sorting first rest o.direction) := by
  rw [ofText_of_statement hst] at hp
  obtain ⟨projection, s, s', hfrom, hcolumns, -⟩ := compiledFrom_names hp
  obtain ⟨cs, rfl⟩ : ∃ cs, projection = .columns cs := by
    cases projection with
    | all =>
      obtain ⟨position, hposition⟩ := (Projection.labels_eq_none_iff hfrom.columns).mp rfl
      exact absurd hposition (hstar position)
    | columns cs => exact ⟨cs, rfl⟩
  obtain ⟨fs, hfs, hprojection⟩ := map_ok hfrom.row
  obtain ⟨fragments, hread, hfragments⟩ := read?_row hfs
  have hlabels : (Projection.columns cs).labels =
      some (Projection.distinctFrom [] ((cs.map fun c => (c.label, c.expr)).map Prod.fst)) := by
    rw [List.map_map]
    rfl
  refine ⟨_, _, _, fragments, Projection.entries?_ofColumns hfrom.columns, hcolumns.trans hlabels,
    Projection.nodup_distinctFrom List.nodup_nil, rfl, text_eq hprojection, hread, hfragments,
    fun outputs => ⟨Constructor.rowsFrom_ne_nil, fun row hrow => ⟨?_, ?_⟩⟩,
    run?_onRows hfrom, fun o ho => ?_⟩
  · rw [Constructor.keys_rows hrow, keys_fragments hfragments]
  · rintro front key text back rfl hback
    exact Constructor.member?_rows hrow hback
  · obtain ⟨first, rest, hfirst⟩ := List.exists_cons_of_ne_nil (RowOrder.keys_ne_nil hfrom.order o ho)
    exact ⟨first, rest, hfirst, RowOrder.keys_mem hlabels hfrom.order o ho,
      RowOrder.read?_filter hfirst⟩

/-- Two result columns with one key, and an ordering by their number and by the name of another. -/
theorem columns_rows_order_repeated :
    let q := "SELECT a, b AS c, d AS a ORDER BY 3, c LIMIT 2"
    ∃ st p fragments, Statement.ofText q = .ok st ∧ ofText q = .ok p ∧
      (∀ position, st.columns ≠ [.star position]) ∧ p.columns = some ["a", "c"] ∧
      (∀ outputs, ∀ row ∈ Constructor.rows outputs fragments, row.map Prod.fst = ["a", "c"]) ∧
      ∀ o ∈ p.order, ∀ key ∈ o.keys, key ∈ ["a", "c"] := by
  intro q
  obtain ⟨st, hst, hlength⟩ := ok_of_any (r := Statement.ofText q)
    (p := fun st => st.columns.length == 3) (by decide +kernel)
  obtain ⟨p, hp, hcolumns⟩ := ok_of_any (r := ofText q)
    (p := fun p => p.columns == some ["a", "c"]) (by decide +kernel)
  have hstar : ∀ position, st.columns ≠ [.star position] := by
    intro position h
    rw [h] at hlength
    cases hlength
  replace hcolumns := beq_iff_eq.mp hcolumns
  obtain ⟨-, columns, -, fragments, -, hlabels, -, -, -, -, -, hrows, -, horder⟩ :=
    columns_rows_order hst hp hstar
  obtain rfl : ["a", "c"] = columns := Option.some.inj (hcolumns.symm.trans hlabels)
  refine ⟨st, p, fragments, hst, hp, hstar, hcolumns, fun outputs row hrow =>
    ((hrows outputs).2 row hrow).1, fun o ho => ?_⟩
  obtain ⟨-, -, -, hkeys, -⟩ := horder o ho
  exact hkeys

end Program

end RecordQuery
