import RecordQuery.Proofs.Program.Parts
import RecordQuery.Proofs.Program.Stages

/-! # The rows of a program

The text of a compiled query, run by jq on an array of records, gives the rows of the statement
(`Program.program_rows`), or fails where the statement has none. -/

namespace RecordQuery.Program

open Compile (Binds Means)

variable {ops : Operations} {σ : String → Json}

/-! ### Stages on rows -/

theorem rowStage_unique : RowStage ops σ (some (Filter.apply .unique)) fun rows =>
    some (Json.unique ops.le rows) :=
  rowStage_one Filter.readAs_unique fun _ _ _ => by simp [Jq.eval, Json.items?]

theorem all?_fields (ρ : Jq.Values) (keys : List String) (y : Json) :
    (Jq.evalEach ops ρ (keys.map .field) y).all? = keys.mapM y.field? := by
  induction keys with
  | nil => rfl
  | cons key keys ih =>
    change ((Jq.eval ops ρ (.field key) y).append (Jq.evalEach ops ρ (keys.map .field) y)).all? = _
    rw [Outputs.all?_append, ih, Jq.eval, List.mapM_cons, Outputs.all?_ofOption]
    rcases y.field? key with _ | a
    · rfl
    · rcases keys.mapM y.field? with _ | as <;> rfl

theorem readEach_fields (keys : List String) :
    Filter.ReadEach .or (keys.map .field) (keys.map .field) := by
  induction keys with
  | nil => exact .nil
  | cons key keys ih => exact .cons ((Filter.readAs_field key).looser (by decide)) ih

/-- Sorting by the values of keys, of which there is one at least. -/
theorem sort_keys (ops : Operations) {keys : List String} (h : keys ≠ []) :
    ∃ p, (Filter.call .sortBy [.sequence (keys.map .field)]).ReadAs .term p ∧ ∀ ρ rows,
      p.eval ops ρ (.array rows) = .ofOption ((Statement.sorted? ops keys rows).map .array) := by
  rcases keys with _ | ⟨key, keys⟩
  · exact absurd rfl h
  · have hfirst := (Filter.readAs_field key).looser (l := .or) (by decide)
    have hread := hfirst.sequence (readEach_fields keys)
    refine ⟨_, (hread.looser (by decide)).sortBy, fun ρ rows => ?_⟩
    rw [Jq.eval]
    have hkeys : ∀ y, (Jq.eval ops ρ ((keys.map .field).foldl .comma (.field key)) y).all? =
        (key :: keys).mapM y.field? := by
      intro y
      rw [Jq.eval_commas]
      exact all?_fields ρ (key :: keys) y
    simp [hkeys, Json.items?, Statement.sorted?, Option.map_eq_bind, Option.bind_assoc]

theorem rowStage_order {o : RowOrder} (h : o.keys ≠ []) :
    RowStage ops σ (some o.filter) (o.rows? ops) := by
  obtain ⟨keys, direction⟩ := o
  obtain ⟨p, hp, he⟩ := sort_keys ops h
  cases direction with
  | ascending =>
    refine rowStage_one hp fun ρ _ rows => ?_
    rw [he]
    rcases hs : Statement.sorted? ops keys rows with _ | rows <;> simp [RowOrder.rows?, hs]
  | descending =>
    have hsort := (hp.looser (l := .comma) (by decide)).piped
    have hreverse := (Filter.readAs_reverse.looser (l := .comma) (by decide)).piped
    refine ⟨[p] ++ [.reverse], hsort.pipe hreverse, fun ρ _ rows => ?_⟩
    rw [List.singleton_append, Jq.evalPiped, he]
    rcases hs : Statement.sorted? ops keys rows with _ | rows
    · simp [RowOrder.rows?, hs, Outputs.ofOption]
    · simp [RowOrder.rows?, hs, Outputs.ofOption, Jq.evalPiped, Jq.eval, Json.items?]

theorem rowStage_slice {s : Slice} (h : s.Bounded) :
    RowStage ops σ (some s.filter) fun rows => some (s.rows rows) :=
  rowStage_one (Filter.readAs_slice h.first h.stop h.given) fun _ _ _ => by
    simp [Jq.eval, Json.items?, Slice.rows]

/-! ### The array of all rows -/

theorem gives_array {o o' : Option Filter} {k k' : Json → Outputs Json} (h : Stage ops σ o k)
    (h' : Stage ops σ o' k') (records : List Json) :
    Gives ops σ (.array (followedBy (followedBy .elements o) o')) (.array records)
      (Outputs.bindAll (fun x => (k x).bind k') false records).all? := by
  obtain ⟨ps, hps, he⟩ := h
  obtain ⟨qs, hqs, he'⟩ := h'
  have helements := (Filter.readAs_elements.looser (l := .comma) (by decide)).piped
  have hread := ((helements.followedBy hps).followedBy hqs).readAs.array
  refine ⟨_, (hread.looser (by decide)).piped, fun ρ hρ => ?_⟩
  have hk : Jq.evalPiped ops ρ ps = k := funext (he ρ hρ)
  have hk' : Jq.evalPiped ops ρ qs = k' := funext (he' ρ hρ)
  rw [Jq.evalPiped]
  refine (Outputs.one_bind _).trans ?_
  rw [Jq.eval, Jq.eval_pipeline, Jq.evalPiped_append, Jq.evalPiped_append, hk, hk']
  change Outputs.ofOption (((((Outputs.mk records false).bind .one).bind k).bind k').all?.map _) = _
  rw [Outputs.one_bind, Outputs.bind_bind]
  rfl

/-! ### The stages of a statement -/

theorem stage_conditionOf (ops : Operations) (σ : String → Json) {o : Option Expr}
    {c : Option Filter} {s : Names} (h : (conditionOf o).run {} = .ok c s) (hw : ∀ e ∈ o, e.Written)
    (hp : ∀ e ∈ o, e.isPlain = true) :
    s.positional = o.elim 0 (Expr.counted 0) ∧ s.helpers = [] ∧
      ∃ k, Stage ops σ (c.map selection) k ∧ ∀ (row : Json → Option Json) (xs : List Json),
        (Outputs.bindAll (fun x => (k x).bind fun x => .ofOption (row x)) false xs).all? =
          (match o with
            | none => some xs
            | some e => Statement.kept? ops σ e xs).bind fun xs => xs.mapM row := by
  rcases o with _ | e
  · cases h
    refine ⟨rfl, rfl, .one, stage_none, fun row xs => ?_⟩
    simp only [Outputs.bind_one]
    exact all?_rows xs
  · obtain ⟨f, hf, rfl⟩ := map_ok h
    have hcompiled := Compile.compiled_of_run _ _ _ _ hf
    have hmeans := hcompiled.means ops σ (hw e rfl) (hp e rfl)
    exact ⟨hcompiled.counted, hcompiled.helpers (hp e rfl), _, stage_selection hmeans,
      fun row xs => all?_kept e xs⟩

theorem mapM_some {α : Type} (as : List α) : as.mapM some = some as := by
  induction as with
  | nil => rfl
  | cons a as ih =>
    rw [List.mapM_cons, ih]
    rfl

theorem stage_rowOf (ops : Operations) (σ : String → Json) {projection : Projection}
    {r : Option (List (String × Filter))} {s s' : Names} (h : (rowOf projection).run s = .ok r s')
    (hw : ∀ cs, projection = .columns cs → ∀ c ∈ cs, c.expr.Written)
    (hp : ∀ cs, projection = .columns cs → ∀ c ∈ cs, c.expr.isPlain = true) :
    s'.helpers = s.helpers ∧ ∃ row : Json → Option Json,
      Stage ops σ (r.map .object) (fun x => .ofOption (row x)) ∧ ∀ xs : List Json, xs.mapM row =
        match projection.entries? with
        | none => some xs
        | some entries => xs.mapM (Statement.row? ops σ s.positional entries) := by
  rcases projection with _ | cs
  · cases h
    exact ⟨rfl, some, stage_none, mapM_some⟩
  · obtain ⟨es, hes, rfl⟩ := map_ok h
    exact ⟨(entries_means ops σ hes (hw cs rfl) (hp cs rfl)).1, _,
      stage_object hes (hw cs rfl) (hp cs rfl), fun xs => rfl⟩

/-! ### Lengths -/

section

variable {xs ys : List Json}

theorem length_kept? {condition : Expr} (h : Statement.kept? ops σ condition xs = some ys) :
    ys.length ≤ xs.length := by
  induction xs generalizing ys with
  | nil =>
    cases h
    exact Nat.le_refl _
  | cons x xs ih =>
    rw [Statement.kept?] at h
    obtain ⟨a, -, h⟩ := Option.bind_eq_some_iff.mp h
    obtain ⟨rest, hrest, h⟩ := Option.bind_eq_some_iff.mp h
    have hle := ih hrest
    rw [← Option.some.inj h, List.length_cons]
    split
    · rw [List.length_cons]
      omega
    · omega

theorem length_mapM {α β : Type} {f : α → Option β} {as : List α} {bs : List β}
    (h : as.mapM f = some bs) : bs.length = as.length := by
  induction as generalizing bs with
  | nil =>
    cases h
    rfl
  | cons a as ih =>
    rw [List.mapM_cons] at h
    obtain ⟨b, -, h⟩ := Option.bind_eq_some_iff.mp h
    obtain ⟨rest, hrest, h⟩ := Option.bind_eq_some_iff.mp h
    cases h
    rw [List.length_cons, List.length_cons, ih hrest]

theorem length_merge (le : Json → Json → Bool) (xs : List Json) :
    (Json.merge le xs).length ≤ xs.length := by
  fun_induction Json.merge le xs with
  | case1 => exact Nat.le_refl _
  | case2 => exact Nat.le_refl _
  | case3 x y rest h ih =>
    simp only [List.length_cons] at ih ⊢
    omega
  | case4 x y rest h ih =>
    simp only [List.length_cons] at ih ⊢
    omega

theorem length_unique (le : Json → Json → Bool) (xs : List Json) :
    (Json.unique le xs).length ≤ xs.length := by
  have hmerge := length_merge le (xs.mergeSort le)
  rwa [List.length_mergeSort] at hmerge

theorem length_rows? {o : RowOrder} (h : o.rows? ops xs = some ys) : ys.length = xs.length := by
  unfold RowOrder.rows? at h
  obtain ⟨rows, hrows, rfl⟩ := Option.map_eq_some_iff.mp h
  unfold Statement.sorted? at hrows
  obtain ⟨keyed, hkeyed, hrows⟩ := Option.bind_eq_some_iff.mp hrows
  cases hrows
  have hlength := length_mapM hkeyed
  split <;> simp [Json.sortKeyed, List.length_mergeSort, hlength]

end

/-! ### Programs -/

/-- The rows of a statement before they are merged, sorted and counted off. -/
def projected? (ops : Operations) (σ : String → Json) (st : Statement) (records : List Json) :
    Option (List Json) :=
  (match st.condition with
    | none => some records
    | some e => Statement.kept? ops σ e records).bind fun xs =>
      match st.entries? with
      | none => some xs
      | some entries => xs.mapM (Statement.row? ops σ (st.condition.elim 0 (Expr.counted 0)) entries)

theorem rows?_eq (st : Statement) (records : List Json) : st.rows? ops σ records =
    (projected? ops σ st records).bind fun rows =>
      (st.ordered? ops (if st.isDistinct then Json.unique ops.le rows else rows)).bind
        st.limited? := by
  unfold Statement.rows? projected?
  rcases st.condition with _ | e <;> rcases st.entries? with _ | entries <;>
    simp [Option.bind_assoc]

theorem length_projected? {st : Statement} {records rows : List Json}
    (h : projected? ops σ st records = some rows) : rows.length ≤ records.length := by
  unfold projected? at h
  obtain ⟨xs, hxs, hrows⟩ := Option.bind_eq_some_iff.mp h
  have hkept : xs.length ≤ records.length := by
    rcases hc : st.condition with _ | e
    · rw [hc] at hxs
      cases hxs
      exact Nat.le_refl _
    · rw [hc] at hxs
      exact length_kept? hxs
  rcases he : st.entries? with _ | entries
  · rw [he] at hrows
    cases hrows
    exact hkept
  · rw [he] at hrows
    rw [length_mapM hrows]
    exact hkept

theorem length_ordered? {st : Statement} {order : Option RowOrder} {xs ys : List Json}
    (ho : ∀ rows, st.ordered? ops rows = order.elim (some rows) fun o => o.rows? ops rows)
    (h : st.ordered? ops xs = some ys) : ys.length = xs.length := by
  rw [ho] at h
  rcases order with _ | o
  · rw [← Option.some.inj h]
  · exact length_rows? h

/-- No stage makes an array longer, so a slice is exact where the records are few enough. -/
theorem rows?_stages {st : Statement} {order : Option RowOrder} {slice : Option Slice}
    (ho : ∀ rows, st.ordered? ops rows = order.elim (some rows) fun o => o.rows? ops rows)
    (hs : ∀ rows : List Json, rows.length < 2 ^ 63 →
      st.limited? rows = some (slice.elim rows fun s => s.rows rows))
    {records : List Json} (hlen : records.length < 2 ^ 63) :
    (((projected? ops σ st records).bind fun rows => some (if st.isDistinct then
      Json.unique ops.le rows else rows)).bind (st.ordered? ops)).bind (fun rows =>
        some (slice.elim rows fun s => s.rows rows)) = st.rows? ops σ records := by
  rw [rows?_eq]
  rcases hrows : projected? ops σ st records with _ | rows
  · rfl
  · have hle := length_projected? hrows
    have hmerged : (if st.isDistinct then Json.unique ops.le rows else rows).length ≤
        rows.length := by
      split
      · exact length_unique ops.le rows
      · exact Nat.le_refl _
    simp only [Option.bind_some]
    rcases hsorted : st.ordered? ops (if st.isDistinct then Json.unique ops.le rows else rows)
      with _ | sorted
    · rfl
    · have hlength := length_ordered? ho hsorted
      exact (hs sorted (by omega)).symm

theorem gives_filter (ops : Operations) (σ : String → Json) {st : Statement} {p : Program}
    {projection : Projection} {s s' : Names} (h : CompiledFrom st p projection s s')
    (hw : st.Written) (hp : st.IsPlain) {records : List Json} (hlen : records.length < 2 ^ 63) :
    s'.helpers = [] ∧ Gives ops σ p.filter (.array records) (st.rows? ops σ records) := by
  have hentries := Projection.entries?_ofColumns h.columns
  obtain ⟨hn, hnone, k, hk, hkept⟩ :=
    stage_conditionOf ops σ h.condition hw.condition hp.1
  obtain ⟨hhelpers, row, hrow, hrows⟩ := stage_rowOf ops σ h.row
    (fun cs hcs => Projection.written_ofColumns (hcs ▸ h.columns) hw.columns)
    (fun cs hcs c hc => by
      subst hcs
      exact hp.2 _ hentries _ (List.mem_map_of_mem hc))
  obtain ⟨hordered, hkeys⟩ := RowOrder.ordered?_ofTerms ops hentries h.order
  obtain ⟨hlimited, hbounded⟩ := Slice.limited?_ofLimit h.slice
  have hdistinct : RowStage ops σ (if p.distinct then some (Filter.apply .unique) else none)
      fun rows => some (if st.isDistinct then Json.unique ops.le rows else rows) := by
    rw [h.distinct]
    by_cases hd : st.isDistinct = true
    · simp only [if_pos hd]
      exact rowStage_unique
    · simp only [if_neg hd]
      exact rowStage_none
  have horder : RowStage ops σ (p.order.map RowOrder.filter) (st.ordered? ops) := by
    rw [funext hordered]
    rcases ho : p.order with _ | o
    · exact rowStage_none
    · exact rowStage_order (hkeys o ho)
  have hslice : RowStage ops σ (p.slice.map Slice.filter)
      fun rows => some (p.slice.elim rows fun s => s.rows rows) := by
    rcases hs : p.slice with _ | s
    · exact rowStage_none
    · exact rowStage_slice (hbounded s hs)
  refine ⟨hhelpers.trans hnone, ?_⟩
  have hall := (((gives_array hk hrow records).followedBy hdistinct).followedBy horder).followedBy
    hslice
  have hprojected : (Outputs.bindAll (fun x => (k x).bind fun x => .ofOption (row x)) false
      records).all? = projected? ops σ st records := by
    rw [hkept row records, funext hrows, ← hentries, hn]
    rfl
  rw [hprojected] at hall
  rwa [rows?_stages hordered hlimited hlen] at hall

/-- **Compiling a query** keeps its meaning: jq makes the rows of the statement from an array of
records, or fails where an expression of the statement fails. Parameters have the values of `σ`; no
array is longer than the integers of 64 bits count. -/
theorem program_rows (ops : Operations) (σ : String → Json) {query : String} {st : Statement}
    {p : Program} (hst : Statement.ofText query = .ok st) (hp : ofText query = .ok p)
    (hplain : st.IsPlain) (records : List Json) (hlen : records.length < 2 ^ 63) :
    Jq.run? ops (fun name => some (σ name)) p.text (.array records) =
      some (.ofOption ((st.rows? ops σ records).map .array)) := by
  rw [ofText_of_statement hst] at hp
  obtain ⟨projection, s, s', hcompiled⟩ := compiledFrom_ofStatement hp
  obtain ⟨hnone, ps, hps, he⟩ := gives_filter ops σ hcompiled
    (Statement.ofText_written hst) hplain hlen
  have htext : p.text = p.filter.text := by
    unfold text prelude
    rw [hcompiled.helpers, Names.neededHelpers, hnone]
    rfl
  unfold Jq.run?
  rw [htext, hps.readAs.read?, Option.map_some, Jq.eval_pipeline, he _ fun _ _ => rfl]

/-- Operations that only tell whether texts are equal. -/
def equalTexts : Operations where
  operation
    | .equal, .string s, .string t => some (.boolean (s == t))
    | _, _, _ => none
  negate _ := none
  le _ _ := true

theorem program_rows_member : ∃ st p rows,
    Statement.ofText "SELECT a, b AS a WHERE a IN (?, 'x') ORDER BY a LIMIT 2" = .ok st ∧
      ofText "SELECT a, b AS a WHERE a IN (?, 'x') ORDER BY a LIMIT 2" = .ok p ∧ st.IsPlain ∧
      rows.length = 1 ∧ Jq.run? equalTexts (fun _ => some (.string "y")) p.text
        (.array [.object [("a", .string "x")], .object [("a", .string "z")]]) =
          some (.one (.array rows)) := by
  obtain ⟨st, hst, hstatement⟩ := ok_of_any
    (r := Statement.ofText "SELECT a, b AS a WHERE a IN (?, 'x') ORDER BY a LIMIT 2")
    (p := fun st => decide (st.IsPlain ∧ (st.rows? equalTexts (fun _ => .string "y")
      [.object [("a", .string "x")], .object [("a", .string "z")]]).map List.length = some 1))
    (by decide +kernel)
  obtain ⟨p, hp, -⟩ := ok_of_any
    (r := ofText "SELECT a, b AS a WHERE a IN (?, 'x') ORDER BY a LIMIT 2") (p := fun _ => true)
    (by decide +kernel)
  obtain ⟨hplain, hrows⟩ := of_decide_eq_true hstatement
  obtain ⟨rows, hrows, hlength⟩ := Option.map_eq_some_iff.mp hrows
  have hrun := program_rows equalTexts (fun _ => .string "y") hst hp hplain
    [.object [("a", .string "x")], .object [("a", .string "z")]] (by decide)
  rw [hrows] at hrun
  exact ⟨st, p, rows, hst, hp, hplain, hlength, hrun⟩

end RecordQuery.Program
