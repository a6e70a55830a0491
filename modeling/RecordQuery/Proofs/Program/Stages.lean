import RecordQuery.Proofs.Compile.Meaning
import RecordQuery.Proofs.Plan.Clauses
import RecordQuery.Proofs.Program.Parts

/-! # The stages of a program

What each stage of a program does, read from its text: a stage on single records (`Stage`) and one
on the array of all rows (`RowStage`), either of which may be left out. A program is a filter with
one stage behind the other (`ReadPiped.followedBy`), so what it does is put together from these. -/

namespace RecordQuery

open Compile (Binds Means)

/-- A stage that is left out, or one whose text is read as programs piped one into another. -/
def Filter.ReadStage : Option Filter → List Jq → Prop
  | none, ps => ps = []
  | some f, ps => f.ReadPiped ps

theorem Filter.ReadPiped.followedBy {f : Filter} {o : Option Filter} {ps qs : List Jq}
    (h : f.ReadPiped ps) (h' : Filter.ReadStage o qs) :
    (Program.followedBy f o).ReadPiped (ps ++ qs) := by
  rcases o with _ | g
  · rw [show qs = [] from h', List.append_nil]
    exact h
  · exact h.pipe h'

namespace Program

variable {ops : Operations} {σ : String → Json}

/-- What a stage puts out for each input. -/
def Stage (ops : Operations) (σ : String → Json) (o : Option Filter) (k : Json → Outputs Json) :
    Prop :=
  ∃ ps, Filter.ReadStage o ps ∧ ∀ ρ, Binds σ ρ → ∀ x, Jq.evalPiped ops ρ ps x = k x

/-- What a stage makes of an array of rows, unless it fails. -/
def RowStage (ops : Operations) (σ : String → Json) (o : Option Filter)
    (g : List Json → Option (List Json)) : Prop :=
  ∃ ps, Filter.ReadStage o ps ∧ ∀ ρ, Binds σ ρ → ∀ rows,
    Jq.evalPiped ops ρ ps (.array rows) = .ofOption ((g rows).map .array)

/-- The rows that a filter gives for an input, unless it fails. -/
def Gives (ops : Operations) (σ : String → Json) (f : Filter) (x : Json)
    (rows : Option (List Json)) : Prop :=
  ∃ ps, f.ReadPiped ps ∧ ∀ ρ, Binds σ ρ →
    Jq.evalPiped ops ρ ps x = .ofOption (rows.map .array)

theorem stage_none : Stage ops σ none .one := ⟨[], rfl, fun _ _ _ => rfl⟩

theorem rowStage_none : RowStage ops σ none some := ⟨[], rfl, fun _ _ _ => rfl⟩

theorem Gives.followedBy {f : Filter} {x : Json} {rows : Option (List Json)} {o : Option Filter}
    {g : List Json → Option (List Json)} (h : Gives ops σ f x rows) (h' : RowStage ops σ o g) :
    Gives ops σ (followedBy f o) x (rows.bind g) := by
  obtain ⟨ps, hps, he⟩ := h
  obtain ⟨qs, hqs, he'⟩ := h'
  refine ⟨ps ++ qs, hps.followedBy hqs, fun ρ hρ => ?_⟩
  rw [Jq.evalPiped_append, he ρ hρ]
  rcases rows with _ | rows
  · rfl
  · rw [Option.map_some, Outputs.ofOption, Outputs.bind_one, he' ρ hρ]
    rfl

theorem rowStage_one {f : Filter} {p : Jq} {g : List Json → Option (List Json)}
    (hf : f.ReadAs .term p) (he : ∀ ρ, Binds σ ρ → ∀ rows,
      p.eval ops ρ (.array rows) = .ofOption ((g rows).map .array)) :
    RowStage ops σ (some f) g := by
  refine ⟨[p], (hf.looser (by decide)).piped, fun ρ hρ rows => ?_⟩
  rw [Jq.evalPiped]
  exact (Outputs.one_bind _).trans (he ρ hρ rows)

/-! ### Records -/

theorem stage_selection {c : Filter} {v : Json → Option Json} (h : Means ops σ c v) :
    Stage ops σ (some (selection c)) fun x => (Outputs.ofOption (v x)).bind fun a =>
      if a.truthy then .one x else ⟨[], false⟩ := by
  obtain ⟨p, hp, he⟩ := h
  have hread := (hp.looser (l := .pipe) (by decide)).select.looser (l := .comma) (by decide)
  refine ⟨[.select p], hread.piped, fun ρ hρ x => ?_⟩
  rw [Jq.evalPiped]
  refine (Outputs.one_bind _).trans ?_
  rw [Jq.eval, he ρ hρ]

/-- The filters of the columns of a row, and the values under their keys. -/
theorem entries_means (ops : Operations) (σ : String → Json) {cs : List Column}
    {es : List (String × Filter)} {s s' : Names} (h : (entries cs).run s = .ok es s')
    (hw : ∀ c ∈ cs, c.expr.Written) (hp : ∀ c ∈ cs, c.expr.isPlain = true) :
    s'.helpers = s.helpers ∧ ∃ qs, Filter.ReadEntries es qs ∧ ∀ ρ, Binds σ ρ → ∀ done x,
      Jq.evalEntries ops ρ done qs x =
        .ofOption ((Statement.members? ops σ x s.positional
          (cs.map fun c => (c.label, c.expr))).map fun members =>
            .object (members.foldl (fun done (k, v) => Json.setMember k v done) done)) := by
  induction cs generalizing es s with
  | nil =>
    cases h
    exact ⟨rfl, [], .nil, fun _ _ _ _ => rfl⟩
  | cons c cs ih =>
    obtain ⟨f, s₁, fs, hf, hfs, rfl⟩ := ok_of_entries_cons h
    have hcompiled := Compile.compiled_of_run _ _ _ _ hf
    have hplain := hp c List.mem_cons_self
    obtain ⟨hhelpers, qs, hqs, hrest⟩ := ih hfs (fun d hd => hw d (List.mem_cons_of_mem _ hd))
      (fun d hd => hp d (List.mem_cons_of_mem _ hd))
    obtain ⟨p, hread, he⟩ := hcompiled.means ops σ (hw c List.mem_cons_self) hplain
    refine ⟨hhelpers.trans (hcompiled.helpers hplain), (c.label, p) :: qs,
      .cons ⟨rfl, hread.looser (by decide)⟩ hqs, fun ρ hρ done x => ?_⟩
    have hcounted : s₁.positional = c.expr.counted s.positional := hcompiled.counted
    have hvalue : p.eval ops ρ x = .ofOption (c.expr.value? ops σ x s.positional) := he ρ hρ x
    rw [Jq.evalEntries, hvalue, List.map_cons, Statement.members?]
    rcases c.expr.value? ops σ x s.positional with _ | a
    · rfl
    · rw [Outputs.ofOption, Outputs.bind_one, hrest ρ hρ, hcounted]
      simp [Option.map_eq_bind, Option.bind_assoc]

/-- A row of the columns of a projection. -/
theorem stage_object {cs : List Column} {es : List (String × Filter)} {s s' : Names}
    (h : (entries cs).run s = .ok es s') (hw : ∀ c ∈ cs, c.expr.Written)
    (hp : ∀ c ∈ cs, c.expr.isPlain = true) :
    Stage ops σ (some (.object es)) fun x => .ofOption
      (Statement.row? ops σ s.positional (cs.map fun c => (c.label, c.expr)) x) := by
  obtain ⟨-, qs, hqs, he⟩ := entries_means ops σ h hw hp
  have hread := (Filter.readAs_object hqs).looser (l := .comma) (by decide)
  refine ⟨[.object qs], hread.piped, fun ρ hρ x => ?_⟩
  rw [Jq.evalPiped]
  refine (Outputs.one_bind _).trans ?_
  rw [Jq.eval, he ρ hρ]
  rfl

section

variable {row : Json → Option Json}

/-- The rows of all records. -/
theorem all?_rows (xs : List Json) :
    (Outputs.bindAll (fun x => .ofOption (row x)) false xs).all? = xs.mapM row := by
  induction xs with
  | nil => rfl
  | cons x xs ih =>
    rw [Outputs.bindAll, Outputs.all?_append, ih, List.mapM_cons]
    rcases row x with _ | y
    · rfl
    · rcases xs.mapM row with _ | ys <;> rfl

/-- The rows of the records on which a condition is true. -/
theorem all?_kept (condition : Expr) (xs : List Json) :
    (Outputs.bindAll (fun x => ((Outputs.ofOption (condition.value? ops σ x 0)).bind fun a =>
      if a.truthy then Outputs.one x else ⟨[], false⟩).bind fun x => .ofOption (row x))
        false xs).all? = (Statement.kept? ops σ condition xs).bind fun xs => xs.mapM row := by
  induction xs with
  | nil => rfl
  | cons x xs ih =>
    rw [Outputs.bindAll, Outputs.all?_append, ih, Statement.kept?]
    rcases condition.value? ops σ x 0 with _ | a
    · rfl
    · simp only [Outputs.ofOption, Outputs.bind_one, Option.bind_eq_bind, Option.bind_some]
      rcases Statement.kept? ops σ condition xs with _ | ys
      · simp
      · by_cases ha : a.truthy = true
        · rcases hrow : row x with _ | y
          · simp [ha, hrow]
          · simp [ha, hrow, Option.map_eq_bind]
        · simp [ha]

end

end Program

end RecordQuery
