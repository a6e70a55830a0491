import Mathlib.Data.List.Forall2
import RecordQuery.Proofs.Compile.Matching
import RecordQuery.Proofs.Compile.Quotations

/-! # Expressions of one shape

The shape of an expression is what is left of it without the texts of its literals, the names of its
columns, its places, and the statements behind `EXISTS` (`Expr.shape`). Two runs of the compiler are
`Related` if they end in one way and with the same names. Compiling an expression and compiling its
shape are related, and the filters differ between quotes alone (`related_shape`). So what a text of
the source says never shows outside the quotes around it (`texts_confined`). -/

namespace RecordQuery

mutual

/-- An expression without texts, names of columns and places. -/
def Expr.shape : Expr → Expr
  | .literal (.string _) => .literal (.string "")
  | .literal (.blob _) => .literal (.blob "")
  | .literal v => .literal v
  | .column _ => .column (.bare "")
  | .parameter p _ => .parameter p .start
  | .unary op e => .unary op e.shape
  | .binary op l r => .binary op l.shape r.shape
  | .between negated value low high => .between negated value.shape low.shape high.shape
  | .listed negated value items => .listed negated value.shape (shapes items)
  | .call name args _ => .call name (shapes args) .start
  | .callStar name _ => .callStar name .start
  | .existsRow _ _ => .existsRow ⟨none, [], none, none, none, [], none⟩ .start

/-- The shapes of expressions. -/
def shapes : List Expr → List Expr
  | [] => []
  | e :: es => e.shape :: shapes es

end

theorem length_shapes (es : List Expr) : (shapes es).length = es.length := by
  induction es with
  | nil => rfl
  | cons e es ih => rw [shapes, List.length_cons, ih, List.length_cons]

namespace Filter

/-- Two filters that differ between quotes alone. -/
def Alike (f g : Filter) : Prop := f.marks.map Mark.blanked = g.marks.map Mark.blanked

variable {f g : Filter}

/-- Two marks that differ between quotes alone. -/
def SameBlanked (m n : Mark) : Prop := m.blanked = n.blanked

instance : Std.Refl SameBlanked := ⟨fun _ => rfl⟩

theorem alike_iff : f.Alike g ↔ f.Matched SameBlanked g := by
  unfold Alike Matched SameBlanked
  rw [← List.forall₂_eq_eq_eq, List.forall₂_map_left_iff, List.forall₂_map_right_iff]

theorem matched_string (s t : String) : (Filter.string s).Matched SameBlanked (.string t) :=
  alike_iff.mp rfl

end Filter

namespace Compile

open RecordQuery.Filter

/-! ### Runs side by side -/

variable {α β γ : Type} {R : α → β → Prop}

/-- Two results of which both are values, both are faults or both are panics, with the same names
behind them. -/
abbrev Agree (R : α → β → Prop) : EStateM.Result (Stop CompileError) Names α →
    EStateM.Result (Stop CompileError) Names β → Prop :=
  EndAlike Eq (Stop.Alike fun _ _ => True) R

/-- Two steps whose runs agree from all names. -/
abbrev Related (R : α → β → Prop) (x : Compile α) (y : Compile β) : Prop :=
  SideBySide Eq (Stop.Alike fun _ _ => True) R x y

theorem related_of_agree {x : Compile α} {y : Compile β} (h : ∀ s, Agree R (x.run s) (y.run s)) :
    Related R x y := by
  rintro s _ rfl
  exact h s

theorem Related.refl (x : Compile α) : Related Eq x x := by
  refine related_of_agree fun s => ?_
  cases x.run s with
  | ok a s' => exact ⟨rfl, rfl⟩
  | error e s' => cases e with
    | fault e => exact ⟨.fault trivial, rfl⟩
    | panic => exact ⟨.panic, rfl⟩

theorem related_fault (e e' : CompileError) :
    Related R (throw (.fault e)) (throw (.fault e')) := .throw (.fault trivial)

/-! ### Parts of compiled expressions -/

theorem related_literal (v : Literal) :
    Related (Matched SameBlanked) (expr (.literal v)) (expr (Expr.literal v).shape) := by
  cases v with
  | string s => exact .pure (matched_string s "")
  | blob digits => exact .pure (matched_string digits "")
  | _ => exact .pure (.refl _)

/-- Arguments that are alike, with the same variables. -/
def AlikeArgument (a b : Filter × Variable) : Prop := a.1.Alike b.1 ∧ a.2 = b.2

theorem callFilter_of_alike (q : QueryFunction) {bs bs' : List (Filter × Variable)}
    (h : List.Forall₂ AlikeArgument bs bs') :
    (callFilter q bs).Matched SameBlanked (callFilter q bs') := by
  have hvariables : bs.map (fun b => Filter.variable b.2) =
      bs'.map fun b => Filter.variable b.2 := by
    induction h with
    | nil => rfl
    | cons hb _ ih => rw [List.map_cons, List.map_cons, ih, hb.2]
  refine matched_callFilter q (h.imp fun a b hb => ⟨alike_iff.mp hb.1, ?_⟩) ?_
  · rw [hvariables]
    exact .refl _
  · rw [hb.2]
    exact refl_of SameBlanked _

theorem related_parameter (p : Parameter) (position position' : Position) :
    Related (Matched SameBlanked) (parameter p position) (parameter p position') := by
  have hname : Related Eq (parameterName p position) (parameterName p position') := by
    cases p with
    | next | numbered n => exact .refl _
    | named sigil name =>
      rintro s _ rfl
      rw [run_named, run_named]
      split_ifs
      · exact ⟨.fault trivial, rfl⟩
      · exact ⟨rfl, rfl⟩
  exact hname.bindEq fun name => (Related.refl _).bind fun _ _ _ => .pure (.refl _)

theorem pattern?_shape (e : Expr) : pattern? e.shape = (pattern? e).map fun _ => "" := by
  cases e with
  | literal v => cases v <;> rfl
  | _ => rfl

theorem related_function (name : String) (n : Nat) (position position' : Position) :
    Related Eq (function name n position) (function name n position') := by
  unfold function
  split
  · exact related_fault _ _
  · split
    · exact .refl _
    · exact related_fault _ _

/-! ### Expressions and their shapes -/

theorem related_binary {op : BinaryOp} {l r : Expr}
    (hl : Related (Matched SameBlanked) (expr l) (expr l.shape))
    (hr : Related (Matched SameBlanked) (expr r) (expr r.shape)) :
    Related (Matched SameBlanked) (expr (.binary op l r)) (expr (Expr.binary op l r).shape) := by
  rw [Expr.shape]
  unfold expr
  cases ho : rule op with
  | operator o =>
    exact hl.bind fun f f' hf => hr.bind fun g g' hg => .pure (hf.operation _ hg).group
  | joined join =>
    exact hl.bind fun f f' hf => hr.bind fun g g' hg => .pure (matched_joinedBy ho hf hg)
  | helper h =>
    exact (Related.refl (need h)).bind fun _ _ _ =>
      hl.bind fun f f' hf => hr.bind fun g g' hg => .pure (hf.helper _ hg)
  | like negated =>
    dsimp only
    rw [pattern?_shape]
    cases hp : pattern? r with
    | some s =>
      exact hl.bind fun f f' hf => related_of_agree fun _ =>
        ⟨matched_tested negated (refl_of _ _) hf (matched_string _ _), rfl⟩
    | none => exact related_fault _ _
  | regexp negated =>
    dsimp only
    rw [pattern?_shape]
    cases hp : pattern? r with
    | some s =>
      exact hl.bind fun f f' hf => related_of_agree fun _ =>
        ⟨matched_tested negated (refl_of _ _) hf (matched_string _ _), rfl⟩
    | none =>
      exact hl.bind fun f f' hf => hr.bind fun g g' hg => related_of_agree fun _ =>
        ⟨matched_binding (refl_of _ _) hg (matched_tested negated (refl_of _ _) hf (.refl _)), rfl⟩
  | member negated =>
    exact hl.bind fun f f' hf => hr.bind fun g g' hg => related_of_agree fun _ =>
      ⟨matched_oneOf negated (refl_of _ _) hf (.cons hg .nil), rfl⟩

mutual

/-- **Compiling an expression and its shape** ends in one way, with filters that are alike. -/
theorem related_shape : ∀ e : Expr, Related (Matched SameBlanked) (expr e) (expr e.shape)
  | .literal v => related_literal v
  | .column ref => .pure (alike_iff.mp rfl)
  | .parameter p position => by
    rw [Expr.shape]
    unfold expr
    exact related_parameter p position .start
  | .unary op e => by
    rw [Expr.shape]
    unfold expr
    exact (related_shape e).bind fun f f' hf => .pure (matched_unary op hf)
  | .binary op l r => related_binary (related_shape l) (related_shape r)
  | .between negated value low high => by
    rw [Expr.shape]
    unfold expr
    exact (related_shape value).bind fun x x' hx => (related_shape low).bind fun f f' hf =>
      (related_shape high).bind fun g g' hg => related_of_agree fun _ =>
        ⟨matched_inRange negated (refl_of _ _) hx hf hg, rfl⟩
  | .listed negated value items => by
    rw [Expr.shape]
    unfold expr
    exact (related_shape value).bind fun x x' hx => (related_shapes items).bind fun fs fs' hs =>
      related_of_agree fun _ => ⟨matched_oneOf negated (refl_of _ _) hx hs, rfl⟩
  | .call name args position => by
    rw [Expr.shape]
    unfold expr
    rw [length_shapes]
    exact (related_function name _ position .start).bindEq fun q =>
      (related_arguments args).bind fun bs bs' hs => .pure (callFilter_of_alike q hs)
  | .callStar name position => related_fault _ _
  | .existsRow query position => related_fault _ _

theorem related_shapes : ∀ es : List Expr,
    Related (List.Forall₂ (Matched SameBlanked)) (exprs es) (exprs (shapes es))
  | [] => .pure .nil
  | e :: es => by
    unfold exprs
    exact (related_shape e).bind fun f f' hf =>
      (related_shapes es).bind fun fs fs' hs => .pure (.cons hf hs)

theorem related_arguments : ∀ es : List Expr,
    Related (List.Forall₂ AlikeArgument) (arguments es) (arguments (shapes es))
  | [] => .pure .nil
  | e :: es => by
    unfold arguments
    refine (related_shape e).bind fun f f' hf => (Related.refl freshVariable).bind fun v v' hv => ?_
    exact (related_arguments es).bind fun bs bs' hs => .pure (.cons ⟨alike_iff.mpr hf, hv⟩ hs)

end

/-! ### Texts stay between their quotes -/

/-- A filter whose text ends outside quotes, has no interpolation between them, and has there the
escaped forms of some texts, one after another. -/
structure Confines (f : Filter) (qs : List Quotation) : Prop where
  closed : TextState.outside.after f.text.toList = .outside
  plain : ∀ t ∈ TextState.outside.contents [] f.text.toList, interpolates t = false
  texts : (TextState.outside.contents [] f.text.toList).map decoded =
    qs.map fun q => some q.text

theorem confines_of_quotes {f : Filter} {qs : List Quotation} (h : f.Quotes qs) : Confines f qs := by
  obtain ⟨-, hcontents, hafter⟩ := Mark.strings_render h.clean
  rw [← f.toList_text, h.texts, List.map_map] at hcontents
  rw [← f.toList_text] at hafter
  refine ⟨hafter, fun t ht => ?_, ?_⟩
  · rw [hcontents] at ht
    obtain ⟨q, -, rfl⟩ := List.mem_map.mp ht
    exact Json.Quoted.interpolates_escape _
  · rw [hcontents, List.map_map]
    exact List.map_congr_left fun q _ => Json.Quoted.decoded_escape q.text

theorem Agree.meet {R : α → γ → Prop} {S : β → γ → Prop} {T : α → β → Prop}
    {x : EStateM.Result (Stop CompileError) Names α}
    {y : EStateM.Result (Stop CompileError) Names β}
    {z : EStateM.Result (Stop CompileError) Names γ} (h : Agree R x z) (h' : Agree S y z)
    (hT : ∀ a b c s, x = .ok a s → y = .ok b s → R a c → S b c → T a b) : Agree T x y := by
  cases z with
  | ok c t =>
    cases x with
    | ok a s =>
      cases y with
      | ok b s' =>
        obtain ⟨hac, rfl⟩ := h
        obtain ⟨hbc, rfl⟩ := h'
        exact ⟨hT a b c _ rfl rfl hac hbc, rfl⟩
      | error e s' => exact h'.elim
    | error e s => exact h.elim
  | error c t =>
    cases x with
    | ok a s => exact h.elim
    | error e s =>
      cases y with
      | ok b s' => exact h'.elim
      | error e' s' =>
        obtain ⟨he, rfl⟩ := h
        obtain ⟨he', rfl⟩ := h'
        cases he with
        | fault => cases he'; exact ⟨.fault trivial, rfl⟩
        | panic => cases he'; exact ⟨.panic, rfl⟩

/-- **The texts of a query stay between quotes**: expressions of one shape compile alike, up to what
is between quotes, and there is what the source says. -/
theorem texts_confined {e₁ e₂ : Expr} (s : Names) (h : e₁.shape = e₂.shape) :
    Agree (fun f₁ f₂ => TextState.outside.blank f₁.text.toList =
        TextState.outside.blank f₂.text.toList ∧
        Confines f₁ e₁.quotations ∧ Confines f₂ e₂.quotations)
      ((expr e₁).run s) ((expr e₂).run s) := by
  have h₁ : Agree _ _ _ := related_shape e₁ s s rfl
  have h₂ : Agree _ _ _ := related_shape e₂ s s rfl
  rw [h] at h₁
  refine h₁.meet h₂ fun f₁ f₂ f s' hrun₁ hrun₂ hf₁ hf₂ => ?_
  have hq₁ : f₁.Quotes e₁.quotations := (compiled_of_run e₁ f₁ s s' hrun₁).quotes
  have hq₂ : f₂.Quotes e₂.quotations := (compiled_of_run e₂ f₂ s s' hrun₂).quotes
  refine ⟨?_, confines_of_quotes hq₁, confines_of_quotes hq₂⟩
  rw [f₁.toList_text, f₂.toList_text, (Mark.strings_render hq₁.clean).1,
    (Mark.strings_render hq₂.clean).1]
  rw [← alike_iff, Alike] at hf₁ hf₂
  rw [hf₁, hf₂]

theorem texts_confined_like :
    let e (column pattern : String) : Expr :=
      .binary .like (.column (.bare column)) (.literal (.string pattern))
    (e "na\"me" "\\(input)%").shape = (e "" "_").shape ∧
      Agree (fun f₁ f₂ => TextState.outside.blank f₁.text.toList =
          TextState.outside.blank f₂.text.toList ∧
          Confines f₁ [.source "na\"me", .source "^\\\\\\(input\\).*?$", .fixed "i"] ∧
          Confines f₂ [.source "", .source "^.$", .fixed "i"])
        ((expr (e "na\"me" "\\(input)%")).run {}) ((expr (e "" "_")).run {}) := by
  intro e
  have h : (e "na\"me" "\\(input)%").shape = (e "" "_").shape := rfl
  exact ⟨h, texts_confined {} h⟩

end Compile

end RecordQuery
