import RecordQuery.Proofs.Grammar.Soundness
import RecordQuery.Proofs.Token.Starts

/-! # The parameters of a tree

The parameters of an expression with their places, from left to right (`Expr.parameters`). An
expression that holds no nested statement has those of its tokens, in their order
(`Spells.parameters`), so the parameters of a text begin with those of its result columns, and those
of its condition come next (`parameters_of_text`). -/

namespace RecordQuery

mutual

/-- The parameters in an expression, with their places; those of nested statements are left out. -/
def Expr.parameters : Expr → List (Parameter × Position)
  | .parameter p place => [(p, place)]
  | .unary _ e => e.parameters
  | .binary _ l r => l.parameters ++ r.parameters
  | .between _ value low high => value.parameters ++ (low.parameters ++ high.parameters)
  | .listed _ value items => value.parameters ++ parametersOf items
  | .call _ args _ => parametersOf args
  | _ => []

/-- The parameters in expressions. -/
def parametersOf : List Expr → List (Parameter × Position)
  | [] => []
  | e :: es => e.parameters ++ parametersOf es

end

mutual

/-- An expression that holds no nested statement. -/
def Expr.Flat : Expr → Prop
  | .unary _ e => e.Flat
  | .binary _ l r => l.Flat ∧ r.Flat
  | .between _ value low high => value.Flat ∧ low.Flat ∧ high.Flat
  | .listed _ value items => value.Flat ∧ AllFlat items
  | .call _ args _ => AllFlat args
  | .existsRow _ _ => False
  | _ => True

/-- Expressions that hold no nested statement. -/
def AllFlat : List Expr → Prop
  | [] => True
  | e :: es => e.Flat ∧ AllFlat es

end

theorem parametersOf_append (es es' : List Expr) :
    parametersOf (es ++ es') = parametersOf es ++ parametersOf es' := by
  induction es with
  | nil => rfl
  | cons e es ih => rw [List.cons_append, parametersOf, parametersOf, ih, List.append_assoc]

theorem allFlat_append {es es' : List Expr} : AllFlat (es ++ es') ↔ AllFlat es ∧ AllFlat es' := by
  induction es with
  | nil => exact ⟨fun h => ⟨trivial, h⟩, And.right⟩
  | cons e es ih => rw [List.cons_append, AllFlat, AllFlat, ih, and_assoc]

/-- The expression of a result column that is no star. -/
def ResultColumn.expr? : ResultColumn → Option Expr
  | .expr e _ _ _ => some e
  | _ => none

/-- The parameters in the list behind `SELECT`. -/
def Statement.columnParameters (st : Statement) : List (Parameter × Position) :=
  parametersOf (st.columns.filterMap ResultColumn.expr?)

/-- The parameters behind `WHERE`. -/
def Statement.conditionParameters (st : Statement) : List (Parameter × Position) :=
  parametersOf st.condition.toList

/-! ### Tokens -/

/-- The parameter that a token is, with its place. -/
def Lexeme.parameter? (l : Lexeme) : Option (Parameter × Position) :=
  match l.token with
  | .parameter p => some (p, l.start)
  | _ => none

/-- The parameters among tokens. -/
def parametersIn (ls : List Lexeme) : List (Parameter × Position) :=
  ls.filterMap Lexeme.parameter?

section

variable {l : Lexeme} {ls rs : List Lexeme}

@[simp] theorem parametersIn_nil : parametersIn [] = [] := rfl

@[simp] theorem parametersIn_append :
    parametersIn (ls ++ rs) = parametersIn ls ++ parametersIn rs := List.filterMap_append

theorem parametersIn_parameter {p : Parameter} (h : l.token = .parameter p) :
    parametersIn (l :: ls) = (p, l.start) :: parametersIn ls := by
  unfold parametersIn Lexeme.parameter?
  rw [List.filterMap_cons, h]

theorem parametersIn_cons (h : ∀ p, l.token ≠ .parameter p) :
    parametersIn (l :: ls) = parametersIn ls := by
  have hnone : l.parameter? = none := by
    unfold Lexeme.parameter?
    split
    · next p hp => exact absurd hp (h p)
    · rfl
  unfold parametersIn
  rw [List.filterMap_cons, hnone]

theorem parametersIn_of_eq {t : Token} (h : l.token = t) (ht : ∀ p, t ≠ .parameter p) :
    parametersIn (l :: ls) = parametersIn ls :=
  parametersIn_cons (h ▸ ht)

theorem parametersIn_of_name {n : String} (h : l.token.name? = some n) :
    parametersIn (l :: ls) = parametersIn ls :=
  parametersIn_cons fun p hl => by rw [hl] at h; cases h

theorem token_of_mem_parametersIn {x : Parameter × Position} (h : x ∈ parametersIn ls) :
    ∃ l ∈ ls, l.token = .parameter x.1 := by
  obtain ⟨l, hl, hx⟩ := List.mem_filterMap.mp h
  refine ⟨l, hl, ?_⟩
  unfold Lexeme.parameter? at hx
  split at hx
  · next p hp =>
    cases hx
    exact hp
  · cases hx

/-- The places of the parameters are among the starts of the tokens. -/
theorem places_sublist (ls : List Lexeme) :
    ((parametersIn ls).map Prod.snd).Sublist (ls.map Lexeme.start) := by
  induction ls with
  | nil => exact List.Sublist.refl _
  | cons l ls ih =>
    by_cases hl : ∃ p, l.token = .parameter p
    · obtain ⟨p, hp⟩ := hl
      rw [parametersIn_parameter hp]
      exact ih.cons_cons _
    · rw [parametersIn_cons fun p hp => hl ⟨p, hp⟩]
      exact ih.cons _

end

namespace Grammar

variable {ls : List Lexeme}

theorem SpellsRef.parametersIn {ref : ColumnRef} (h : SpellsRef ref ls) : parametersIn ls = [] := by
  cases h with
  | bare h => rw [parametersIn_of_name h, parametersIn_nil]
  | table hl hd hm =>
    rw [parametersIn_of_name hl, parametersIn_of_eq hd nofun, parametersIn_of_name hm,
      parametersIn_nil]
  | database hl hd hm he ho =>
    rw [parametersIn_of_name hl, parametersIn_of_eq hd nofun, parametersIn_of_name hm,
      parametersIn_of_eq he nofun, parametersIn_of_name ho, parametersIn_nil]

theorem SpellsLabel.parametersIn {label : Option String} (h : SpellsLabel label ls) :
    parametersIn ls = [] := by
  cases h with
  | absent => rfl
  | plain h => rw [parametersIn_of_name h, parametersIn_nil]
  | marked ha h => rw [parametersIn_of_eq ha nofun, parametersIn_of_name h, parametersIn_nil]

theorem SpellsSource.parametersIn {source : Option FromClause} (h : SpellsSource source ls) :
    parametersIn ls = [] := by
  cases h with
  | absent => rfl
  | bare hf hl h => rw [parametersIn_of_eq hf nofun, parametersIn_of_name hl, h.parametersIn]
  | qualified hf hl hd hm h =>
    rw [parametersIn_of_eq hf nofun, parametersIn_of_name hl, parametersIn_of_eq hd nofun,
      parametersIn_of_name hm, h.parametersIn]

theorem SpellsOption.parametersIn {option : Option SelectOption} (h : SpellsOption option ls) :
    parametersIn ls = [] := by
  cases h with
  | absent => rfl
  | distinct h | all h => rw [parametersIn_of_eq h nofun, parametersIn_nil]

/-- What is said of the parameters in a tree of a kind. -/
def Kind.Filled : (k : Kind) → k.Value → List Lexeme → Prop
  | .expr _, e, ls | .item .expression, e, ls => Expr.Flat e → parametersIn ls = e.parameters
  | .item .column, c, ls =>
    AllFlat (ResultColumn.expr? c).toList →
      parametersIn ls = parametersOf (ResultColumn.expr? c).toList
  | .list .expression, es, ls => AllFlat es → parametersIn ls = parametersOf es
  | .list .column, cs, ls =>
    AllFlat (List.filterMap ResultColumn.expr? cs) →
      parametersIn ls = parametersOf (List.filterMap ResultColumn.expr? cs)
  | .clause _, o, ls => AllFlat (Option.toList o) → parametersIn ls = parametersOf (Option.toList o)
  | _, _, _ => True

/-- **Parameters** stand in a tree as they stand in its tokens. -/
theorem Spells.parameters {k : Kind} {a : k.Value} (h : Spells k a ls) : k.Filled a ls := by
  induction h with
  | @literal v l h =>
    intro _
    have hv : ∀ p, v.token ≠ .parameter p := by
      cases v with
      | boolean b => cases b <;> nofun
      | _ => nofun
    rw [parametersIn_of_eq h hv]
    rfl
  | parameter h => exact fun _ => parametersIn_parameter h
  | column h => exact fun _ => h.parametersIn
  | group ho _ hc ih =>
    intro hflat
    rw [parametersIn_of_eq ho nofun, parametersIn_append, parametersIn_of_eq hc nofun, ih hflat]
    exact List.append_nil _
  | callStar hf ho hs hc =>
    intro _
    rw [parametersIn_of_name hf, parametersIn_of_eq ho nofun, parametersIn_of_eq hs nofun,
      parametersIn_of_eq hc nofun]
    rfl
  | callNone hf ho hc =>
    intro _
    rw [parametersIn_of_name hf, parametersIn_of_eq ho nofun, parametersIn_of_eq hc nofun]
    rfl
  | call hf ho _ hc ih =>
    intro hflat
    rw [parametersIn_of_name hf, parametersIn_of_eq ho nofun, parametersIn_append,
      parametersIn_of_eq hc nofun, ih hflat]
    exact List.append_nil _
  | existsRow => exact False.elim
  | notNull h =>
    intro _
    rw [parametersIn_of_eq h nofun]
    rfl
  | leading ho _ _ ih =>
    intro hflat
    rw [parametersIn_cons (fun p hp => by rw [hp] at ho; cases ho), ih hflat]
    rfl
  | trailing _ ho ih =>
    intro hflat
    rw [parametersIn_append, parametersIn_cons (fun p hp => by rw [hp] at ho; cases ho), ih hflat]
    exact List.append_nil _
  | @operator op o l r ls rs _ ho _ _ ihl ihr =>
    intro hflat
    have hop : ∀ p, o.token ≠ .parameter p := fun p hp => by rw [hp] at ho; cases op <;> cases ho
    rw [parametersIn_append, parametersIn_cons hop, ihl hflat.1, ihr hflat.2]
    rfl
  | is _ hi _ _ _ ihl ihr =>
    intro hflat
    rw [parametersIn_append, parametersIn_of_eq hi nofun, ihl hflat.1, ihr hflat.2]
    rfl
  | isNot _ hi hn _ _ ihl ihr =>
    intro hflat
    rw [parametersIn_append, parametersIn_of_eq hi nofun, parametersIn_of_eq hn nofun, ihl hflat.1,
      ihr hflat.2]
    rfl
  | isNotNull _ hi hn ih =>
    intro hflat
    rw [parametersIn_append, parametersIn_of_eq hi nofun, parametersIn_of_eq hn nofun, ih hflat.1]
    rfl
  | @between b a negated v low high vs los his _ hb _ ha _ ihv ihl ihh =>
    intro hflat
    rw [parametersIn_append, parametersIn_of_eq hb (by cases negated <;> nofun),
      parametersIn_append, parametersIn_of_eq ha nofun, ihv hflat.1, ihl hflat.2.1, ihh hflat.2.2]
    rfl
  | @listed i o c negated v items vs ls _ hi ho _ hc ihv ihs =>
    intro hflat
    rw [parametersIn_append, parametersIn_of_eq hi (by cases negated <;> nofun),
      parametersIn_of_eq ho nofun, parametersIn_append, parametersIn_of_eq hc nofun, ihv hflat.1,
      ihs hflat.2, parametersIn_nil, List.append_nil]
    rfl
  | loosen _ ih | expression _ ih => exact ih
  | star h =>
    intro _
    rw [parametersIn_of_eq h nofun]
    rfl
  | qualifiedStar hn hd hs =>
    intro _
    rw [parametersIn_of_name hn, parametersIn_of_eq hd nofun, parametersIn_of_eq hs nofun]
    rfl
  | computed _ ha ih =>
    intro hflat
    rw [parametersIn_append, ha.parametersIn, ih hflat.1]
    rfl
  | @one i a ls _ ih =>
    cases i with
    | expression =>
      intro hflat
      rw [ih hflat.1]
      exact (List.append_nil _).symm
    | column =>
      rw [Kind.Filled, List.filterMap_eq_flatMap_toList, List.flatMap_singleton]
      exact ih
    | term => trivial
  | @more i a as c ls rs _ hc _ ih ihs =>
    cases i with
    | expression =>
      intro hflat
      rw [parametersIn_append, parametersIn_of_eq hc nofun, ih hflat.1, ihs hflat.2]
      rfl
    | column =>
      rw [Kind.Filled, List.filterMap_eq_flatMap_toList, List.flatMap_cons,
        ← List.filterMap_eq_flatMap_toList]
      intro hflat
      obtain ⟨hfirst, hrest⟩ := allFlat_append.mp hflat
      rw [parametersIn_append, parametersIn_of_eq hc nofun, ih hfirst, ihs hrest,
        parametersOf_append]
    | term => trivial
  | absent => exact fun _ => rfl
  | present hl _ ih =>
    intro hflat
    rw [parametersIn_of_eq hl (by cases ‹Clause› <;> nofun), ih hflat.1]
    exact (List.append_nil _).symm
  | _ => trivial

end Grammar

/-- **The parameters of a text** begin with those of the result columns, and those of the condition
come next. -/
theorem parameters_of_text {text : String} {st : Statement} {ls : List Lexeme}
    (hst : Statement.ofText text = .ok st) (hls : tokenize text = .ok ls)
    (hcolumns : AllFlat (st.columns.filterMap ResultColumn.expr?))
    (hcondition : AllFlat st.condition.toList) :
    st.columnParameters ++ st.conditionParameters <+: parametersIn ls := by
  obtain ⟨run, tail, last, htokens, hspells, -, -⟩ := spells_ofText hst
  obtain rfl : ls = run ++ (tail ++ [last]) := Except.ok.inj (hls.symm.trans htokens)
  cases hspells with
  | @statement s option columns source condition groupCondition orderBy limit os cs fs ws hs bs ms
      h ho hc hf hw hh hb hm =>
    have hcs : parametersIn cs = _ := hc.parameters hcolumns
    have hws : parametersIn ws = _ := hw.parameters hcondition
    refine ⟨parametersIn (hs ++ (bs ++ ms) ++ (tail ++ [last])), ?_⟩
    rw [List.cons_append, parametersIn_of_eq h nofun]
    simp only [parametersIn_append, ho.parametersIn, hf.parametersIn, hcs, hws, List.nil_append,
      List.append_assoc]
    rfl

end RecordQuery
