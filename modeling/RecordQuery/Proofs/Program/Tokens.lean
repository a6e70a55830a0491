import RecordQuery.Proofs.Compile.Places
import RecordQuery.Proofs.Grammar.Places
import RecordQuery.Proofs.Program.Checks
import RecordQuery.Proofs.Token.Lexed

/-! # Programs and the tokens of their queries

Result columns, sorting and limits keep places for their errors alone, so statements that are the
same up to places have one program. With what holds of readers this makes a program depend on the
tokens of its query and on nothing else (`Program.ofText_tokens`). -/

namespace RecordQuery

variable {R : Position → Position → Prop}

/-! ### Plans -/

/-- Columns that are the same up to places. -/
structure Column.Kin (R : Position → Position → Prop) (c d : Column) : Prop where
  field : c.field = d.field
  label : c.label = d.label
  expr : c.expr.Kin R d.expr

/-- Projections that are the same up to places. -/
inductive Projection.Kin (R : Position → Position → Prop) : Projection → Projection → Prop
  | all : Projection.Kin R .all .all
  | columns {cs ds : List Column} (h : List.Forall₂ (Column.Kin R) cs ds) :
      Projection.Kin R (.columns cs) (.columns ds)

theorem Projection.kin_column {e f : Expr} (h : e.Kin R f) (label : Option String)
    (text : String) : (column e label text).Kin R (column f label text) := by
  have hexpr := h
  cases h with
  | literal v =>
    cases v with
    | string name => exact ⟨rfl, rfl, .column (.bare name)⟩
    | _ => exact ⟨rfl, rfl, hexpr⟩
  | _ => exact ⟨rfl, rfl, hexpr⟩

theorem Projection.kin_columnsOf {cs ds : List ResultColumn}
    (h : List.Forall₂ (ResultColumn.Kin R) cs ds) :
    ResultsAlike (CompileError.Kin R) (List.Forall₂ (Column.Kin R)) (columnsOf cs)
      (columnsOf ds) := by
  induction h with
  | nil => exact .nil
  | cons h _ ih =>
    cases h with
    | star hp => exact ⟨rfl, hp⟩
    | qualifiedStar table hp => exact ⟨rfl, hp⟩
    | expr label text he _ => exact ih.map fun _ _ hs => .cons (kin_column he label text) hs

theorem Projection.kin_ofColumns {cs ds : List ResultColumn}
    (h : List.Forall₂ (ResultColumn.Kin R) cs ds) :
    ResultsAlike (CompileError.Kin R) (Projection.Kin R) (ofColumns cs) (ofColumns ds) := by
  have hcolumns := (kin_columnsOf h).map (f := Projection.columns) (g := Projection.columns)
    (Q := Projection.Kin R) fun _ _ => .columns
  cases h with
  | nil => exact hcolumns
  | cons h hs =>
    cases h with
    | star hp =>
      cases hs with
      | nil => exact .all
      | cons => exact hcolumns
    | qualifiedStar | expr => exact hcolumns

theorem Projection.Kin.labels {p q : Projection} (h : p.Kin R q) : p.labels = q.labels := by
  cases h with
  | all => rfl
  | columns h =>
    have hlabels : ∀ {cs ds : List Column}, List.Forall₂ (Column.Kin R) cs ds →
        cs.map Column.label = ds.map Column.label := by
      intro cs ds h
      induction h with
      | nil => rfl
      | cons h _ ih => rw [List.map_cons, List.map_cons, ih, h.label]
    unfold Projection.labels
    dsimp only
    rw [hlabels h]

theorem any_label {cs ds : List Column} (h : List.Forall₂ (Column.Kin R) cs ds) (name : String) :
    ds.any (·.label == name) = cs.any (·.label == name) := by
  induction h with
  | nil => rfl
  | cons h _ ih => rw [List.any_cons, List.any_cons, ih, h.label]

theorem label_getElem? {cs ds : List Column} (h : List.Forall₂ (Column.Kin R) cs ds) (i : Nat) :
    ds[i]?.map Column.label = cs[i]?.map Column.label := by
  induction h generalizing i with
  | nil => rfl
  | cons h _ ih =>
    cases i with
    | zero => rw [List.getElem?_cons_zero, List.getElem?_cons_zero, Option.map_some,
        Option.map_some, h.label]
    | succ i => rw [List.getElem?_cons_succ, List.getElem?_cons_succ, ih]

theorem RowOrder.kin_key {p q : Projection} {t u : OrderingTerm} (hp : p.Kin R q)
    (ht : t.Kin R u) : ResultsAlike (CompileError.Kin R) Eq (key p t) (key q u) := by
  obtain ⟨hexpr, -, hposition⟩ := ht
  unfold key
  generalize t.expr = e at hexpr
  generalize u.expr = f at hexpr
  cases hexpr with
  | column ref =>
    cases hp with
    | all => exact rfl
    | columns hs =>
      dsimp only
      rw [any_label hs]
      split
      · exact rfl
      · exact ⟨rfl, hposition⟩
  | literal v =>
    cases v with
    | number n =>
      cases n with
      | integer n =>
        cases hp with
        | all => exact ⟨rfl, hposition⟩
        | @columns cs ds hs =>
          have hlabel := label_getElem? hs (n.toInt.toNat - 1)
          dsimp only
          rw [hs.length_eq]
          split
          · cases hc : cs[n.toInt.toNat - 1]? <;> cases hd : ds[n.toInt.toNat - 1]? <;>
              rw [hc, hd] at hlabel
            · exact ⟨rfl, hposition⟩
            · cases hlabel
            · cases hlabel
            · exact (Option.some.inj hlabel).symm
          · exact ⟨rfl, hposition⟩
      | real d | float x => cases hp <;> exact ⟨rfl, hposition⟩
    | _ => cases hp <;> exact ⟨rfl, hposition⟩
  | _ => cases hp <;> exact ⟨rfl, hposition⟩

theorem RowOrder.kin_keysOf {p q : Projection} (hp : p.Kin R q) (direction : Direction)
    {ts us : List OrderingTerm} (h : List.Forall₂ (OrderingTerm.Kin R) ts us) :
    ResultsAlike (CompileError.Kin R) Eq (keysOf p direction ts) (keysOf q direction us) := by
  induction h with
  | nil => exact rfl
  | @cons t u ts us ht _ ih =>
    unfold keysOf OrderingTerm.sense
    rw [ht.direction]
    split
    · refine (kin_key hp ht).bind fun k k' hk => ih.bind fun ks ks' hks => ?_
      rw [hk, hks]
      exact rfl
    · exact ⟨rfl, ht.position⟩

theorem RowOrder.kin_ofTerms {p q : Projection} (hp : p.Kin R q) {ts us : List OrderingTerm}
    (h : List.Forall₂ (OrderingTerm.Kin R) ts us) :
    ResultsAlike (CompileError.Kin R) Eq (ofTerms p ts) (ofTerms q us) := by
  have hkeys := fun direction => kin_keysOf hp direction h
  unfold ofTerms
  cases h with
  | nil => exact rfl
  | @cons t u ts us ht _ =>
    have hsense : t.sense = u.sense := congrArg (·.getD .ascending) ht.direction
    dsimp only [List.head?_cons]
    rw [hsense]
    exact (hkeys _).map fun keys keys' hk => by rw [hk]

theorem Slice.kin_integer : ∀ (e f : Expr), e.Kin R f → integer f = integer e
  | .unary .plus e, _, h => by
    cases h with
    | unary _ h =>
      rw [integer, integer]
      exact kin_integer e _ h
  | .unary .negate _, _, h => by
    cases h with
    | unary _ h => cases h <;> rfl
  | .unary .bitNot _, _, h | .unary .not _, _, h | .unary .isNull _, _, h
  | .unary .notNull _, _, h => by
    cases h
    rfl
  | .literal _, _, h | .column _, _, h | .parameter _ _, _, h | .binary _ _ _, _, h
  | .between _ _ _ _, _, h | .listed _ _ _, _, h | .call _ _ _, _, h | .callStar _ _, _, h
  | .existsRow _ _, _, h => by
    cases h
    rfl

theorem Slice.kin_ofLimit {l m : Option LimitClause} (h : Option.Rel (LimitClause.Kin R) l m) :
    ResultsAlike (Stop.Alike (CompileError.Kin R)) Eq (ofLimit l) (ofLimit m) := by
  cases h with
  | none => exact rfl
  | @some l m h =>
    have hoperand : ∀ {e f : Expr}, e.Kin R f →
        ResultsAlike (Stop.Alike (CompileError.Kin R)) Eq (operand l e) (operand m f) := by
      intro e f he
      unfold operand
      rw [kin_integer e f he]
      rcases integer e with (what | _) | n
      · exact .fault ⟨rfl, h.position⟩
      · exact .panic
      · exact rfl
    obtain ⟨hcount, hoffset, -⟩ := h
    unfold ofLimit
    refine (hoperand hcount).bind fun n n' hn => ?_
    subst hn
    generalize l.offset = o at hoffset
    generalize m.offset = o' at hoffset
    cases hoffset with
    | none => exact rfl
    | some he =>
      refine (hoperand he).bind fun k k' hk => ?_
      subst hk
      exact rfl

/-! ### Programs -/

namespace Program

open Compile (Beside beside_expr)

theorem beside_entries {cs ds : List Column} (h : List.Forall₂ (Column.Kin R) cs ds) :
    Beside R Eq (entries cs) (entries ds) := by
  induction h with
  | nil => exact .pure rfl
  | @cons c d cs ds h _ ih =>
    unfold entries
    rw [h.label]
    exact (beside_expr _ _ h.expr).bindEq fun f => ih.bindEq fun es => .pure rfl

theorem beside_conditionOf {o o' : Option Expr} (h : Option.Rel (Expr.Kin R) o o') :
    Beside R Eq (conditionOf o) (conditionOf o') := by
  cases h with
  | none => exact .pure rfl
  | some he => exact (beside_expr _ _ he).map fun f g hfg => by rw [hfg]

theorem beside_rowOf {p q : Projection} (h : p.Kin R q) : Beside R Eq (rowOf p) (rowOf q) := by
  cases h with
  | all => exact .pure rfl
  | columns hs => exact (beside_entries hs).map fun f g hfg => by rw [hfg]

theorem beside_planned {α β : Type} {P : α → β → Prop} {r : Except CompileError α}
    {r' : Except CompileError β} (h : ResultsAlike (CompileError.Kin R) P r r') :
    Beside R P (planned r) (planned r') := by
  refine SideBySide.ofExcept ?_
  cases r <;> cases r' <;> first | exact h.elim | exact h | exact .fault h

/-- **Compiling a statement** is not concerned with its places. -/
theorem beside_compile {s t : Statement} (h : s.Kin R t) :
    Beside R Eq (compile s) (compile t) := by
  rw [compile_eq, compile_eq]
  unfold Statement.isDistinct
  rw [h.option]
  refine (beside_planned (Projection.kin_ofColumns h.columns)).bind fun p q hp => ?_
  refine (beside_conditionOf h.condition).bindEq fun condition => ?_
  refine (beside_rowOf hp).bindEq fun row => ?_
  refine (beside_planned (RowOrder.kin_ofTerms hp h.orderBy)).bindEq fun order => ?_
  refine (SideBySide.ofExcept (Slice.kin_ofLimit h.limit)).bindEq fun slice => ?_
  refine SideBySide.get.bindEq fun names => ?_
  rw [hp.labels]
  exact .pure rfl

theorem kin_ofStatement {s t : Statement} (h : s.Kin R t) :
    ResultsAlike (Stop.Alike (CompileError.Kin R)) Eq (ofStatement s) (ofStatement t) := by
  have hend := beside_compile h {} {} rfl
  unfold ofStatement
  cases hs : (compile s).run {} <;> cases ht : (compile t).run {} <;> rw [hs, ht] at hend <;>
    first | exact hend.elim | exact hend.1

/-! ### Queries -/

/-- Places of two lists of tokens where the tokens with the same index start. -/
def SameIndex (ls ms : List Lexeme) (p q : Position) : Prop :=
  ∃ (i : Nat) (l m : Lexeme), ls[i]? = some l ∧ ms[i]? = some m ∧ p = l.start ∧ q = m.start

theorem kin_sameIndex {ls ms : List Lexeme} (h : ls.map Lexeme.token = ms.map Lexeme.token) :
    List.Forall₂ (Lexeme.Kin (SameIndex ls ms)) ls ms := by
  have hlength : ls.length = ms.length := by
    rw [← List.length_map (f := Lexeme.token), h, List.length_map]
  refine List.forall₂_iff_get.mpr ⟨hlength, fun i hi hi' => ⟨?_, i, ls[i], ms[i], ?_, ?_, rfl, rfl⟩⟩
  · have htoken : (ls.map Lexeme.token)[i]? = (ms.map Lexeme.token)[i]? := by rw [h]
    rw [List.getElem?_map, List.getElem?_map, List.getElem?_eq_getElem hi,
      List.getElem?_eq_getElem hi'] at htoken
    exact Option.some.inj htoken
  · exact List.getElem?_eq_getElem hi
  · exact List.getElem?_eq_getElem hi'

/-- Two texts with the same tokens have programs that are alike. -/
theorem kin_ofText {q₁ q₂ : String} {ls₁ ls₂ : List Lexeme} (h₁ : tokenize q₁ = .ok ls₁)
    (h₂ : tokenize q₂ = .ok ls₂) (h : ls₁.map Lexeme.token = ls₂.map Lexeme.token) :
    ResultsAlike (Stop.Alike (CompileError.Kin (SameIndex ls₁ ls₂))) Eq (ofText q₁)
      (ofText q₂) := by
  have hne : ls₁ ≠ [] := by
    obtain ⟨before, last, rfl, -⟩ := ends_of_tokenize h₁
    simp
  have hread := Parse.beside_onTokens Parse.beside_query (kin_sameIndex h) hne
  unfold ofText Statement.ofText Parse.onText
  rw [h₁, h₂]
  dsimp only
  cases hs : Parse.query.onTokens ls₁ <;> cases ht : Parse.query.onTokens ls₂ <;>
    rw [hs, ht] at hread
  · next e f =>
    refine .fault ⟨?_, hread.position⟩
    change CompileError.grammar f = .grammar ⟨e.fault, f.position⟩
    rw [hread.fault]
  · exact hread.elim
  · exact hread.elim
  · exact kin_ofStatement hread

/-- **A program depends on the tokens** of its query alone: two texts with the same tokens have the
same program, or both fail with errors that are the same but for their places, which are the starts
of the tokens with the same index, or both panic, at a marker that the counter does not fit. -/
theorem ofText_tokens {q₁ q₂ : String} {ls₁ ls₂ : List Lexeme} (h₁ : tokenize q₁ = .ok ls₁)
    (h₂ : tokenize q₂ = .ok ls₂) (h : ls₁.map Lexeme.token = ls₂.map Lexeme.token) :
    (∃ p, ofText q₁ = .ok p ∧ ofText q₂ = .ok p) ∨
      (∃ (e₁ e₂ : CompileError) (i : Nat) (l₁ l₂ : Lexeme), ofText q₁ = .error (.fault e₁) ∧
        ofText q₂ = .error (.fault e₂) ∧ ls₁[i]? = some l₁ ∧ ls₂[i]? = some l₂ ∧
        e₁.position = l₁.start ∧ e₂.position = l₂.start ∧ e₂ = e₁.relocate l₂.start ∧
        e₂.text = e₁.text) ∨
      (ofText q₁ = .error .panic ∧ ofText q₂ = .error .panic ∧
        ∃ st, Statement.ofText q₁ = .ok st ∧ ¬ CounterFits 0 (parametersOf st.exprs)) := by
  have halike := kin_ofText h₁ h₂ h
  cases hp : ofText q₁ with
  | ok p =>
    cases hq : ofText q₂ with
    | ok q =>
      rw [hp, hq] at halike
      exact .inl ⟨p, rfl, congrArg _ halike.symm⟩
    | error f => rw [hp, hq] at halike; exact halike.elim
  | error e =>
    cases hq : ofText q₂ with
    | ok q => rw [hp, hq] at halike; exact halike.elim
    | error f =>
      rw [hp, hq] at halike
      cases halike with
      | @fault e f h =>
        obtain ⟨hrelocated, i, l, m, hl, hm, hpl, hpm⟩ := h
        refine .inr (.inl ⟨e, f, i, l, m, rfl, rfl, hl, hm, hpl, hpm,
          by rw [← hpm]; exact hrelocated, ?_⟩)
        rw [hrelocated, CompileError.text_relocate]
      | panic => exact .inr (.inr ⟨rfl, rfl, ofText_panic hp⟩)

theorem ofText_tokens_limit :
    let q₁ := "SELECT * LIMIT b"
    let q₂ := "select*--\nlimit b"
    let ls₁ : List Lexeme := [⟨.keyword .SELECT, ⟨0, 1, 1⟩, 6⟩, ⟨.symbol .star, ⟨7, 1, 8⟩, 8⟩,
      ⟨.keyword .LIMIT, ⟨9, 1, 10⟩, 14⟩, ⟨.identifier "b", ⟨15, 1, 16⟩, 16⟩,
      ⟨.endOfInput, ⟨16, 1, 17⟩, 16⟩]
    let ls₂ : List Lexeme := [⟨.keyword .SELECT, ⟨0, 1, 1⟩, 6⟩, ⟨.symbol .star, ⟨6, 1, 7⟩, 7⟩,
      ⟨.keyword .LIMIT, ⟨10, 2, 1⟩, 15⟩, ⟨.identifier "b", ⟨16, 2, 7⟩, 17⟩,
      ⟨.endOfInput, ⟨17, 2, 8⟩, 17⟩]
    tokenize q₁ = .ok ls₁ ∧ tokenize q₂ = .ok ls₂ ∧
      ls₁.map Lexeme.token = ls₂.map Lexeme.token ∧
      ((∃ p, ofText q₁ = .ok p ∧ ofText q₂ = .ok p) ∨
        (∃ (e₁ e₂ : CompileError) (i : Nat) (l₁ l₂ : Lexeme), ofText q₁ = .error (.fault e₁) ∧
          ofText q₂ = .error (.fault e₂) ∧ ls₁[i]? = some l₁ ∧ ls₂[i]? = some l₂ ∧
          e₁.position = l₁.start ∧ e₂.position = l₂.start ∧ e₂ = e₁.relocate l₂.start ∧
          e₂.text = e₁.text) ∨
        (ofText q₁ = .error .panic ∧ ofText q₂ = .error .panic ∧
          ∃ st, Statement.ofText q₁ = .ok st ∧ ¬ CounterFits 0 (parametersOf st.exprs))) := by
  intro q₁ q₂ ls₁ ls₂
  have h₁ : tokenize q₁ = .ok ls₁ := by decide +kernel
  have h₂ : tokenize q₂ = .ok ls₂ := by decide +kernel
  have h : ls₁.map Lexeme.token = ls₂.map Lexeme.token := by decide +kernel
  exact ⟨h₁, h₂, h, ofText_tokens h₁ h₂ h⟩

end Program

end RecordQuery
