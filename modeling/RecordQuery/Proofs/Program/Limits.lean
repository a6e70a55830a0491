import RecordQuery.Proofs.Grammar.Limits
import RecordQuery.Proofs.Plan.Faults
import RecordQuery.Proofs.Program.Rows
import RecordQuery.Proofs.Program.Tokens

/-! # The rows that a limit keeps

A limit is settled by the tokens of its operands (`Slice.limit_keeps`). It is at fault exactly if
one of them is no integer, parentheses aside; otherwise its stage, as jq reads it, drops as many
rows as the offset says and keeps as many of the rest as the count says. Whether the offset is
written in front of the count or behind it makes no difference.

* `limited_of_text`: a text with a limit is cut into the tokens in front of the limit, its own and
  the end;
* `Limited.respelled`: with the limit in the other form, the same statement is read, up to places;
* `LimitClause.isInteger_iff`: the operands are integers exactly if their runs of tokens are;
* `Slice.leaves_rows`: what jq makes of rows by the text of a slice. -/

namespace RecordQuery

open Grammar

/-! ### Texts with a limit -/

/-- A text with a limit: the tokens in front of it, its own and those that end the text. Whatever
spells the limit may stand in its place. -/
structure Limited (q : String) (st : Statement) (l : LimitClause) (front : List Lexeme)
    (form : LimitForm) (tail : List Token) : Prop where
  tokens : ∃ ls, tokenize q = .ok ls ∧
    ls.map Lexeme.token = front.map Lexeme.token ++ (form.tokens ++ (tail ++ [.endOfInput]))
  ends : tail ∈ [[], [.symbol .semicolon]]
  writes : form.Writes l
  spells : ∀ ms, Spells .limit (some l) ms → Spells .statement st (front ++ ms)

variable {q : String} {st : Statement} {l : LimitClause} {front : List Lexeme} {form : LimitForm}
  {tail : List Token}

theorem limited_of_text (hst : Statement.ofText q = .ok st) (hl : st.limit = some l) :
    ∃ front form tail, Limited q st l front form tail := by
  obtain ⟨ls, tail, last, hls, hspells, htail, hlast⟩ := spells_ofText hst
  obtain ⟨front, ms, rfl, hms, hother⟩ := hspells.before_limit
  rw [hl] at hms hother
  obtain ⟨form, hform, hwrites⟩ := LimitForm.writes_of_spells hms
  refine ⟨front, form, tail.map Lexeme.token, ⟨_, hls, ?_⟩, htail, hwrites, hother⟩
  simp only [List.map_append, List.map_singleton, List.append_assoc, hform, hlast]

/-- Where the limit is written in another form, the same statement is read, up to places. -/
theorem Limited.respelled (h : Limited q st l front form tail) {form' : LimitForm}
    (hform : form'.Writes l) {q' : String} {ls' : List Lexeme} (hls : tokenize q' = .ok ls')
    (htokens : ls'.map Lexeme.token =
      front.map Lexeme.token ++ (form'.tokens ++ (tail ++ [.endOfInput]))) :
    ∃ (st' : Statement) (R : Position → Position → Prop), Statement.ofText q' = .ok st' ∧
      st.Kin R st' := by
  obtain ⟨ms, hms, hspells⟩ := hform.spells
  have hends : place tail = [] ∨
      ∃ semi : Lexeme, place tail = [semi] ∧ semi.token = .symbol .semicolon := by
    rcases List.mem_cons.mp h.ends with hnone | hsemicolon
    · exact .inl (by rw [hnone]; rfl)
    · exact .inr ⟨_, by rw [List.mem_singleton.mp hsemicolon]; rfl, rfl⟩
  have hread : Parse.query.onTokens (front ++ ms ++ place tail ++ [bare .endOfInput]) = .ok st :=
    onTokens_statement (h.spells ms hspells) hends rfl
  -- Only the tokens are given, so the statements can differ in their places.
  have hsame : (front ++ ms ++ place tail ++ [bare .endOfInput]).map Lexeme.token =
      ls'.map Lexeme.token := by
    simp only [htokens, List.map_append, List.map_singleton, List.append_assoc, hms, token_place]
    rfl
  have hne : front ++ ms ++ place tail ++ [bare .endOfInput] ≠ [] :=
    List.append_ne_nil_of_right_ne_nil _ (List.cons_ne_nil _ _)
  have halike := Parse.beside_onTokens Parse.beside_query (Program.kin_sameIndex hsame) hne
  rw [hread] at halike
  unfold Statement.ofText Parse.onText
  rw [hls]
  dsimp only
  rcases hst' : Parse.query.onTokens ls' with e | st'
  · rw [hst'] at halike
    exact halike.elim
  · rw [hst'] at halike
    exact ⟨st', _, rfl, halike⟩

/-! ### Operands -/

/-- All operands of a limit are integers exactly if all runs that they are written with are those of
integers, parentheses aside. -/
theorem LimitClause.isInteger_iff (h : form.Writes l) : (∀ e ∈ l.operands, e.IsInteger) ↔
    ∀ run ∈ form.runs, ∃ i, SignedInteger (unparenthesized run) i := by
  have hrun {e : Expr} {run : List Lexeme} (hspells : Spells (.expr .or) e run) :
      e.IsInteger ↔ ∃ i, SignedInteger (unparenthesized run) i :=
    e.isInteger_iff.trans (exists_congr fun i => (hspells.signedInteger i).symm)
  have hoffset := h.offset
  unfold LimitClause.operands LimitForm.runs
  generalize l.offset = o at hoffset ⊢
  generalize form.offsetRun? = run? at hoffset ⊢
  rw [List.forall_mem_cons, List.forall_mem_cons, hrun h.count]
  cases hoffset with
  | none => exact and_congr_right fun _ => iff_of_true nofun nofun
  | some hspells =>
    simp only [Option.toList_some, List.mem_singleton, forall_eq, hrun hspells]

namespace Slice

/-! ### Stages -/

/-- What a stage leaves of some rows: all of them where there is none, and otherwise what jq makes
of them by its text. -/
def Leaves (stage : Option Slice) (rows kept : List Json) : Prop :=
  match stage with
  | none => kept = rows
  | some s => ∀ (ops : Operations) (ρ : Jq.Values),
    Jq.run? ops ρ s.filter.text (.array rows) = some (.one (.array kept))

theorem leaves_rows {stage : Option Slice} (h : ∀ s ∈ stage, s.Bounded) (rows : List Json) :
    Leaves stage rows (stage.elim rows fun s => s.rows rows) := by
  rcases stage with _ | s
  · exact rfl
  · intro ops ρ
    have hs := h s rfl
    have hread := Filter.readAs_slice hs.first hs.stop hs.given
    have htext : Jq.read? s.filter.text = some _ := (hread.looser (by decide)).read?
    rw [Jq.run?, htext, Option.map_some, Jq.eval]
    rfl

theorem ofLimit_ok_iff (hpanic : ofLimit (some l) ≠ .error .panic) :
    (∃ stage, ofLimit (some l) = .ok stage) ↔ ∀ e ∈ l.operands, e.IsInteger := by
  constructor
  · rintro ⟨stage, h⟩
    exact isInteger_of_ok h l rfl
  · intro hall
    rcases hlimit : ofLimit (some l) with (error | _) | stage
    · obtain ⟨_, ⟨⟩, ⟨e, he, hnot⟩, -⟩ := ofLimit_fault hlimit
      exact absurd (hall e he) hnot
    · exact (hpanic hlimit).elim
    · exact ⟨stage, rfl⟩

/-- A limit that is no slice is at fault at its place. -/
theorem ofLimit_fault_iff (hpanic : ofLimit (some l) ≠ .error .panic) :
    (∃ what, ofLimit (some l) = .error (.fault (.invalidLimit what l.position))) ↔
      ¬ ∀ e ∈ l.operands, e.IsInteger := by
  rw [← ofLimit_ok_iff hpanic]
  rcases hlimit : ofLimit (some l) with (error | _) | stage
  · obtain ⟨_, ⟨⟩, -, what, rfl⟩ := ofLimit_fault hlimit
    exact iff_of_true ⟨what, rfl⟩ nofun
  · exact (hpanic hlimit).elim
  · exact iff_of_false nofun fun h => h ⟨stage, rfl⟩

theorem ofLimit_same {R : Position → Position → Prop} {st' : Statement} (h : st.Kin R st')
    (stage : Option Slice) : ofLimit st'.limit = .ok stage ↔ ofLimit st.limit = .ok stage := by
  have halike := kin_ofLimit h.limit
  rcases hst : ofLimit st.limit with e | s <;> rcases hst' : ofLimit st'.limit with e' | s' <;>
    rw [hst, hst'] at halike
  · exact iff_of_false nofun nofun
  · exact halike.elim
  · exact halike.elim
  · rw [show s = s' from halike]

/-- **A limit keeps exactly the rows it says.** It is at fault exactly if the run of an operand is
no integer, parentheses aside. Otherwise, of fewer than 2^63 rows, its stage drops as many as the
offset says, none if that is negative, and keeps as many of the rest as the count says, all if that
is negative. The other form with the same operands has the same stage. -/
theorem limit_keeps (hst : Statement.ofText q = .ok st) (hl : st.limit = some l) :
    ∃ front form tail, Limited q st l front form tail ∧
      ((∃ what, ofLimit st.limit = .error (.fault (.invalidLimit what l.position))) ↔
        ∃ run ∈ form.runs, ∀ i, ¬ SignedInteger (unparenthesized run) i) ∧
      (∀ n m, SignedInteger (unparenthesized form.countRun) n →
        (∀ run ∈ form.offsetRun?, SignedInteger (unparenthesized run) m) →
        (form.offsetRun? = none → m = 0) →
        ∃ stage, ofLimit st.limit = .ok stage ∧ ∀ rows : List Json, rows.length < 2 ^ 63 →
          Leaves stage rows (if n < 0 then rows.drop (max m 0).toNat
            else (rows.drop (max m 0).toNat).take n.toNat)) ∧
      ∀ (q' : String) (ls' : List Lexeme), tokenize q' = .ok ls' →
        ls'.map Lexeme.token =
          front.map Lexeme.token ++ (form.swapped.tokens ++ (tail ++ [.endOfInput])) →
        ∃ st', Statement.ofText q' = .ok st' ∧
          ∀ stage, ofLimit st'.limit = .ok stage ↔ ofLimit st.limit = .ok stage := by
  obtain ⟨front, form, tail, hlimited⟩ := limited_of_text hst hl
  have hintegers := LimitClause.isInteger_iff hlimited.writes
  have hpanic := ofLimit_ne_panic (Statement.ofText_written hst).operands
  rw [hl] at hpanic ⊢
  refine ⟨front, form, tail, hlimited, ?_, ?_, ?_⟩
  · rw [ofLimit_fault_iff hpanic, hintegers]
    simp only [not_forall, not_exists, exists_prop]
  · intro n m hn hm hzero
    have hcount : l.count.integer? = some n := (hlimited.writes.count.signedInteger n).mp hn
    have hoffset : l.offset.elim (some 0) Expr.integer? = some m := by
      have hwrites := hlimited.writes.offset
      generalize l.offset = o at hwrites ⊢
      generalize form.offsetRun? = run? at hwrites hm hzero
      cases hwrites with
      | none => rw [hzero rfl, Option.elim_none]
      | some hspells => exact (hspells.signedInteger m).mp (hm _ rfl)
    have hall : ∀ e ∈ l.operands, e.IsInteger := by
      refine hintegers.mpr (List.forall_mem_cons.mpr ⟨⟨n, hn⟩, fun run hrun => ⟨m, ?_⟩⟩)
      exact hm run (Option.mem_toList.mp hrun)
    obtain ⟨stage, hstage⟩ := (ofLimit_ok_iff hpanic).mpr hall
    rw [← hl] at hstage
    obtain ⟨hrows, hbounded⟩ := limited?_ofLimit hstage
    rw [hl] at hstage
    refine ⟨stage, hstage, fun rows hlength => ?_⟩
    have hkept := hrows rows hlength
    have hmax : (max m 0).toNat = m.toNat := by omega
    rw [Statement.limited?_eq hl ⟨hcount, hoffset⟩] at hkept
    rw [hmax, Option.some.inj hkept]
    exact leaves_rows hbounded rows
  · intro q' ls' hls' htokens
    obtain ⟨st', R, hst', hkin⟩ := hlimited.respelled hlimited.writes.swapped hls' htokens
    refine ⟨st', hst', fun stage => ?_⟩
    rw [ofLimit_same hkin, hl]

theorem limit_keeps_two : ∃ st l front form tail,
    Statement.ofText "SELECT * LIMIT 1, +(2)" = .ok st ∧ st.limit = some l ∧
      Limited "SELECT * LIMIT 1, +(2)" st l front form tail ∧
      (∃ stage : Slice, ofLimit st.limit = .ok (some stage) ∧ stage.filter.text = ".[1:3]") ∧
      ∀ run ∈ form.runs, ∃ i, SignedInteger (unparenthesized run) i := by
  obtain ⟨st, hst, hstage⟩ := ok_of_any (r := Statement.ofText "SELECT * LIMIT 1, +(2)")
    (p := fun st => st.limit.isSome && (ofLimit st.limit).toOption.any fun stage =>
      stage.any fun s => s.filter.text == ".[1:3]") (by decide +kernel)
  obtain ⟨hsome, hstage⟩ := Bool.and_eq_true_iff.mp hstage
  obtain ⟨l, hl⟩ := Option.isSome_iff_exists.mp hsome
  obtain ⟨stage, hok, htext⟩ := ok_of_any hstage
  obtain ⟨s, rfl, htext⟩ := (Option.any_eq_true _ _).mp htext
  obtain ⟨front, form, tail, hlimited, hfault, -⟩ := limit_keeps hst hl
  refine ⟨st, l, front, form, tail, hst, hl, hlimited, ⟨s, hok, beq_iff_eq.mp htext⟩, ?_⟩
  by_contra hnot
  simp only [not_forall, not_exists, exists_prop] at hnot
  obtain ⟨what, herror⟩ := hfault.mpr hnot
  rw [hok] at herror
  cases herror

end Slice

end RecordQuery
