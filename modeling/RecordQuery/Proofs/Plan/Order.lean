import Mathlib.Data.List.Forall2
import RecordQuery.Proofs.Plan.Clauses

/-! # The keys of ordering terms

What a term of `ORDER BY` names is decided by the projection alone: `Projection.Names` says which
terms name a key, `Projection.Refuses` which of them are refused and how, and every term is under
one of the two (`RowOrder.key_eq_ok`, `RowOrder.key_eq_error`). The terms are looked at from the
left, each one first for its direction and then for its key, so that the error of a list is the one
of its first term at fault (`RowOrder.keysOf_eq_error`). -/

namespace RecordQuery

/-- **The key that a term names**: any field of the records under `SELECT *`, a label of a column,
or the label of the column with a number, where columns of one label are counted apart. -/
inductive Projection.Names : Projection → OrderingTerm → String → Prop
  | field {t : OrderingTerm} {ref : ColumnRef} (ht : t.expr = .column ref) : Names .all t ref.column
  | label {t : OrderingTerm} {ref : ColumnRef} {cs : List Column} (ht : t.expr = .column ref)
      (hlabel : ∃ c ∈ cs, c.label = ref.column) : Names (.columns cs) t ref.column
  | number {t : OrderingTerm} {n : Int64} {cs front back : List Column} {c : Column}
      (ht : t.expr = .literal (.number (.integer n))) (hcs : cs = front ++ c :: back)
      (hn : n.toInt = front.length + 1) : Names (.columns cs) t c.label

/-- **The error of a term that names no key**: a name that is no label, a number that counts no
column, any number under `SELECT *`, and everything that is neither a name nor a number. -/
inductive Projection.Refuses : Projection → OrderingTerm → CompileError → Prop
  | unknown {t : OrderingTerm} {ref : ColumnRef} {cs : List Column} (ht : t.expr = .column ref)
      (hlabel : ∀ c ∈ cs, c.label ≠ ref.column) :
      Refuses (.columns cs) t (.unknownOrderTerm ref.column t.position)
  | outOfRange {t : OrderingTerm} {n : Int64} {cs : List Column}
      (ht : t.expr = .literal (.number (.integer n))) (hn : n.toInt < 1 ∨ cs.length < n.toInt) :
      Refuses (.columns cs) t (.orderIndexOutOfRange n cs.length t.position)
  | numberOfRecord {t : OrderingTerm} {n : Int64} (ht : t.expr = .literal (.number (.integer n))) :
      Refuses .all t (.unsupported (.orderPosition n) t.position)
  | other {p : Projection} {t : OrderingTerm} (hcolumn : ∀ ref, t.expr ≠ .column ref)
      (hnumber : ∀ n, t.expr ≠ .literal (.number (.integer n))) :
      Refuses p t (.unsupported .orderTerm t.position)

/-- The error of a term among terms of one direction. A term of the other direction is at fault for
that, whether or not it names a key. -/
inductive OrderingTerm.Fails (p : Projection) (d : Direction) (t : OrderingTerm) :
    CompileError → Prop
  | mixed (hd : t.sense ≠ d) : Fails p d t (.mixedDirections t.position)
  | refused {e : CompileError} (hd : t.sense = d) (he : p.Refuses t e) : Fails p d t e

namespace RowOrder

variable {p : Projection} {t : OrderingTerm} {terms : List OrderingTerm} {d : Direction}
  {k : String} {ks : List String} {e : CompileError}

/-! ### One term -/

theorem names_of_key (h : key p t = .ok k) : p.Names t k := by
  unfold key at h
  split at h
  · next ref ht =>
    cases h
    exact .field ht
  · next ref cs ht =>
    split at h
    · next hany =>
      cases h
      obtain ⟨c, hc, hlabel⟩ := List.any_eq_true.mp hany
      exact .label ht ⟨c, hc, eq_of_beq hlabel⟩
    · cases h
  · cases h
  · next n cs ht =>
    split at h
    · next hpos =>
      split at h
      · next c hc =>
        cases h
        obtain ⟨hlt, hget⟩ := List.getElem?_eq_some_iff.mp hc
        have hsplit : cs = cs.take (n.toInt.toNat - 1) ++ c :: cs.drop (n.toInt.toNat - 1 + 1) := by
          rw [← hget, List.getElem_cons_drop, List.take_append_drop]
        refine .number ht hsplit ?_
        rw [List.length_take]
        omega
      · cases h
    · cases h
  · cases h

theorem refuses_of_key (h : key p t = .error e) : p.Refuses t e := by
  unfold key at h
  split at h
  · cases h
  · next ref cs ht =>
    split at h
    · cases h
    · next hany =>
      cases h
      exact .unknown ht fun c hc hlabel =>
        hany (List.any_eq_true.mpr ⟨c, hc, beq_iff_eq.mpr hlabel⟩)
  · next n ht =>
    cases h
    exact .numberOfRecord ht
  · next n cs ht =>
    split at h
    · split at h
      · cases h
      · next hc =>
        cases h
        have hle := List.getElem?_eq_none_iff.mp hc
        exact .outOfRange ht (by omega)
    · cases h
      exact .outOfRange ht (by omega)
  · next q _ _ hcolAll hcol hintAll hint =>
    cases h
    cases q with
    | all => exact .other (fun ref ht => hcolAll ref ht rfl) fun n ht => hintAll n ht rfl
    | columns cs => exact .other (fun ref ht => hcol ref cs ht rfl) fun n ht => hint n cs ht rfl

/-- The two ways out of a term exclude one another. -/
theorem not_refuses_of_names (hk : p.Names t k) : ¬ p.Refuses t e := by
  intro he
  cases hk with
  | field ht =>
    cases he with
    | numberOfRecord hn => simp [ht] at hn
    | other hcolumn hnumber => exact hcolumn _ ht
  | label ht hlabel =>
    obtain ⟨c, hc, hlabel⟩ := hlabel
    cases he with
    | unknown hu hnone =>
      cases ht.symm.trans hu
      exact hnone c hc hlabel
    | outOfRange hn => simp [ht] at hn
    | other hcolumn hnumber => exact hcolumn _ ht
  | number ht hcs hn =>
    cases he with
    | unknown hu => simp [ht] at hu
    | outOfRange ho hout =>
      cases ht.symm.trans ho
      subst hcs
      rw [List.length_append, List.length_cons] at hout
      omega
    | other hcolumn hnumber => exact hnumber _ ht

/-- The columns in front of the one with a number tell that column. -/
theorem names_unique {k' : String} (h : p.Names t k) (h' : p.Names t k') : k = k' := by
  cases h with
  | field ht =>
    cases h' with
    | field ht' =>
      cases ht.symm.trans ht'
      rfl
  | label ht =>
    cases h' with
    | label ht' =>
      cases ht.symm.trans ht'
      rfl
    | number ht' => simp [ht] at ht'
  | number ht hcs hn =>
    cases h' with
    | label ht' => simp [ht] at ht'
    | number ht' hcs' hn' =>
      cases ht.symm.trans ht'
      obtain ⟨-, h⟩ := List.append_inj (hcs.symm.trans hcs') (by omega)
      cases h
      rfl

theorem key_eq_ok : key p t = .ok k ↔ p.Names t k := by
  refine ⟨names_of_key, fun h => ?_⟩
  cases hkey : key p t with
  | error e => exact absurd (refuses_of_key hkey) (not_refuses_of_names h)
  | ok k' => rw [names_unique (names_of_key hkey) h]

theorem refuses_unique {e' : CompileError} (h : p.Refuses t e) (h' : p.Refuses t e') : e = e' := by
  cases h <;> cases h' <;> simp_all

theorem key_eq_error : key p t = .error e ↔ p.Refuses t e := by
  refine ⟨refuses_of_key, fun h => ?_⟩
  cases hkey : key p t with
  | error e' => rw [refuses_unique (refuses_of_key hkey) h]
  | ok k => exact absurd h (not_refuses_of_names (names_of_key hkey))

/-! ### A list of terms -/

/-- What is done with the first term of a list. -/
theorem keysOf_of_names (hd : t.sense = d) (hk : p.Names t k) :
    keysOf p d (t :: terms) = (keysOf p d terms).map (k :: ·) := by
  rw [keysOf, if_pos hd, key_eq_ok.mpr hk]
  cases keysOf p d terms <;> rfl

theorem keysOf_of_fails (h : t.Fails p d e) : keysOf p d (t :: terms) = .error e := by
  cases h with
  | mixed hd => rw [keysOf, if_neg hd]
  | refused hd he =>
    rw [keysOf, if_pos hd, key_eq_error.mpr he]
    rfl

/-- Every term is one that gives a key, or one at fault. -/
theorem names_or_fails (p : Projection) (d : Direction) (t : OrderingTerm) :
    (∃ k, t.sense = d ∧ p.Names t k) ∨ ∃ e, t.Fails p d e := by
  by_cases hd : t.sense = d
  · cases hkey : key p t with
    | ok k => exact .inl ⟨k, hd, names_of_key hkey⟩
    | error e => exact .inr ⟨e, .refused hd (refuses_of_key hkey)⟩
  · exact .inr ⟨_, .mixed hd⟩

theorem keysOf_eq_ok : keysOf p d terms = .ok ks ↔
    List.Forall₂ (fun t k => t.sense = d ∧ p.Names t k) terms ks := by
  induction terms generalizing ks with
  | nil =>
    rw [keysOf, List.forall₂_nil_left_iff]
    exact ⟨fun h => by cases h; rfl, fun h => by rw [h]⟩
  | cons t terms ih =>
    rcases names_or_fails p d t with ⟨k, hd, hk⟩ | ⟨e, he⟩
    · rw [keysOf_of_names hd hk, List.forall₂_cons_left_iff]
      constructor
      · intro h
        obtain ⟨rest, hrest, rfl⟩ := ok_of_map h
        exact ⟨k, rest, ⟨hd, hk⟩, ih.mp hrest, rfl⟩
      · rintro ⟨k', rest, ⟨-, hk'⟩, hrest, rfl⟩
        rw [ih.mpr hrest, names_unique hk hk']
        rfl
    · rw [keysOf_of_fails he]
      constructor
      · intro h
        cases h
      · intro h
        obtain ⟨k, rest, ⟨hd, hk⟩, -⟩ := List.forall₂_cons_left_iff.mp h
        cases he with
        | mixed hne => exact absurd hd hne
        | refused _ he => exact absurd he (not_refuses_of_names hk)

theorem keysOf_eq_error : keysOf p d terms = .error e ↔
    ∃ before t after, terms = before ++ t :: after ∧
      (∀ u ∈ before, u.sense = d ∧ ∃ k, p.Names u k) ∧ t.Fails p d e := by
  constructor
  · intro h
    induction terms with
    | nil => cases h
    | cons t terms ih =>
      rcases names_or_fails p d t with ⟨k, hd, hk⟩ | ⟨e', he⟩
      · rw [keysOf_of_names hd hk] at h
        obtain ⟨before, u, after, rfl, hbefore, hu⟩ := ih (error_of_map h)
        exact ⟨t :: before, u, after, rfl, List.forall_mem_cons.mpr ⟨⟨hd, k, hk⟩, hbefore⟩, hu⟩
      · rw [keysOf_of_fails he] at h
        cases h
        exact ⟨[], t, terms, rfl, nofun, he⟩
  · rintro ⟨before, t, after, rfl, hbefore, ht⟩
    induction before with
    | nil => exact keysOf_of_fails ht
    | cons u before ih =>
      obtain ⟨⟨hd, k, hk⟩, hbefore⟩ := List.forall_mem_cons.mp hbefore
      rw [List.cons_append, keysOf_of_names hd hk, ih hbefore]
      rfl

/-- **What a list of terms gives.** No term gives no order. Where there are terms, all must have the
direction of the first one, and each must name a key: the keys are then those of the terms one for
one, and otherwise the error is that of the first term at fault, all terms in front of which are
none. -/
theorem ofTerms_spec (p : Projection) (first : OrderingTerm) (rest : List OrderingTerm) :
    ofTerms p [] = .ok none ∧
      (∀ o, ofTerms p (first :: rest) = .ok o ↔ ∃ ks, o = some ⟨ks, first.sense⟩ ∧
        List.Forall₂ (fun t k => t.sense = first.sense ∧ p.Names t k) (first :: rest) ks) ∧
      ∀ e, ofTerms p (first :: rest) = .error e ↔
        ∃ before t after, first :: rest = before ++ t :: after ∧
          (∀ u ∈ before, u.sense = first.sense ∧ ∃ k, p.Names u k) ∧ t.Fails p first.sense e := by
  have hof : ofTerms p (first :: rest) =
      (keysOf p first.sense (first :: rest)).map fun ks => some ⟨ks, first.sense⟩ := rfl
  refine ⟨rfl, fun o => ?_, fun e => ?_⟩
  · rw [hof]
    constructor
    · intro h
      obtain ⟨ks, hks, rfl⟩ := ok_of_map h
      exact ⟨ks, rfl, keysOf_eq_ok.mp hks⟩
    · rintro ⟨ks, rfl, hks⟩
      rw [keysOf_eq_ok.mpr hks]
      rfl
  · rw [hof, ← keysOf_eq_error]
    exact ⟨error_of_map, fun h => by rw [h]; rfl⟩

end RowOrder

end RecordQuery
