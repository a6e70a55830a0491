import Mathlib.Algebra.Group.Int.Defs
import RecordQuery.Plan.RowOrder
import RecordQuery.Plan.Slice
import RecordQuery.Proofs.Plan.Columns
import RecordQuery.Proofs.Query.Literals
import RecordQuery.Proofs.Query.Rows

/-! # The plan of a statement

The columns, the keys and the bounds that a statement is compiled with are those that its clauses
say: entries (`Projection.entries?_ofColumns`), the order of the rows (`RowOrder.ordered?_ofTerms`)
and the rows that a limit keeps (`Slice.limited?_ofLimit`). The last one adds an offset to a count,
which is exact up to the greatest integer of 64 bits. -/

namespace RecordQuery

/-! ### Columns -/

namespace Projection

/-- The keys of each row and the expressions behind them. -/
def entries? : Projection → Option (List (String × Expr))
  | all => none
  | columns cs => some (cs.map fun c => (c.label, c.expr))

theorem keyed?_column (e : Expr) (label : Option String) (text : String) (position : Position) :
    (ResultColumn.expr e label text position).keyed? =
      some ((column e label text).label, (column e label text).expr) := by
  cases e with
  | literal v => cases v <;> rfl
  | _ => rfl

theorem mapM_keyed? {rs : List ResultColumn} {cs : List Column} (h : columnsOf rs = .ok cs) :
    rs.mapM ResultColumn.keyed? = some (cs.map fun c => (c.label, c.expr)) := by
  replace h := columnsOf_eq_ok.mp h
  induction h with
  | nil => rfl
  | cons hc _ ih =>
    cases hc
    rw [List.mapM_cons, keyed?_column, ih]
    rfl

theorem entries?_ofColumns {st : Statement} {projection : Projection}
    (h : ofColumns st.columns = .ok projection) : st.entries? = projection.entries? := by
  unfold Statement.entries?
  cases of_ofColumns h with
  | all hstar =>
    obtain ⟨position, hstar⟩ := hstar
    rw [hstar]
    rfl
  | columns _ hcs => exact mapM_keyed? hcs

/-- Only a single star leaves the keys of rows open. -/
theorem labels_eq_none_iff {cols : List ResultColumn} {projection : Projection}
    (h : ofColumns cols = .ok projection) :
    projection.labels = none ↔ ∃ position, cols = [.star position] := by
  cases of_ofColumns h with
  | all hstar => exact ⟨fun _ => hstar, fun _ => rfl⟩
  | columns hstar => exact ⟨nofun, fun h => absurd h hstar⟩

theorem written_column {e : Expr} (h : e.Written) (label : Option String) (text : String) :
    (column e label text).expr.Written := by
  cases e with
  | literal v => cases v <;> exact h
  | _ => exact h

theorem written_columnsOf {rs : List ResultColumn} {cs : List Column} (h : columnsOf rs = .ok cs)
    (hw : ∀ r ∈ rs, r.Written) : ∀ c ∈ cs, c.expr.Written := by
  replace h := columnsOf_eq_ok.mp h
  induction h with
  | nil => nofun
  | @cons r _ _ _ hc _ ih =>
    obtain ⟨hr, hrs⟩ := List.forall_mem_cons.mp hw
    cases hc
    exact List.forall_mem_cons.mpr ⟨written_column hr _ _, ih hrs⟩

theorem written_ofColumns {rs : List ResultColumn} {cs : List Column}
    (h : ofColumns rs = .ok (.columns cs)) (hw : ∀ r ∈ rs, r.Written) :
    ∀ c ∈ cs, c.expr.Written := by
  cases of_ofColumns h with
  | columns _ hcs => exact written_columnsOf hcs hw

end Projection

/-! ### Order -/

namespace RowOrder

variable {p : Projection} {t : OrderingTerm} {k : String}

/-- The keys of each row. -/
def labels (p : Projection) : List String := (p.entries?.getD []).map Prod.fst

theorem labels_columns (cs : List Column) : labels (.columns cs) = cs.map Column.label := by
  simp [labels, Projection.entries?]

theorem key?_key (h : key p t = .ok k) : t.key? (labels p) = some k := by
  unfold key at h
  unfold OrderingTerm.key?
  split at h
  · next ref _ ht =>
    cases h
    rw [ht]
  · next ref cs ht =>
    split at h
    · cases h
      rw [ht]
    · cases h
  · cases h
  · next n cs ht =>
    split at h
    · next hpos =>
      split at h
      · next c hc =>
        cases h
        have hindex : (n.toInt - 1).toNat = n.toInt.toNat - 1 := by omega
        rw [ht, labels_columns]
        dsimp only
        rw [hindex, List.getElem?_map, hc]
        rfl
      · cases h
    · cases h
  · cases h

theorem keysOf_cons {terms : List OrderingTerm} {d : Direction} {ks : List String}
    (h : keysOf p d (t :: terms) = .ok ks) :
    ∃ k rest, key p t = .ok k ∧ keysOf p d terms = .ok rest ∧ ks = k :: rest := by
  rw [keysOf] at h
  split at h
  · obtain ⟨k, hk, h⟩ := ok_of_bind h
    obtain ⟨rest, hrest, h⟩ := ok_of_bind h
    cases h
    exact ⟨k, rest, hk, hrest, rfl⟩
  · cases h

theorem mapM_key? {terms : List OrderingTerm} {d : Direction} {ks : List String}
    (h : keysOf p d terms = .ok ks) : terms.mapM (OrderingTerm.key? (labels p)) = some ks := by
  induction terms generalizing ks with
  | nil =>
    cases h
    rfl
  | cons t terms ih =>
    obtain ⟨k, rest, hk, hrest, rfl⟩ := keysOf_cons h
    rw [List.mapM_cons, key?_key hk, ih hrest]
    rfl

/-- Rows in an order. -/
def rows? (ops : Operations) (o : RowOrder) (rows : List Json) : Option (List Json) :=
  (Statement.sorted? ops o.keys rows).map fun rows =>
    match o.direction with
    | .ascending => rows
    | .descending => rows.reverse

theorem keys_ne_nil {terms : List OrderingTerm} {order : Option RowOrder}
    (h : ofTerms p terms = .ok order) : ∀ o ∈ order, o.keys ≠ [] := by
  cases terms with
  | nil =>
    cases h
    exact nofun
  | cons t terms =>
    obtain ⟨ks, hks, rfl⟩ := ok_of_map h
    obtain ⟨k, rest, -, -, rfl⟩ := keysOf_cons hks
    rintro _ ⟨⟩
    exact List.cons_ne_nil _ _

/-- **The order of a statement** is that of its terms, of which there is one at least. -/
theorem ordered?_ofTerms {st : Statement} {order : Option RowOrder} (ops : Operations)
    (hp : st.entries? = p.entries?) (h : ofTerms p st.orderBy = .ok order) :
    (∀ rows, st.ordered? ops rows = order.elim (some rows) fun o => o.rows? ops rows) ∧
      ∀ o ∈ order, o.keys ≠ [] := by
  refine ⟨fun rows => ?_, keys_ne_nil h⟩
  unfold ofTerms at h
  unfold Statement.ordered?
  rcases hterms : st.orderBy with _ | ⟨t, terms⟩
  · rw [hterms] at h
    cases h
    rfl
  · rw [hterms] at h
    obtain ⟨ks, hks, rfl⟩ := ok_of_map h
    have hkeys : (t :: terms).mapM (OrderingTerm.key? ((st.entries?.getD []).map Prod.fst)) =
        some ks := by
      rw [hp]
      exact mapM_key? hks
    dsimp only
    rw [hkeys]
    change (Statement.sorted? ops ks rows).bind _ = (Statement.sorted? ops ks rows).map _
    rw [Option.map_eq_bind]
    rfl

end RowOrder

/-! ### Limits -/

theorem Expr.Written.integer?_lt {e : Expr} {i : Int} (hw : e.Written) (h : e.integer? = some i) :
    i < 2 ^ 63 := by
  fun_induction Expr.integer? e with
  | case1 n =>
    cases h
    exact n.toInt_lt
  | case2 n =>
    cases h
    have hn : 0 ≤ n.toInt := hw
    omega
  | case3 e ih => exact ih hw h
  | case4 => cases h

namespace LimitClause

/-- The operands of a limit. -/
def operands (l : LimitClause) : List Expr := l.count :: l.offset.toList

/-- The integers that a limit says. An offset that is not written is zero. -/
def Says (l : LimitClause) (count offset : Int) : Prop :=
  l.count.integer? = some count ∧ l.offset.elim (some 0) Expr.integer? = some offset

/-- The first operand of a limit that is not worth an integer of 64 bits is such and such. -/
def StopsAt (l : LimitClause) (P : Expr → Prop) : Prop :=
  ∃ before e after, l.operands = before ++ e :: after ∧
    (∀ x ∈ before, ∃ n : Int64, x.integer? = some n.toInt) ∧ P e

theorem StopsAt.imp {l : LimitClause} {P Q : Expr → Prop} (h : l.StopsAt P)
    (hPQ : ∀ e, P e → Q e) : l.StopsAt Q := by
  obtain ⟨before, e, after, hsplit, hbefore, he⟩ := h
  exact ⟨before, e, after, hsplit, hbefore, hPQ e he⟩

theorem StopsAt.exists_mem {l : LimitClause} {P : Expr → Prop} (h : l.StopsAt P) :
    ∃ e ∈ l.operands, P e := by
  obtain ⟨before, e, after, hsplit, -, he⟩ := h
  refine ⟨e, ?_, he⟩
  rw [hsplit]
  exact List.mem_append_right before List.mem_cons_self

end LimitClause

theorem Statement.Written.operands {st : Statement} (h : st.Written) :
    ∀ l ∈ st.limit, ∀ e ∈ l.operands, e.Written := fun l hl =>
  List.forall_mem_cons.mpr
    ⟨h.count l hl, fun e he => h.offset l hl e (Option.mem_toList.mp he)⟩

/-- The rows that are told of a limit, by the integers of its operands. -/
theorem Statement.limited?_eq {st : Statement} {l : LimitClause} (hl : st.limit = some l)
    {n m : Int} (h : l.Says n m) (rows : List Json) :
    st.limited? rows = some (if n < 0 then rows.drop m.toNat
      else (rows.drop m.toNat).take n.toNat) := by
  obtain ⟨hn, hm⟩ := h
  unfold limited?
  rw [hl]
  dsimp only
  rw [hn]
  rcases ho : l.offset with _ | e
  · rw [ho] at hm
    cases hm
    rfl
  · rw [ho] at hm
    dsimp only
    rw [show e.integer? = some m from hm]
    rfl

namespace Slice

variable {l : LimitClause} {e : Expr} {n : Int64}

theorem toInt_neg {n : Int64} (h : n ≠ Int64.minValue) : (-n).toInt = -n.toInt := by
  have hle := n.le_toInt
  have hlt := n.toInt_lt
  have hne : n.toInt ≠ -2 ^ 63 := fun heq => h (Int64.toInt_inj.mp heq)
  rw [Int64.toInt_neg]
  exact Int.bmod_eq_of_le (by omega) (by omega)

theorem toInt_max (m n : Int64) : (max m n).toInt = max m.toInt n.toInt := by
  change (if m ≤ n then n else m).toInt = _
  split
  · next hle =>
    rw [Int64.le_iff_toInt_le] at hle
    omega
  · next hle =>
    rw [Int64.le_iff_toInt_le] at hle
    omega

theorem toInt_addUpTo {m n : Int64} (hm : 0 ≤ m.toInt) (hn : 0 ≤ n.toInt) :
    (addUpTo m n).toInt = min (m.toInt + n.toInt) (2 ^ 63 - 1) := by
  unfold addUpTo
  rw [Int64.toInt_maxValue]
  split
  · next hle =>
    have hadd : (m + n).toInt = m.toInt + n.toInt := by
      rw [Int64.toInt_add]
      exact Int.bmod_eq_of_le (by omega) (by omega)
    omega
  · rw [Int64.toInt_maxValue]
    omega

/-- **What an operand is worth**, by how reading it ends: what it gives, the integer that is just
too great, or none at all. -/
theorem integer_spec (e : Expr) : match integer e with
    | .ok n => e.integer? = some n.toInt
    | .error .panic => e.integer? = some (2 ^ 63)
    | .error (.fault _) => e.integer? = none := by
  fun_induction integer e with
  | case1 n => rfl
  | case2 => rfl
  | case3 n hn => exact congrArg some (toInt_neg hn).symm
  | case4 e hliteral =>
    change Expr.integer? _ = none
    unfold Expr.integer?
    split
    · next h => cases h
    · next n h =>
      cases h
      exact (hliteral n rfl).elim
    · next h => cases h
    · rfl
  | case5 e ih => exact ih
  | case6 e hliteral hnegated _ hplus =>
    change Expr.integer? _ = none
    unfold Expr.integer?
    split
    · exact (hliteral _ rfl).elim
    · exact (hnegated _ rfl).elim
    · exact (hplus _ rfl).elim
    · rfl

theorem operand_spec (l : LimitClause) (e : Expr) : match operand l e with
    | .ok n => e.integer? = some n.toInt
    | .error .panic => e.integer? = some (2 ^ 63)
    | .error (.fault error) =>
      e.integer? = none ∧ ∃ what, error = .invalidLimit what l.position := by
  have hspec := integer_spec e
  unfold operand
  rcases hread : integer e with (what | _) | n
  · rw [hread] at hspec
    exact ⟨hspec, what, rfl⟩
  · rwa [hread] at hspec
  · rwa [hread] at hspec

theorem operand_ok (h : operand l e = .ok n) : e.integer? = some n.toInt := by
  have hspec := operand_spec l e
  rwa [h] at hspec

/-- An operand panics if it is worth the integer that is just too great, and is at fault if it is
worth none. -/
theorem operand_panic (h : operand l e = .error .panic) : e.integer? = some (2 ^ 63) := by
  have hspec := operand_spec l e
  rwa [h] at hspec

theorem operand_fault {error : CompileError} (h : operand l e = .error (.fault error)) :
    e.integer? = none ∧ ∃ what, error = .invalidLimit what l.position := by
  have hspec := operand_spec l e
  rwa [h] at hspec

/-- **How reading a limit ends**: with the slice of the integers that it says, or like its first
operand that is worth none of 64 bits. -/
theorem ofLimit_spec (l : LimitClause) : match ofLimit (some l) with
    | .ok stage => ∃ count offset : Int64, l.Says count.toInt offset.toInt ∧
      stage = ofCount count (max offset 0)
    | .error stop => l.StopsAt fun e => operand l e = .error stop := by
  unfold ofLimit
  dsimp only [bind, Except.bind]
  rcases hcount : operand l l.count with stop | count
  · exact ⟨[], l.count, l.offset.toList, rfl, nofun, hcount⟩
  · rcases hoffset : l.offset with _ | e
    · exact ⟨count, 0, ⟨operand_ok hcount, by rw [hoffset]; rfl⟩, rfl⟩
    · dsimp only
      rcases ho : operand l e with stop | offset
      · refine ⟨[l.count], e, [], by rw [LimitClause.operands, hoffset]; rfl, ?_, ho⟩
        exact List.forall_mem_singleton.mpr ⟨count, operand_ok hcount⟩
      · exact ⟨count, offset, ⟨operand_ok hcount, by rw [hoffset]; exact operand_ok ho⟩, rfl⟩

theorem ofLimit_ok {stage : Option Slice} (h : ofLimit (some l) = .ok stage) :
    ∃ count offset : Int64, l.Says count.toInt offset.toInt ∧
      stage = ofCount count (max offset 0) := by
  have hspec := ofLimit_spec l
  rwa [h] at hspec

theorem ofLimit_error {stop : Stop CompileError} (h : ofLimit (some l) = .error stop) :
    l.StopsAt fun e => operand l e = .error stop := by
  have hspec := ofLimit_spec l
  rwa [h] at hspec

/-- The rows at some places. -/
def rows (s : Slice) (rows : List Json) : List Json :=
  Json.sublist (s.first.map fun n => n.toInt.toNat) (s.stop.map fun n => n.toInt.toNat) rows

/-- Places that are not negative, of which one is given at least. -/
structure Bounded (s : Slice) : Prop where
  first : ∀ n ∈ s.first, 0 ≤ n.toInt
  stop : ∀ n ∈ s.stop, 0 ≤ n.toInt
  given : s.first.isNone = true → s.stop.isNone = false

variable {count offset : Int64}

theorem bounded_ofCount (ho : 0 ≤ offset.toInt) : ∀ s ∈ ofCount count offset, s.Bounded := by
  intro s hs
  unfold ofCount at hs
  split at hs
  · split at hs
    · cases hs
    · cases hs
      exact ⟨fun n hn => Option.some.inj hn ▸ ho, nofun, nofun⟩
  · next hc =>
    have hcount : 0 ≤ count.toInt := by
      rw [Int64.lt_iff_toInt_lt, Int64.toInt_zero] at hc
      omega
    split at hs
    · cases hs
      exact ⟨nofun, fun n hn => Option.some.inj hn ▸ hcount, fun _ => rfl⟩
    · cases hs
      refine ⟨fun n hn => Option.some.inj hn ▸ ho, fun n hn => ?_, nofun⟩
      cases hn
      have hadd := toInt_addUpTo ho hcount
      omega

/-- Rows from an offset on, of which a count is taken: all of them below the sum of both. -/
theorem rows_ofCount (ho : 0 ≤ offset.toInt) {rs : List Json} (hlen : rs.length < 2 ^ 63) :
    ((ofCount count offset).elim rs fun s => s.rows rs) =
      if count.toInt < 0 then rs.drop offset.toInt.toNat
      else (rs.drop offset.toInt.toNat).take count.toInt.toNat := by
  have hzero : offset = 0 → offset.toInt = 0 := by
    rintro rfl
    exact Int64.toInt_zero
  have hneg : count < 0 ↔ count.toInt < 0 := by
    rw [Int64.lt_iff_toInt_lt, Int64.toInt_zero]
  unfold ofCount
  by_cases hc : count.toInt < 0
  · rw [if_pos (hneg.mpr hc), if_pos hc]
    by_cases h0 : offset = 0
    · rw [if_pos h0, hzero h0]
      rfl
    · rw [if_neg h0]
      rfl
  · rw [if_neg (mt hneg.mp hc), if_neg hc]
    by_cases h0 : offset = 0
    · rw [if_pos h0, hzero h0]
      rfl
    · rw [if_neg h0]
      have hadd := toInt_addUpTo (n := count) ho (by omega)
      change (rs.take (addUpTo offset count).toInt.toNat).drop offset.toInt.toNat = _
      rw [List.drop_take, hadd]
      by_cases hsum : offset.toInt + count.toInt ≤ 2 ^ 63 - 1
      · congr
        omega
      · rw [List.take_of_length_le, List.take_of_length_le]
        · rw [List.length_drop]
          omega
        · rw [List.length_drop]
          omega

/-- A negative offset counts as zero. -/
theorem rows_ofCount_max (count offset : Int64) {rs : List Json} (hlen : rs.length < 2 ^ 63) :
    ((ofCount count (max offset 0)).elim rs fun s => s.rows rs) =
      if count.toInt < 0 then rs.drop offset.toInt.toNat
      else (rs.drop offset.toInt.toNat).take count.toInt.toNat := by
  have hmax : (max offset 0).toInt = max offset.toInt 0 := toInt_max offset 0
  have hdrop : (max offset 0).toInt.toNat = offset.toInt.toNat := by omega
  rw [rows_ofCount (by omega) hlen, hdrop]

theorem bounded_ofCount_max (count offset : Int64) :
    ∀ s ∈ ofCount count (max offset 0), s.Bounded := by
  have hmax : (max offset 0).toInt = max offset.toInt 0 := toInt_max offset 0
  exact bounded_ofCount (by omega)

/-- **The rows that a limit keeps** are those at the places of its slice. -/
theorem limited?_ofLimit {st : Statement} {slice : Option Slice}
    (h : ofLimit st.limit = .ok slice) : (∀ rs : List Json, rs.length < 2 ^ 63 →
      st.limited? rs = some (slice.elim rs fun s => s.rows rs)) ∧ ∀ s ∈ slice, s.Bounded := by
  rcases hlimit : st.limit with _ | l
  · rw [hlimit] at h
    cases h
    refine ⟨fun rs _ => ?_, nofun⟩
    rw [Statement.limited?, hlimit]
    rfl
  · rw [hlimit] at h
    obtain ⟨count, offset, hsays, rfl⟩ := ofLimit_ok h
    refine ⟨fun rs hlen => ?_, bounded_ofCount_max count offset⟩
    rw [rows_ofCount_max count offset hlen, Statement.limited?_eq hlimit hsays]

end Slice

end RecordQuery
