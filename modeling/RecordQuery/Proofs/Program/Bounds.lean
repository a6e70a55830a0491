import RecordQuery.Proofs.Plan.Faults
import RecordQuery.Proofs.Program.Parts

/-! # The integers of a limit

The operands of a limit on a tree may be any literals, also integers that no text writes. An operand
that is worth an integer (`Expr.integer?`) is read as that integer, unless it is the one that 64
bits do not hold: 2^63, from a minus sign in front of the least literal. That one panics
(`Slice.operand_panic_iff`), and so does the limit if no operand in front of it is at fault.

So whatever the operands are, a limit that has a slice keeps the places that its integers say
(`exactPlaces`), and the other ones end at their first operand that is none of 64 bits
(`Slice.limit_exact_iff`). -/

namespace RecordQuery

namespace Slice

variable {l : LimitClause} {e : Expr} {n : Int64} {i : Int}

/-! ### Operands -/

theorem operand_ok_iff : operand l e = .ok n ↔ e.integer? = some n.toInt := by
  refine ⟨operand_ok, fun h => ?_⟩
  rcases hread : operand l e with (error | _) | m
  · rw [(operand_fault hread).1] at h
    cases h
  · rw [operand_panic hread] at h
    have hlt := n.toInt_lt
    have heq := Option.some.inj h
    omega
  · rw [operand_ok hread] at h
    rw [Int64.toInt_inj.mp (Option.some.inj h)]

theorem operand_panic_iff : operand l e = .error .panic ↔ e.integer? = some (2 ^ 63) := by
  refine ⟨operand_panic, fun h => ?_⟩
  rcases hread : operand l e with (error | _) | m
  · rw [(operand_fault hread).1] at h
    cases h
  · rfl
  · rw [operand_ok hread] at h
    have hlt := m.toInt_lt
    have heq := Option.some.inj h
    omega

theorem operand_fault_iff :
    (∃ what, operand l e = .error (.fault (.invalidLimit what l.position))) ↔
      e.integer? = none := by
  refine ⟨fun ⟨_, h⟩ => (operand_fault h).1, fun h => ?_⟩
  rcases hread : operand l e with (error | _) | m
  · obtain ⟨-, what, rfl⟩ := operand_fault hread
    exact ⟨what, rfl⟩
  · rw [operand_panic hread] at h
    cases h
  · rw [operand_ok hread] at h
    cases h

/-- What an operand is worth is held in 64 bits, or is just too great. -/
theorem integer?_cases (h : e.integer? = some i) : i = 2 ^ 63 ∨ ∃ n : Int64, n.toInt = i := by
  have hspec := integer_spec e
  rcases hread : integer e with (what | _) | n <;> rw [hread] at hspec <;> cases hspec.symm.trans h
  · exact .inl rfl
  · exact .inr ⟨n, rfl⟩

/-- **An operand that is worth an integer** is read as it, or panics where it is just too great. -/
theorem operand_of_integer? (l : LimitClause) (h : e.integer? = some i) :
    i ≤ 2 ^ 63 ∧ (operand l e = .error .panic ↔ i = 2 ^ 63) ∧
      ∀ n, operand l e = .ok n ↔ n.toInt = i := by
  refine ⟨?_, ?_, fun n => ?_⟩
  · obtain rfl | ⟨n, rfl⟩ := integer?_cases h
    · exact Int.le_refl _
    · exact Int.le_of_lt n.toInt_lt
  · rw [operand_panic_iff, h, Option.some_inj]
  · rw [operand_ok_iff, h, Option.some_inj, eq_comm]

/-! ### Places -/

/-- The place of the first row that a stage keeps, if it is not the first one of all, and the place
where it stops, if there is a bound. -/
def places : Option Slice → Option Int × Option Int
  | none => (none, none)
  | some s => (s.first.map Int64.toInt, s.stop.map Int64.toInt)

/-- **The places that a count and an offset say.** A negative offset is none, a negative count sets
no bound, and a bound stops at the greatest integer of 64 bits. -/
def exactPlaces (count offset : Int) : Option Int × Option Int :=
  (if offset ≤ 0 then none else some offset,
    if count < 0 then none else some (min (max offset 0 + count) (2 ^ 63 - 1)))

theorem places_ofCount (n m : Int64) :
    places (ofCount n (max m 0)) = exactPlaces n.toInt m.toInt := by
  have hmax : (max m 0).toInt = max m.toInt 0 := toInt_max m 0
  have hzero : max m 0 = 0 ↔ m.toInt ≤ 0 := by
    rw [← Int64.toInt_inj, hmax, Int64.toInt_zero]
    omega
  have hneg : n < 0 ↔ n.toInt < 0 := by
    rw [Int64.lt_iff_toInt_lt, Int64.toInt_zero]
  have hlt := n.toInt_lt
  unfold ofCount exactPlaces
  by_cases hm : m.toInt ≤ 0
  · by_cases hn : n.toInt < 0
    · rw [if_pos (hneg.mpr hn), if_pos (hzero.mpr hm), if_pos hm, if_pos hn]
      rfl
    · rw [if_neg (mt hneg.mp hn), if_pos (hzero.mpr hm), if_pos hm, if_neg hn,
        show min (max m.toInt 0 + n.toInt) (2 ^ 63 - 1) = n.toInt by omega]
      rfl
  · have hfirst : (max m 0).toInt = m.toInt := by omega
    by_cases hn : n.toInt < 0
    · rw [if_pos (hneg.mpr hn), if_neg (mt hzero.mp hm), if_neg hm, if_pos hn, ← hfirst]
      rfl
    · rw [if_neg (mt hneg.mp hn), if_neg (mt hzero.mp hm), if_neg hm, if_neg hn, ← hfirst]
      have hstop := toInt_addUpTo (m := max m 0) (n := n) (by omega) (by omega)
      rw [show max (max m 0).toInt 0 = (max m 0).toInt by omega, ← hstop]
      rfl

/-! ### Limits -/

theorem ofLimit_of_stopsAt {stop : Stop CompileError}
    (h : l.StopsAt fun e => operand l e = .error stop) : ofLimit (some l) = .error stop := by
  obtain ⟨before, e, after, hsplit, hbefore, hstop⟩ := h
  unfold LimitClause.operands at hsplit
  unfold ofLimit
  dsimp only [bind, Except.bind]
  rcases before with _ | ⟨x, before⟩
  · obtain ⟨rfl, -⟩ := List.cons.inj hsplit
    rw [hstop]
  · obtain ⟨rfl, hrest⟩ := List.cons.inj hsplit
    obtain ⟨n, hn⟩ := hbefore _ List.mem_cons_self
    rw [operand_ok_iff.mpr hn]
    -- The offset is the one operand behind the count.
    obtain ⟨rfl, hoffset⟩ : before = [] ∧ l.offset = some e := by
      generalize l.offset = o at hrest ⊢
      rcases o with _ | e' <;> rcases before with _ | ⟨y, _ | ⟨z, before⟩⟩ <;> cases hrest
      exact ⟨rfl, rfl⟩
    rw [hoffset]
    dsimp only
    rw [hstop]

/-- A limit with integers that 64 bits hold has a slice. -/
theorem ofLimit_of_says {count offset : Int64} (h : l.Says count.toInt offset.toInt) :
    ofLimit (some l) = .ok (ofCount count (max offset 0)) := by
  obtain ⟨hcount, hoffset⟩ := h
  unfold ofLimit
  dsimp only [bind, Except.bind]
  rw [operand_ok_iff.mpr hcount]
  rcases ho : l.offset with _ | e
  · rw [ho] at hoffset
    obtain rfl : 0 = offset := Int64.toInt_inj.mp (Option.some.inj hoffset)
    rfl
  · rw [ho] at hoffset
    dsimp only
    rw [operand_ok_iff.mpr hoffset]
    rfl

/-- The integers of a limit are held in 64 bits, unless they are too great. -/
theorem exists_of_says {count offset : Int} (h : l.Says count offset) (hcount : count < 2 ^ 63)
    (hoffset : offset < 2 ^ 63) : ∃ n m : Int64, n.toInt = count ∧ m.toInt = offset := by
  obtain ⟨hc, ho⟩ := h
  have hfits : ∀ {e : Expr} {i : Int}, e.integer? = some i → i < 2 ^ 63 →
      ∃ n : Int64, n.toInt = i := fun h hlt => (integer?_cases h).resolve_left (by omega)
  obtain ⟨n, hn⟩ := hfits hc hcount
  rcases hsome : l.offset with _ | e
  · rw [hsome] at ho
    exact ⟨n, 0, hn, Option.some.inj ho⟩
  · rw [hsome] at ho
    obtain ⟨m, hm⟩ := hfits ho hoffset
    exact ⟨n, m, hn, hm⟩

/-- **The arithmetic of a limit** on any tree. An operand that is worth an integer is read as it,
unless that is 2^63: there it panics. There is a slice exactly if the limit says integers that 64
bits hold, and it keeps the places that they say, also in the program of a statement that the limit
belongs to. Otherwise the first operand that is none of them decides: the limit panics if that is
2^63, and is at fault if it is no integer. -/
theorem limit_exact_iff (l : LimitClause) :
    (∀ e ∈ l.operands, ∀ i, e.integer? = some i →
      i ≤ 2 ^ 63 ∧ (operand l e = .error .panic ↔ i = 2 ^ 63) ∧
        ∀ n, operand l e = .ok n ↔ n.toInt = i) ∧
    (∀ count offset, l.Says count offset → ((∃ stage, ofLimit (some l) = .ok stage) ↔
      count < 2 ^ 63 ∧ offset < 2 ^ 63)) ∧
    (∀ stage, ofLimit (some l) = .ok stage → ∃ count offset, l.Says count offset ∧
      places stage = exactPlaces count offset ∧
        ∀ st p, st.limit = some l → Program.ofStatement st = .ok p → p.slice = stage) ∧
    (ofLimit (some l) = .error .panic ↔ l.StopsAt fun e => e.integer? = some (2 ^ 63)) ∧
    ((∃ what, ofLimit (some l) = .error (.fault (.invalidLimit what l.position))) ↔
      l.StopsAt fun e => e.integer? = none) := by
  refine ⟨fun e _ i => operand_of_integer? l, fun count offset hsays => ?_, fun stage hstage => ?_,
    ⟨fun h => ?_, fun h => ?_⟩, ⟨fun h => ?_, fun h => ?_⟩⟩
  · constructor
    · rintro ⟨stage, hstage⟩
      obtain ⟨n, m, hsays', -⟩ := ofLimit_ok hstage
      obtain rfl := Option.some.inj (hsays'.1.symm.trans hsays.1)
      obtain rfl := Option.some.inj (hsays'.2.symm.trans hsays.2)
      exact ⟨n.toInt_lt, m.toInt_lt⟩
    · rintro ⟨hcount, hoffset⟩
      obtain ⟨n, m, rfl, rfl⟩ := exists_of_says hsays hcount hoffset
      exact ⟨_, ofLimit_of_says hsays⟩
  · obtain ⟨count, offset, hsays, rfl⟩ := ofLimit_ok hstage
    refine ⟨count.toInt, offset.toInt, hsays, places_ofCount count offset, fun st p hst hp => ?_⟩
    obtain ⟨_, _, _, hparts⟩ := Program.compiledFrom_ofStatement hp
    have hslice := hparts.slice
    rw [hst, hstage] at hslice
    exact (Except.ok.inj hslice).symm
  · exact (ofLimit_error h).imp fun e => operand_panic
  · exact ofLimit_of_stopsAt (h.imp fun e => operand_panic_iff.mpr)
  · obtain ⟨what, h⟩ := h
    exact (ofLimit_error h).imp fun e he => (operand_fault he).1
  · obtain ⟨before, e, after, hsplit, hbefore, hnone⟩ := h
    obtain ⟨what, hwhat⟩ := operand_fault_iff.mpr hnone
    exact ⟨what, ofLimit_of_stopsAt ⟨before, e, after, hsplit, hbefore, hwhat⟩⟩

/-- The sum of two great integers is the greatest bound. -/
theorem limit_exact_greatest :
    let greatest : Expr := .literal (.number (.integer Int64.maxValue))
    let l : LimitClause := ⟨.unary .plus greatest, some greatest, ⟨0, 1, 1⟩⟩
    ∃ stage, ofLimit (some l) = .ok stage ∧
      places stage = (some (2 ^ 63 - 1), some (2 ^ 63 - 1)) := by
  intro greatest l
  have hsays : l.Says (2 ^ 63 - 1) (2 ^ 63 - 1) := ⟨by decide, by decide⟩
  obtain ⟨-, hiff, hplaces, -⟩ := limit_exact_iff l
  obtain ⟨stage, hstage⟩ := (hiff _ _ hsays).mpr (by decide)
  obtain ⟨count, offset, hsays', hexact, -⟩ := hplaces stage hstage
  obtain rfl : count = 2 ^ 63 - 1 := Option.some.inj (hsays'.1.symm.trans hsays.1)
  obtain rfl : offset = 2 ^ 63 - 1 := Option.some.inj (hsays'.2.symm.trans hsays.2)
  exact ⟨stage, hstage, hexact.trans (by decide)⟩

/-- A count of 2^63 panics, where the integers say a bound. -/
theorem limit_not_exact :
    let least : Expr := .literal (.number (.integer Int64.minValue))
    let one : Expr := .literal (.number (.integer 1))
    let l : LimitClause := ⟨.unary .negate least, some one, ⟨0, 1, 1⟩⟩
    l.Says (2 ^ 63) 1 ∧ ofLimit (some l) = .error .panic ∧
      exactPlaces (2 ^ 63) 1 = (some 1, some (2 ^ 63 - 1)) :=
  ⟨⟨by decide, by decide⟩, by rfl, by decide⟩

end Slice

end RecordQuery
