import RecordQuery.Number.Literal

/-! # The characters of numbers

However a number is written, its text consists of digits, points, signs and the letter `e`
(`Number.text_numeral`), so it never holds a quote. -/

namespace RecordQuery

/-- Whether a character can stand in the text of a number. -/
def isNumeralChar (c : Char) : Bool := c.isDigit || ['.', 'e', '+', '-'].contains c

/-- A run of characters that can stand in the text of a number. -/
def Numeral (cs : List Char) : Prop := ∀ c ∈ cs, isNumeralChar c = true

variable {cs ds : List Char} {c : Char} {n : Nat}

theorem numeral_nil : Numeral [] := fun _ h => absurd h List.not_mem_nil

theorem Numeral.cons (hc : isNumeralChar c = true) (h : Numeral cs) : Numeral (c :: cs) := by
  intro d hd
  obtain rfl | hd := List.mem_cons.mp hd
  · exact hc
  · exact h d hd

theorem Numeral.append (h : Numeral cs) (h' : Numeral ds) : Numeral (cs ++ ds) := by
  intro d hd
  obtain hd | hd := List.mem_append.mp hd
  · exact h d hd
  · exact h' d hd

theorem Numeral.take (h : Numeral cs) : Numeral (cs.take n) :=
  fun d hd => h d (List.mem_of_mem_take hd)

theorem Numeral.drop (h : Numeral cs) : Numeral (cs.drop n) :=
  fun d hd => h d (List.mem_of_mem_drop hd)

theorem numeral_replicate (hc : isNumeralChar c = true) : Numeral (List.replicate n c) := by
  intro d hd
  rw [List.eq_of_mem_replicate hd]
  exact hc

theorem numeral_toDigits : Numeral (Nat.toDigits 10 n) := by
  intro d hd
  have h := Nat.isDigit_of_mem_toDigits (by decide) (by decide) hd
  unfold isNumeralChar
  rw [h]
  rfl

theorem numeral_toString : Numeral (toString n).toList := by
  rw [Nat.toString_eq_ofList_toDigits, String.toList_ofList]
  exact numeral_toDigits

theorem numeral_integer (i : Int) : Numeral (toString i).toList := by
  cases i with
  | ofNat n => exact numeral_toString
  | negSucc n =>
    change Numeral ("-" ++ toString (n + 1)).toList
    rw [String.toList_append]
    exact .append (.cons rfl numeral_nil) numeral_toString

theorem numeral_decimal (d : Decimal) : Numeral d.text.toList := by
  unfold Decimal.text
  rw [String.toList_ofList]
  have hdigits : Numeral (List.replicate
      (d.scale + 1 - (Nat.toDigits 10 d.coefficient.natAbs).length) '0' ++
        Nat.toDigits 10 d.coefficient.natAbs) := .append (numeral_replicate rfl) numeral_toDigits
  split <;> split <;>
    first
    | exact .cons rfl hdigits
    | exact hdigits
    | exact .cons rfl (.append hdigits.take (.cons rfl hdigits.drop))
    | exact .append hdigits.take (.cons rfl hdigits.drop)

theorem numeral_significant : Numeral (FloatStyle.significant n) := by
  unfold FloatStyle.significant
  split
  · exact .cons rfl numeral_nil
  · intro d hd
    have hmem := List.mem_reverse.mp hd
    exact numeral_toDigits d (List.mem_reverse.mp ((List.dropWhile_sublist _).mem hmem))

theorem numeral_positional (p : Int) (h : Numeral ds) : Numeral (FloatStyle.positional ds p) := by
  unfold FloatStyle.positional
  dsimp only
  split
  · exact .append (.cons rfl (.cons rfl (numeral_replicate rfl))) h
  · split
    · exact .append (.append h (numeral_replicate rfl)) (.cons rfl (.cons rfl numeral_nil))
    · exact .append h.take (.cons rfl h.drop)

theorem numeral_scientific (plusSign : Bool) (p : Int) (h : Numeral ds) :
    Numeral (FloatStyle.scientific plusSign ds p) := by
  have hrest : Numeral (ds.drop 1) := h.drop
  unfold FloatStyle.scientific
  dsimp only
  refine .append (.append (.append h.take ?_) (.cons rfl ?_)) (numeral_integer p)
  · split
    · exact numeral_nil
    · exact .cons rfl hrest
  · split
    · exact .cons rfl numeral_nil
    · exact numeral_nil

theorem numeral_write (style : FloatStyle) (x : Binary64) : Numeral (style.write x).toList := by
  have hbody : ∀ p : Int, Numeral (if style.plainFrom ≤ p ∧ p < style.plainBelow
      then FloatStyle.positional (FloatStyle.significant (x.shortest style.halfUp).coefficient) p
      else FloatStyle.scientific style.plusSign
        (FloatStyle.significant (x.shortest style.halfUp).coefficient) p) := by
    intro p
    split
    · exact numeral_positional p numeral_significant
    · exact numeral_scientific _ p numeral_significant
  unfold FloatStyle.write
  dsimp only
  rw [String.toList_ofList]
  split
  · exact .cons rfl (hbody _)
  · exact hbody _

/-- **The text of a number** holds nothing but digits, points, signs and the letter `e`. -/
theorem Number.text_numeral (n : Number) : Numeral n.text.toList := by
  cases n with
  | integer n => exact numeral_integer _
  | real d => exact numeral_decimal d
  | float x => exact numeral_write _ x

end RecordQuery
