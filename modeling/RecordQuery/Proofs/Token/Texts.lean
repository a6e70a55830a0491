import RecordQuery.Proofs.Filter.Numeral
import RecordQuery.Proofs.Filter.Terms
import RecordQuery.Proofs.Text.Shown
import RecordQuery.Proofs.Token.Written

/-! # Texts tell tokens

The canonical text of a token tells the token, two numbers with one text aside (`Token.Same`). More
is true: it is told from the text that begins with it, if what follows is of a form that follows
the token in a caption (`Token.Ends`). The first character tells the sort of the token, and within a
sort the text goes on as long as its characters do (`Token.text_split`). -/

namespace RecordQuery

/-! ### Tokens up to the values of numbers -/

/-- The same token, or two numbers with one text. -/
inductive Token.Same : Token → Token → Prop
  | refl (t : Token) : Same t t
  | number {m n : Number} (h : m.text = n.text) : Same (.number m) (.number n)

namespace Token.Same

variable {t u : Token}

theorem symm (h : t.Same u) : u.Same t := by
  cases h with
  | refl => exact .refl _
  | number h => exact .number h.symm

/-- What is said of a token that is no number is said of the same one. -/
theorem keeps {P : Token → Prop} (h : t.Same u) (hP : ∀ n, ¬ P (.number n)) (ht : P t) : P u := by
  cases h with
  | refl => exact ht
  | number => exact absurd ht (hP _)

theorem name?_eq (h : t.Same u) : u.name? = t.name? := by
  cases h <;> rfl

theorem canSign_eq (h : t.Same u) : u.canSign = t.canSign := by
  cases h <;> rfl

theorem endsOperand_eq (h : t.Same u) : u.endsOperand = t.endsOperand := by
  cases h <;> rfl

end Token.Same

/-- A token that a query that compiles can hold in an expression. -/
structure Token.Plain (t : Token) : Prop where
  written : t.Written
  parameter : ∀ sigil name, t = .parameter (.named sigil name) → IsParameterName name
  inside : t ≠ .endOfInput

/-! ### What follows a token -/

/-- Whether a character can follow any token in a caption. -/
def isSeparator (c : Char) : Bool := [' ', '(', ')', ',', '.'].contains c

/-- Whether a character can go on a symbol. -/
def isTight (c : Char) : Bool := ['|', '<', '>', '=', '!'].contains c

/-- A token of one character, no other symbol begins with which. -/
def Token.Loose (t : Token) : Prop :=
  ∃ s c, t = .symbol s ∧ s.text.toList = [c] ∧ isTight c = false

/-- A text that can follow a token: anything behind a loose one, else one that a separator begins,
and a dot behind a name only. -/
def Token.Ends (t : Token) (r : List Char) : Prop :=
  t.Loose ∨ ∀ c ∈ r.head?, isSeparator c = true ∧ (c = '.' → t.name?.isSome = true)

variable {t u : Token} {r s : List Char} {c : Char}

theorem Token.Ends.stops (h : t.Ends r) (ht : ¬ t.Loose) {p : Char → Bool}
    (hp : ∀ c, isSeparator c = true → p c = false) : Stops p r :=
  fun c hc => hp c ((h.resolve_left ht) c hc).1

theorem not_loose (h : ∀ s, t ≠ .symbol s) : ¬ t.Loose :=
  fun ⟨s, _, hs, _⟩ => h s hs

/-- What holds of the separators. -/
theorem forall_separators {p : Char → Prop} [DecidablePred p]
    (h : ([' ', '(', ')', ',', '.'].all fun c => decide (p c)) = true) (c : Char)
    (hc : isSeparator c = true) : p c :=
  forall_of_all h c (List.contains_iff_mem.mp hc)

/-- Characters without a separator are told from what a separator begins. -/
theorem splits_solid {α : Type} {P : α → Prop} {f : α → String}
    (hf : ∀ a, P a → ∀ c ∈ (f a).toList, isSeparator c = false)
    (hinj : ∀ a b, P a → P b → f a = f b → a = b) :
    Splits P (Stops fun c => !isSeparator c) fun a => (f a).toList :=
  splits_of_run _ (fun a ha c hc => by rw [hf a ha c hc]; rfl)
    fun a b ha hb h => hinj a b ha hb (String.toList_injective h)

theorem Token.Ends.solid (h : t.Ends r) (ht : ∀ s, t ≠ .symbol s) :
    Stops (fun c => !isSeparator c) r :=
  h.stops (not_loose ht) fun c hc => by rw [hc]; rfl

/-! ### Texts between quotes -/

/-- **A text between quotes** is told from the text that begins with it, where no further quote
follows. -/
theorem splits_enclose (quote : Char) : Splits (fun _ => True) (Stops (· == quote))
    fun s : String => (Token.enclose quote s).toList := by
  intro a b r s _ _ hr hs h
  simp only [Token.enclose, String.toList_ofList, List.cons_append, List.append_assoc,
    List.nil_append, List.cons.injEq, true_and] at h
  have hnext : ∀ {r : List Char} {c : Char} {ds : List Char}, Stops (· == quote) r →
      quote :: r ≠ (if c = quote then [c, c] else [c]) ++ ds := by
    intro r c ds hr heq
    split_ifs at heq with hc
    · obtain ⟨-, rfl⟩ := List.cons.inj heq
      have := hr c rfl
      simp [hc] at this
    · exact hc (List.cons.inj heq).1.symm
  suffices hlists : ∀ cs ds : List Char,
      cs.flatMap (fun c => if c = quote then [c, c] else [c]) ++ quote :: r =
        ds.flatMap (fun c => if c = quote then [c, c] else [c]) ++ quote :: s → cs = ds ∧ r = s by
    obtain ⟨hlist, hrest⟩ := hlists _ _ h
    exact ⟨String.toList_injective hlist, hrest⟩
  clear h
  intro cs
  induction cs with
  | nil =>
    rintro (_ | ⟨d, ds⟩) h
    · exact ⟨rfl, (List.cons.inj h).2⟩
    · rw [List.flatMap_cons, List.append_assoc] at h
      exact absurd h (hnext hr)
  | cons c cs ih =>
    rintro (_ | ⟨d, ds⟩) h
    · rw [List.flatMap_cons, List.append_assoc] at h
      exact absurd h.symm (hnext hs)
    · rw [List.flatMap_cons, List.flatMap_cons, List.append_assoc, List.append_assoc] at h
      have hcd : c = d ∧ cs.flatMap (fun c => if c = quote then [c, c] else [c]) ++ quote :: r =
          ds.flatMap (fun c => if c = quote then [c, c] else [c]) ++ quote :: s := by
        split_ifs at h with hc hd hd
        · simpa using h
        · exact absurd ((List.cons.inj h).1.symm.trans hc) hd
        · exact absurd ((List.cons.inj h).1.trans hd) hc
        · simpa using h
      obtain ⟨rfl, hrest⟩ := hcd
      obtain ⟨rfl, hend⟩ := ih ds hrest
      exact ⟨rfl, hend⟩

/-! ### Reserved words and symbols -/

namespace Keyword

theorem find_text (k : Keyword) : all.find? (fun j => j.text == k.text) = some k := by
  cases k <;> decide

theorem text_injective {j k : Keyword} (h : j.text = k.text) : j = k := by
  have hj := find_text j
  rw [h, find_text k] at hj
  exact (Option.some.inj hj).symm

/-- A reserved word begins with a capital letter and has no separator. -/
theorem text_spec (k : Keyword) : (k.text.toList.head?.any Char.isUpper) = true ∧
    k.text.toList.all (fun c => !isSeparator c) = true := by
  cases k <;> decide

end Keyword

namespace Symbol

theorem find_text (s : Symbol) : [concat, star, slash, percent, plus, minus, shiftLeft, shiftRight,
    ampersand, pipe, tilde, less, lessEqual, greater, greaterEqual, equal, doubleEqual, notEqual,
    lessGreater, leftParen, rightParen, comma, dot, semicolon].find? (fun r => r.text == s.text) =
      some s := by
  cases s <;> decide

theorem text_injective {r s : Symbol} (h : r.text = s.text) : r = s := by
  have hr := find_text r
  rw [h, find_text s] at hr
  exact (Option.some.inj hr).symm

/-- A symbol is a character that goes on no other one, or it consists of those that do. -/
theorem text_cases (s : Symbol) : (∃ c, s.text.toList = [c] ∧ isTight c = false) ∨
    (s.text.toList ≠ [] ∧ ∀ c ∈ s.text.toList, isTight c = true) := by
  cases s <;> first
    | exact .inl ⟨_, rfl, rfl⟩
    | exact .inr ⟨by decide, forall_of_all (by decide)⟩

end Symbol

/-- **A symbol** is told from the text that begins with it. -/
theorem symbol_split {a b : Symbol} (hr : (Token.symbol a).Ends r) (hs : (Token.symbol b).Ends s)
    (h : a.text.toList ++ r = b.text.toList ++ s) : a = b ∧ r = s := by
  rcases a.text_cases with ⟨c, ha, hc⟩ | ⟨hane, ha⟩ <;>
    rcases b.text_cases with ⟨d, hb, hd⟩ | ⟨hbne, hb⟩
  · rw [ha, hb] at h
    obtain ⟨rfl, hrest⟩ := List.cons.inj h
    exact ⟨Symbol.text_injective (String.toList_injective (ha.trans hb.symm)), hrest⟩
  · obtain ⟨d, ds, hds⟩ := List.exists_cons_of_ne_nil hbne
    rw [ha, hds] at h
    have := hb d (hds ▸ List.mem_cons_self)
    rw [← (List.cons.inj h).1, hc] at this
    cases this
  · obtain ⟨c, cs, hcs⟩ := List.exists_cons_of_ne_nil hane
    rw [hb, hcs] at h
    have := ha c (hcs ▸ List.mem_cons_self)
    rw [(List.cons.inj h).1, hd] at this
    cases this
  · have htight : ∀ {a : Symbol}, (∀ c ∈ a.text.toList, isTight c = true) →
        ¬ (Token.symbol a).Loose := by
      rintro a ha ⟨_, c, ⟨⟩, htext, hc⟩
      have := ha c (htext ▸ List.mem_singleton_self c)
      rw [hc] at this
      cases this
    have hstops : ∀ c, isSeparator c = true → isTight c = false := forall_separators (by decide)
    exact splits_of_run (P := fun a : Symbol => ∀ c ∈ a.text.toList, isTight c = true) isTight
      (fun a ha => ha) (fun a b _ _ h => Symbol.text_injective (String.toList_injective h)) ha hb
      (hr.stops (htight ha) hstops) (hs.stops (htight hb) hstops) h

/-! ### Parameters, names and blobs -/

theorem not_isSeparator_of_isParameterName {name : String} (h : IsParameterName name) :
    ∀ c ∈ name.toList, isSeparator c = false := by
  intro c hc
  refine Bool.eq_false_iff.mpr fun hsep => ?_
  have hall : ∀ c, isSeparator c = true → ¬ (c.isAlphanum = true ∨ c = '_') :=
    forall_separators (by decide)
  exact hall c hsep (h.chars c hc)

theorem not_isSeparator_of_isPlainName {name : String} (h : IsPlainName name) :
    ∀ c ∈ name.toList, isSeparator c = false := by
  intro c hc
  refine Bool.eq_false_iff.mpr fun hsep => ?_
  have hall : ∀ c, isSeparator c = true → ¬ isPlainChar c = true := forall_separators (by decide)
  exact hall c hsep (h.chars c hc)

theorem not_isSeparator_of_isDigit {c : Char} (h : c.isDigit = true) : isSeparator c = false := by
  refine Bool.eq_false_iff.mpr fun hsep => ?_
  have hall : ∀ c, isSeparator c = true → ¬ c.isDigit = true := forall_separators (by decide)
  exact hall c hsep h

namespace Parameter

/-- The character in front of a parameter. -/
def mark : Parameter → Char
  | next | numbered _ => '?'
  | named sigil _ => sigil

/-- What stands behind that character. -/
def tail : Parameter → List Char
  | next => []
  | numbered n => Nat.toDigits 10 n.toNat
  | named _ name => name.toList

theorem toList_text (p : Parameter) : p.text.toList = p.mark :: p.tail := by
  cases p with
  | next => rfl
  | numbered n => rw [text, String.toList_append, toList_natural]; rfl
  | named sigil name => rw [text, String.toList_append]; simp [mark, tail]

/-- The mark of a named parameter is no question mark. -/
theorem mark_ne {sigil : Char} {name : String} (h : (Token.parameter (.named sigil name)).Plain) :
    '?' ≠ sigil := by
  rcases h.written with rfl | rfl | rfl <;> decide

theorem text_injective {p q : Parameter} (hp : (Token.parameter p).Plain)
    (hq : (Token.parameter q).Plain) (h : p.text = q.text) : p = q := by
  have hlist : p.mark :: p.tail = q.mark :: q.tail := by
    rw [← toList_text, ← toList_text, h]
  obtain ⟨hmark, htail⟩ := List.cons.inj hlist
  rcases p with _ | m | ⟨sigil, name⟩ <;> rcases q with _ | n | ⟨sigil', name'⟩
  · rfl
  · exact absurd htail.symm Nat.toDigits_ne_nil
  · exact absurd hmark (mark_ne hq)
  · exact absurd htail Nat.toDigits_ne_nil
  · have hn : m.toNat = n.toNat := by
      have := congrArg Decimal.natural htail
      simpa only [tail, Decimal.natural_toDigits] using this
    rw [UInt32.toNat_inj.mp hn]
  · exact absurd hmark (mark_ne hq)
  · exact absurd hmark.symm (mark_ne hp)
  · exact absurd hmark.symm (mark_ne hp)
  · obtain rfl : sigil = sigil' := hmark
    rw [String.toList_injective htail]

theorem not_isSeparator_text {p : Parameter} (hp : (Token.parameter p).Plain) :
    ∀ c ∈ p.text.toList, isSeparator c = false := by
  intro c hc
  rw [toList_text] at hc
  rcases p with _ | n | ⟨sigil, name⟩ <;> rcases List.mem_cons.mp hc with rfl | hc
  · rfl
  · cases hc
  · rfl
  · exact not_isSeparator_of_isDigit (Nat.isDigit_of_mem_toDigits (by decide) (by decide) hc)
  · rcases hp.written with rfl | rfl | rfl <;> rfl
  · exact not_isSeparator_of_isParameterName (hp.parameter _ _ rfl) c hc

end Parameter

/-! ### Blobs and bare names -/

theorem toList_blob (digits : String) :
    (Token.blob digits).text.toList = 'x' :: '\'' :: (digits.toList ++ ['\'']) := by
  rw [Token.text, String.toList_append, String.toList_append, List.append_assoc]
  rfl

/-- **A blob** is told from the text that begins with it. -/
theorem blob_split {a b : String} (ha : (Token.blob a).Written) (hb : (Token.blob b).Written)
    (h : (Token.blob a).text.toList ++ r = (Token.blob b).text.toList ++ s) : a = b ∧ r = s := by
  simp only [toList_blob, List.cons_append, List.append_assoc, List.nil_append, List.cons.injEq,
    true_and] at h
  have hquote (r : List Char) : Stops (fun c => (hexValue? c).isSome) ('\'' :: r) := by
    rintro c ⟨⟩
    rfl
  obtain ⟨rfl, hrest⟩ := splits_of_run
    (P := fun a : String => ∀ c ∈ a.toList, (hexValue? c).isSome = true)
    (fun c => (hexValue? c).isSome) (fun a ha => ha)
    (fun a b _ _ h => String.toList_injective h) ha hb (hquote r) (hquote s) h
  exact ⟨rfl, (List.cons.inj hrest).2⟩

/-- No text begins with both a bare name and a blob. -/
theorem name_ne_blob {name digits : String} (hname : IsPlainName name)
    (hr : Stops (fun c => !isSeparator c) r) :
    name.toList ++ r ≠ (Token.blob digits).text.toList ++ s := by
  intro h
  rw [toList_blob] at h
  -- The second character is a quote, which neither goes on a name nor follows one.
  rcases hlist : name.toList with _ | ⟨c, _ | ⟨d, ds⟩⟩ <;> rw [hlist] at h
  · exact hname.nonempty hlist
  · have hrest : r = '\'' :: (digits.toList ++ ['\'']) ++ s := (List.cons.inj h).2
    have hsep := hr '\'' (by rw [hrest]; rfl)
    cases hsep
  · have hd : d = '\'' := (List.cons.inj (List.cons.inj h).2).1
    have := hname.chars d (by rw [hlist]; simp)
    rw [hd] at this
    cases this

/-! ### Sorts -/

/-- What the first character of a token says of it. -/
inductive TextSort where
  | space | number | string | quoted | parameter | word | name | symbol
  deriving DecidableEq

/-- The sort of the tokens that begin with a character. -/
def headSort (c : Char) : TextSort :=
  if c = ' ' then .space
  else if c.isDigit then .number
  else if c = '\'' then .string
  else if c = '"' then .quoted
  else if c = '?' ∨ c = ':' ∨ c = '@' ∨ c = '$' then .parameter
  else if c.isUpper then .word
  else if isPlainChar c then .name
  else .symbol

namespace Token

/-- The sort of a token; a blob begins like a name. -/
def sort : Token → TextSort
  | .number _ => .number
  | .string _ => .string
  | .quotedIdentifier _ => .quoted
  | .parameter _ => .parameter
  | .keyword _ | .negated _ => .word
  | .blob _ | .identifier _ => .name
  | .symbol _ | .endOfInput => .symbol

theorem headSort_plain {c : Char} (hdigit : c.isDigit = false) (h : isPlainChar c = true) :
    headSort c = .name := by
  have hne : ∀ d ∈ [' ', '\'', '"', '?', ':', '@', '$'], c ≠ d := by
    rintro d hd rfl
    have hall : ∀ d ∈ [' ', '\'', '"', '?', ':', '@', '$'], isPlainChar d = false :=
      forall_of_all (by decide)
    rw [hall c hd] at h
    cases h
  have hupper : c.isUpper = false := by
    refine Bool.eq_false_iff.mpr fun hupper => ?_
    have hall : ∀ c ∈ capitals, isPlainChar c = false := forall_capitals (by decide)
    rw [hall c (mem_capitals_of_isUpper hupper)] at h
    cases h
  simp [headSort, hdigit, hupper, h, hne]

theorem headSort_digit {c : Char} (h : c.isDigit = true) : headSort c = .number := by
  have hne : c ≠ ' ' := by
    rintro rfl
    cases h
  simp [headSort, h, hne]

theorem headSort_upper {c : Char} (h : c.isUpper = true) : headSort c = .word := by
  have hall : ∀ c ∈ capitals, headSort c = .word := forall_capitals (by decide)
  exact hall c (mem_capitals_of_isUpper h)

theorem toList_negated (n : Negatable) :
    (negated n).text.toList = 'N' :: 'O' :: 'T' :: ' ' :: n.keyword.text.toList := by
  rw [text, String.toList_append]
  rfl

/-- **The first character of a token** tells its sort. -/
theorem head_text (ht : t.Plain) : ∃ c cs, t.text.toList = c :: cs ∧ headSort c = t.sort := by
  have hkeyword : ∀ k : Keyword, ∃ c cs, k.text.toList = c :: cs ∧ headSort c = .word := by
    intro k
    have hhead := k.text_spec.1
    cases hlist : k.text.toList with
    | nil => rw [hlist] at hhead; cases hhead
    | cons c cs =>
      rw [hlist] at hhead
      exact ⟨c, cs, rfl, headSort_upper hhead⟩
  cases t with
  | number n =>
    obtain ⟨l, hl, htext⟩ := Number.Unsigned.text ht.written
    obtain ⟨c, cs, hcs, hc⟩ := NumberLiteral.head_text hl
    exact ⟨c, cs, htext.trans hcs, headSort_digit hc⟩
  | string a | quotedIdentifier a => exact ⟨_, _, String.toList_ofList, rfl⟩
  | blob digits => exact ⟨_, _, toList_blob digits, rfl⟩
  | parameter p =>
    refine ⟨_, _, p.toList_text, ?_⟩
    rcases p with _ | n | ⟨sigil, name⟩
    · rfl
    · rfl
    · rcases ht.written with rfl | rfl | rfl <;> rfl
  | identifier name =>
    obtain ⟨c, cs, hlist⟩ := List.exists_cons_of_ne_nil (IsPlainName.nonempty ht.written)
    have hdigit := IsPlainName.start ht.written c (by rw [hlist]; rfl)
    have hplain := IsPlainName.chars ht.written c (by rw [hlist]; exact List.mem_cons_self)
    exact ⟨c, cs, hlist, headSort_plain hdigit hplain⟩
  | keyword k => exact hkeyword k
  | negated n =>
    exact ⟨'N', _, toList_negated n, rfl⟩
  | symbol s => cases s <;> exact ⟨_, _, rfl, by decide⟩
  | endOfInput => exact absurd rfl ht.inside

theorem headSort_of_text (ht : t.Plain) (h : t.text.toList ++ r = c :: s) :
    headSort c = t.sort := by
  obtain ⟨d, ds, hd, hsort⟩ := head_text ht
  rw [hd] at h
  rw [← (List.cons.inj h).1, hsort]

/-- No token begins with a space. -/
theorem text_ne_space (ht : t.Plain) : t.text.toList ++ r ≠ ' ' :: s := by
  intro h
  have hsort := headSort_of_text ht h
  cases t <;> cases hsort

theorem sort_eq (ht : t.Plain) (hu : u.Plain)
    (h : t.text.toList ++ r = u.text.toList ++ s) : t.sort = u.sort := by
  obtain ⟨c, cs, hc, hsort⟩ := head_text hu
  rw [hc] at h
  exact (headSort_of_text ht h).symm.trans hsort

/-- **The text of a token** that does not begin with `NOT` and what follows it are told by the whole
text. -/
theorem text_split (ht : t.Plain) (hu : u.Plain) (htn : ∀ n, t ≠ .negated n)
    (hun : ∀ n, u ≠ .negated n) (hr : t.Ends r) (hs : u.Ends s)
    (h : t.text.toList ++ r = u.text.toList ++ s) : t.Same u ∧ r = s := by
  have hsort := sort_eq ht hu h
  cases t <;> cases u <;> cases hsort
  case number.number m n =>
    have hstops : ∀ {n : Number} {r : List Char}, (Token.number n).Ends r →
        Stops isNumeralChar r := by
      intro n r hr c hc
      obtain ⟨hsep, hdot⟩ := hr.resolve_left (not_loose nofun) c hc
      have hall : ∀ c, isSeparator c = true → c ≠ '.' → isNumeralChar c = false :=
        forall_separators (by decide)
      exact hall c hsep fun hc => by cases hdot hc
    obtain ⟨htext, hrest⟩ := splits_of_run (P := fun a : String => Numeral a.toList) isNumeralChar
      (fun _ ha => ha) (fun _ _ _ _ h => String.toList_injective h) m.text_numeral n.text_numeral
      (hstops hr) (hstops hs) h
    exact ⟨.number htext, hrest⟩
  case string.string a b =>
    obtain ⟨rfl, hrest⟩ := splits_enclose '\'' trivial trivial
      (hr.stops (not_loose nofun) (forall_separators (by decide)))
      (hs.stops (not_loose nofun) (forall_separators (by decide))) h
    exact ⟨.refl _, hrest⟩
  case quotedIdentifier.quotedIdentifier a b =>
    obtain ⟨rfl, hrest⟩ := splits_enclose '"' trivial trivial
      (hr.stops (not_loose nofun) (forall_separators (by decide)))
      (hs.stops (not_loose nofun) (forall_separators (by decide))) h
    exact ⟨.refl _, hrest⟩
  case blob.blob a b =>
    obtain ⟨rfl, hrest⟩ := blob_split ht.written hu.written h
    exact ⟨.refl _, hrest⟩
  case blob.identifier a b => exact absurd h.symm (name_ne_blob hu.written (hs.solid nofun))
  case identifier.blob a b => exact absurd h (name_ne_blob ht.written (hr.solid nofun))
  case identifier.identifier a b =>
    obtain ⟨rfl, hrest⟩ := splits_solid (P := IsPlainName) (f := id)
      (fun _ ha => not_isSeparator_of_isPlainName ha) (fun _ _ _ _ h => h) ht.written hu.written
      (hr.solid nofun) (hs.solid nofun) h
    exact ⟨.refl _, hrest⟩
  case parameter.parameter p q =>
    obtain ⟨rfl, hrest⟩ := splits_solid (fun _ hp => Parameter.not_isSeparator_text hp)
      (fun _ _ hp hq h => Parameter.text_injective hp hq h) ht hu (hr.solid nofun)
      (hs.solid nofun) h
    exact ⟨.refl _, hrest⟩
  case keyword.keyword j k =>
    obtain ⟨rfl, hrest⟩ := splits_solid (P := fun _ : Keyword => True)
      (fun k _ c hc => by simpa using List.all_eq_true.mp k.text_spec.2 c hc)
      (fun _ _ _ _ h => Keyword.text_injective h) trivial trivial (hr.solid nofun)
      (hs.solid nofun) h
    exact ⟨.refl _, hrest⟩
  case symbol.symbol a b =>
    obtain ⟨rfl, hrest⟩ := symbol_split hr hs h
    exact ⟨.refl _, hrest⟩
  case keyword.negated n | negated.negated _ n => exact absurd rfl (hun n)
  case negated.keyword n _ => exact absurd rfl (htn n)
  case symbol.endOfInput | endOfInput.endOfInput => exact absurd rfl hu.inside
  case endOfInput.symbol => exact absurd rfl ht.inside

end Token

end RecordQuery
