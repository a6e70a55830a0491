import RecordQuery.Proofs.Filter.Numeral
import RecordQuery.Proofs.Number.Written
import RecordQuery.Proofs.Text.Shown
import RecordQuery.Token.Label

/-! # Labels tell tokens

The label of a token is the name of its kind, which consists of letters, and what the token holds in
parentheses. It is told from the text that begins with it if a space follows or nothing
(`Token.splits_label`). This needs floating point numbers in canonical form. -/

namespace RecordQuery

/-! ### Names of kinds -/

namespace Keyword

theorem find_label (k : Keyword) : all.find? (fun j => j.label == k.label) = some k := by
  cases k <;> decide

theorem label_injective {j k : Keyword} (h : j.label = k.label) : j = k := by
  have hj := find_label j
  rw [h, find_label k] at hj
  exact (Option.some.inj hj).symm

theorem alpha_of_mem_label (k : Keyword) : ∀ c ∈ k.label.toList, c.isAlpha = true :=
  List.all_eq_true.mp (by cases k <;> decide)

end Keyword

namespace Token

/-- The kinds of the tokens that show something in parentheses. -/
inductive Kind where
  | integer | real | float | string | blob | parameter | identifier | quotedIdentifier | keyword
  deriving DecidableEq

namespace Kind

/-- The name of a kind. -/
def name : Kind → String
  | integer => "Integer"
  | real => "Real"
  | float => "Float"
  | string => "String"
  | blob => "Blob"
  | parameter => "Parameter"
  | identifier => "Identifier"
  | quotedIdentifier => "QuotedIdentifier"
  | keyword => "Keyword"

theorem find_name (k : Kind) : [integer, real, float, string, blob, parameter, identifier,
    quotedIdentifier, keyword].find? (fun j => j.name == k.name) = some k := by
  cases k <;> decide

theorem name_injective {j k : Kind} (h : j.name = k.name) : j = k := by
  have hj := find_name j
  rw [h, find_name k] at hj
  exact (Option.some.inj hj).symm

theorem alpha_of_mem_name (k : Kind) : ∀ c ∈ k.name.toList, c.isAlpha = true :=
  List.all_eq_true.mp (by cases k <;> decide)

end Kind

/-- The kind of a token, and what it shows in parentheses. -/
def content? : Token → Option (Kind × String)
  | number (.integer n) => some (.integer, toString n.toInt)
  | number (.real d) => some (.real, d.text)
  | number (.float x) => some (.float, Number.shownStyle.write x)
  | string s => some (.string, showText s)
  | blob s => some (.blob, showText s)
  | parameter p => some (.parameter, parameterLabel p)
  | identifier s => some (.identifier, showText s)
  | quotedIdentifier s => some (.quotedIdentifier, showText s)
  | keyword k => some (.keyword, k.label)
  | negated _ | symbol _ | endOfInput => none

theorem label_of_content {t : Token} {k : Kind} {c : String} (h : t.content? = some (k, c)) :
    t.label = tagged k.name c := by
  cases t with
  | number n => cases n <;> cases h <;> rfl
  | _ => cases h <;> rfl

theorem toList_tagged (kind content : String) :
    (tagged kind content).toList = kind.toList ++ ('(' :: (content.toList ++ [')'])) := by
  simp [tagged]

/-! ### Tokens that show nothing -/

/-- The tokens that show nothing in parentheses. -/
def bare : List Token :=
  [.concat, .star, .slash, .percent, .plus, .minus, .shiftLeft, .shiftRight, .ampersand, .pipe,
    .tilde, .less, .lessEqual, .greater, .greaterEqual, .equal, .doubleEqual, .notEqual,
    .lessGreater, .leftParen, .rightParen, .comma, .dot, .semicolon].map symbol ++
  [.null, .between, .membership, .like, .regexp].map negated ++ [endOfInput]

theorem mem_bare {t : Token} (h : t.content? = none) : t ∈ bare := by
  cases t with
  | number n => cases n <;> cases h
  | negated n => cases n <;> decide
  | symbol s => cases s <;> decide
  | endOfInput => decide
  | _ => cases h

theorem find_label : ∀ t ∈ bare, bare.find? (fun u => u.label == t.label) = some t := by
  decide

theorem alpha_of_mem_label : ∀ t ∈ bare, ∀ c ∈ t.label.toList, c.isAlpha = true := by
  have hall : ∀ t ∈ bare, t.label.toList.all Char.isAlpha = true := by decide
  exact fun t ht => List.all_eq_true.mp (hall t ht)

theorem label_injective {t u : Token} (ht : t.content? = none) (hu : u.content? = none)
    (h : t.label = u.label) : t = u := by
  have hfind := find_label t (mem_bare ht)
  rw [h, find_label u (mem_bare hu)] at hfind
  exact (Option.some.inj hfind).symm

/-! ### What is shown in parentheses -/

/-- A text in front of which parentheses are closed. -/
def Closes (r : List Char) : Prop := r.head? = some ')'

theorem closes_cons (r : List Char) : Closes (')' :: r) := rfl

theorem Closes.stops {r : List Char} {p : Char → Bool} (h : Closes r) (hp : p ')' = false) :
    Stops p r := by
  intro c hc
  obtain rfl : ')' = c := Option.some.inj (h.symm.trans hc)
  exact hp

theorem splits_numeral {α : Type} {P : α → Prop} {f : α → List Char} (hf : ∀ a, Numeral (f a))
    (hinj : ∀ a b, P a → P b → f a = f b → a = b) : Splits P Closes f := by
  intro a b r s ha hb hr hs h
  exact splits_of_run isNumeralChar (fun a _ => hf a) hinj ha hb (hr.stops rfl) (hs.stops rfl) h

theorem splits_integer :
    Splits (fun _ => True) Closes fun n : Int64 => (toString n.toInt).toList :=
  splits_numeral (fun _ => numeral_integer _) fun _ _ _ _ h =>
    Int64.toInt_inj.mp (toString_integer_injective h)

theorem splits_natural : Splits (fun _ => True) Closes fun n : Nat => (toString n).toList :=
  splits_numeral (fun _ => numeral_toString) fun _ _ _ _ h =>
    Int.ofNat.inj (toString_integer_injective h)

theorem splits_decimal : Splits (fun _ => True) Closes fun d : Decimal => d.text.toList :=
  splits_numeral numeral_decimal fun _ _ _ _ h =>
    Decimal.text_injective (String.toList_injective h)

theorem splits_float :
    Splits Binary64.Canonical Closes fun x => (Number.shownStyle.write x).toList :=
  splits_numeral (numeral_write _) fun _ _ hx hy h =>
    FloatStyle.write_injective _ hx hy (String.toList_injective h)

theorem splits_keyword : Splits (fun _ => True) Closes fun k : Keyword => k.label.toList := by
  intro j k r s hj hk hr hs h
  exact splits_of_run (P := fun _ => True) Char.isAlpha (fun k _ => Keyword.alpha_of_mem_label k)
    (fun _ _ _ _ h => Keyword.label_injective (String.toList_injective h)) hj hk (hr.stops rfl)
    (hs.stops rfl) h

theorem toList_next : (parameterLabel .next).toList =
    "Positional(".toList ++ ("None".toList ++ [')']) := by
  change (tagged "Positional" "None").toList = _
  rw [toList_tagged]
  rfl

theorem toList_numbered (n : UInt32) : (parameterLabel (.numbered n)).toList =
    "Positional(".toList ++ ("Some(".toList ++ ((toString n.toNat).toList ++ [')', ')'])) := by
  change (tagged "Positional" (tagged "Some" (toString n.toNat))).toList = _
  rw [toList_tagged, toList_tagged]
  simp

theorem toList_named (c : Char) (name : String) : (parameterLabel (.named c name)).toList =
    "Named \x7b prefix: ".toList ++
      (showChars '\'' [c] ++ (", name: ".toList ++ ((showText name).toList ++ " \x7d".toList))) := by
  change ("Named \x7b prefix: " ++ String.ofList (showChars '\'' [c]) ++ ", name: " ++
    showText name ++ " \x7d").toList = _
  rw [String.toList_append, String.toList_append, String.toList_append, String.toList_append,
    @String.toList_ofList (showChars '\'' [c]), List.append_assoc, List.append_assoc,
    List.append_assoc]

theorem splits_parameter :
    Splits (fun _ => True) Closes fun p : Parameter => (parameterLabel p).toList := by
  intro p q r s _ _ _ _ h
  change (parameterLabel p).toList ++ r = (parameterLabel q).toList ++ s at h
  cases p with
  | next =>
    cases q with
    | next => exact ⟨rfl, (List.append_right_inj _).mp h⟩
    | numbered =>
      rw [toList_next, toList_numbered] at h
      simp at h
    | named =>
      rw [toList_next, toList_named] at h
      simp at h
  | numbered m =>
    cases q with
    | numbered n =>
      rw [toList_numbered, toList_numbered] at h
      have hdigits : (toString m.toNat).toList ++ (')' :: ')' :: r) =
          (toString n.toNat).toList ++ (')' :: ')' :: s) := by
        simpa using h
      obtain ⟨hn, hrest⟩ := splits_natural trivial trivial (closes_cons _) (closes_cons _) hdigits
      obtain rfl : m = n := UInt32.toNat_inj.mp hn
      exact ⟨rfl, (List.cons.inj (List.cons.inj hrest).2).2⟩
    | next =>
      rw [toList_next, toList_numbered] at h
      simp at h
    | named =>
      rw [toList_numbered, toList_named] at h
      simp at h
  | named c name =>
    cases q with
    | named d name' =>
      rw [toList_named, toList_named] at h
      simp only [List.append_assoc] at h
      obtain ⟨hsigil, hrest⟩ := splits_showChars (.inr rfl) trivial trivial trivial trivial
        ((List.append_right_inj _).mp h)
      obtain ⟨rfl, hbehind⟩ := splits_showText trivial trivial trivial trivial
        ((List.append_right_inj _).mp hrest)
      obtain rfl : c = d := (List.cons.inj hsigil).1
      exact ⟨rfl, (List.append_right_inj _).mp hbehind⟩
    | next =>
      rw [toList_next, toList_named] at h
      simp at h
    | numbered =>
      rw [toList_numbered, toList_named] at h
      simp at h

/-! ### Labels -/

/-- A token in the form in which it is read: a floating point number has its canonical form. -/
def Canonical (t : Token) : Prop := ∀ x, t = number (.float x) → x.Canonical

/-- Tokens of one kind that show something in parentheses. -/
inductive SameKind : Token → Token → Prop
  | integer (m n : Int64) : SameKind (number (.integer m)) (number (.integer n))
  | real (d e : Decimal) : SameKind (number (.real d)) (number (.real e))
  | float (x y : Binary64) : SameKind (number (.float x)) (number (.float y))
  | string (a b : String) : SameKind (string a) (string b)
  | blob (a b : String) : SameKind (blob a) (blob b)
  | parameter (p q : Parameter) : SameKind (parameter p) (parameter q)
  | identifier (a b : String) : SameKind (identifier a) (identifier b)
  | quotedIdentifier (a b : String) : SameKind (quotedIdentifier a) (quotedIdentifier b)
  | keyword (j k : Keyword) : SameKind (keyword j) (keyword k)

variable {t u : Token} {k : Kind} {c d : String} {r s : List Char}

theorem sameKind (ht : t.content? = some (k, c)) (hu : u.content? = some (k, d)) :
    SameKind t u := by
  rcases t with (m | m | m) | m | m | m | m | m | m | m | m | _ <;> cases ht <;>
  rcases u with (n | n | n) | n | n | n | n | n | n | n | n | _ <;> cases hu <;>
  constructor

/-- What is shown in parentheses tells a token of a known kind. -/
theorem splits_content (ht : t.Canonical) (hu : u.Canonical) (hc : t.content? = some (k, c))
    (hd : u.content? = some (k, d)) (hr : Closes r) (hs : Closes s)
    (h : c.toList ++ r = d.toList ++ s) : t = u ∧ r = s := by
  cases sameKind hc hd with
  | integer m n =>
    cases hc
    cases hd
    obtain ⟨rfl, hrest⟩ := splits_integer trivial trivial hr hs h
    exact ⟨rfl, hrest⟩
  | real x y =>
    cases hc
    cases hd
    obtain ⟨rfl, hrest⟩ := splits_decimal trivial trivial hr hs h
    exact ⟨rfl, hrest⟩
  | float x y =>
    cases hc
    cases hd
    obtain ⟨rfl, hrest⟩ := splits_float (ht x rfl) (hu y rfl) hr hs h
    exact ⟨rfl, hrest⟩
  | string a b | blob a b | identifier a b | quotedIdentifier a b =>
    cases hc
    cases hd
    exact (splits_showText trivial trivial trivial trivial h).imp_left (congrArg _)
  | parameter p q =>
    cases hc
    cases hd
    exact (splits_parameter trivial trivial hr hs h).imp_left (congrArg _)
  | keyword i j =>
    cases hc
    cases hd
    exact (splits_keyword trivial trivial hr hs h).imp_left (congrArg _)

/-- The letters at the front of a label, and what is behind them. -/
theorem label_split (t : Token) : ∃ name rest : List Char, t.label.toList = name ++ rest ∧
    (∀ c ∈ name, c.isAlpha = true) ∧
    (t.content? = none ∧ rest = [] ∧ name = t.label.toList ∨
      ∃ k c, t.content? = some (k, c) ∧ name = k.name.toList ∧ rest = '(' :: (c.toList ++ [')'])) := by
  cases hc : t.content? with
  | none =>
    exact ⟨t.label.toList, [], (List.append_nil _).symm, alpha_of_mem_label t (mem_bare hc),
      .inl ⟨rfl, rfl, rfl⟩⟩
  | some kc =>
    obtain ⟨k, c⟩ := kc
    refine ⟨k.name.toList, _, ?_, k.alpha_of_mem_name, .inr ⟨k, c, rfl, rfl, rfl⟩⟩
    rw [label_of_content hc, toList_tagged]

/-- A text that begins with a space, if with anything. -/
def Spaced (r : List Char) : Prop := ∀ c ∈ r.head?, c = ' '

/-- **A label tells its token**, and is told from what is behind it. -/
theorem splits_label : Splits Canonical Spaced fun t => t.label.toList := by
  intro t u r s ht hu hr hs h
  obtain ⟨name, rest, ht', hname, htail⟩ := t.label_split
  obtain ⟨name', rest', hu', hname', htail'⟩ := u.label_split
  have hstop {t : Token} {name rest r : List Char} (hr : Spaced r)
      (h : t.content? = none ∧ rest = [] ∧ name = t.label.toList ∨
        ∃ k c, t.content? = some (k, c) ∧ name = k.name.toList ∧
          rest = '(' :: (c.toList ++ [')'])) : Stops Char.isAlpha (rest ++ r) := by
    intro c hc
    obtain ⟨-, rfl, -⟩ | ⟨k, d, -, -, rfl⟩ := h
    · rw [hr c hc]
      rfl
    · obtain rfl : '(' = c := Option.some.inj hc
      rfl
  change t.label.toList ++ r = u.label.toList ++ s at h
  rw [ht', hu', List.append_assoc, List.append_assoc] at h
  obtain ⟨rfl, hrest⟩ := splits_of_run (P := fun cs : List Char => ∀ c ∈ cs, c.isAlpha = true)
    Char.isAlpha (fun _ h => h) (fun _ _ _ _ h => h) hname hname' (hstop hr htail)
    (hstop hs htail') h
  obtain ⟨hnone, rfl, hname⟩ | ⟨k, c, hc, hname, rfl⟩ := htail
  · obtain ⟨hnone', rfl, hname'⟩ | ⟨k', c', hc', hname', rfl⟩ := htail'
    · exact ⟨label_injective hnone hnone' (String.toList_injective (hname.symm.trans hname')),
        hrest⟩
    · obtain rfl : r = _ := hrest
      exact absurd (hr '(' rfl) (by decide)
  · obtain ⟨hnone', rfl, hname'⟩ | ⟨k', c', hc', hname', rfl⟩ := htail'
    · obtain rfl : _ = s := hrest
      exact absurd (hs '(' rfl) (by decide)
    · obtain rfl : k = k' :=
        Kind.name_injective (String.toList_injective (hname.symm.trans hname'))
      have hcontent : c.toList ++ (')' :: r) = c'.toList ++ (')' :: s) := by
        simpa using hrest
      exact (splits_content ht hu hc hc' (closes_cons _) (closes_cons _) hcontent).imp_right
        fun h => (List.cons.inj h).2

theorem label_ne_empty (t : Token) : t.label ≠ "" := by
  cases hc : t.content? with
  | none => exact (by decide : ∀ t ∈ bare, t.label ≠ "") t (mem_bare hc)
  | some kc =>
    rw [label_of_content hc]
    intro h
    have hlist := congrArg String.toList h
    rw [toList_tagged] at hlist
    simp at hlist

end Token

end RecordQuery
