import RecordQuery.Proofs.Number.Digits
import RecordQuery.Text.Shown

/-! # Texts that can be split off

A way to write values splits off (`Splits`) if the value and what follows it are both told by the
whole text. Characters between quotes are written like that, whatever follows the closing quote
(`splits_showChars`), so a text that is shown never runs into the text behind it. -/

namespace RecordQuery

/-- The values that satisfy `P` can be told and split off from what is behind them, if that is of
the form `E`. -/
def Splits {α : Type} (P : α → Prop) (E : List Char → Prop) (f : α → List Char) : Prop :=
  ∀ ⦃a b : α⦄ ⦃r s : List Char⦄, P a → P b → E r → E s → f a ++ r = f b ++ s → a = b ∧ r = s

/-- A text in front of which characters with a property end. -/
def Stops (p : Char → Bool) (r : List Char) : Prop := ∀ c ∈ r.head?, p c = false

/-- A run of characters with a property ends in front of a character without it. -/
theorem splits_of_run {α : Type} {P : α → Prop} {f : α → List Char} (p : Char → Bool)
    (hp : ∀ a, P a → ∀ c ∈ f a, p c = true) (hf : ∀ a b, P a → P b → f a = f b → a = b) :
    Splits P (Stops p) f := by
  intro a b r s ha hb hr hs h
  have hfront := congrArg (List.takeWhile p) h
  have hrest := congrArg (List.dropWhile p) h
  rw [takeWhile_ends (hp a ha) hr, takeWhile_ends (hp b hb) hs] at hfront
  rw [dropWhile_ends (hp a ha) hr, dropWhile_ends (hp b hb) hs] at hrest
  exact ⟨hf a b ha hb hfront, hrest⟩

/-! ### Code points -/

theorem hexValue?_digitChar : ∀ n < 16, hexValue? (Nat.digitChar n) = some n := by decide

/-- The value of a run of hexadecimal digits. -/
def hexNatural (ds : List Char) : Nat := ds.foldl (fun n c => n * 16 + (hexValue? c).getD 0) 0

theorem hexNatural_toDigits (n : Nat) : hexNatural (Nat.toDigits 16 n) = n := by
  induction n using Nat.strongRecOn with
  | ind n ih =>
    rw [Nat.toDigits_eq_if (by decide)]
    split
    · next hn =>
      rw [hexNatural, List.foldl_cons, List.foldl_nil, hexValue?_digitChar n hn]
      simp
    · have hrest := ih (n / 16) (by omega)
      unfold hexNatural at hrest ⊢
      rw [List.foldl_append, hrest, List.foldl_cons, List.foldl_nil,
        hexValue?_digitChar _ (Nat.mod_lt n (by decide)), Option.getD_some]
      omega

theorem hex_of_mem_toDigits {n : Nat} {c : Char} (h : c ∈ Nat.toDigits 16 n) :
    (hexValue? c).isSome = true := by
  induction n using Nat.strongRecOn with
  | ind n ih =>
    rw [Nat.toDigits_eq_if (by decide)] at h
    split at h
    · next hn =>
      rw [List.mem_singleton.mp h, hexValue?_digitChar n hn]
      rfl
    · obtain h | h := List.mem_append.mp h
      · exact ih (n / 16) (by omega) h
      · rw [List.mem_singleton.mp h, hexValue?_digitChar _ (Nat.mod_lt n (by decide))]
        rfl

theorem splits_hexDigits : Splits (fun _ => True) (Stops fun c => (hexValue? c).isSome)
    (Nat.toDigits 16) :=
  splits_of_run _ (fun _ _ _ hc => hex_of_mem_toDigits hc) fun m n _ _ h => by
    rw [← hexNatural_toDigits m, h, hexNatural_toDigits]

/-! ### Characters between quotes -/

variable {quote c d : Char} {r s : List Char}

/-- The character that a letter behind a backslash stands for. -/
def unescape (k : Char) : Char :=
  if k = '0' then '\x00'
  else if k = 't' then '\t'
  else if k = 'r' then '\r'
  else if k = 'n' then '\n'
  else k

/-- The three forms in which a character is shown. -/
inductive ShownAs (quote c : Char) : List Char → Prop
  | plain (hc : c ≠ '\\') (hquote : c ≠ quote) : ShownAs quote c [c]
  | short {k : Char} (hk : k ≠ 'u') (hc : unescape k = c) : ShownAs quote c ['\\', k]
  | code : ShownAs quote c ('\\' :: 'u' :: '\x7b' :: (Nat.toDigits 16 c.toNat ++ ['\x7d']))

theorem shownAs (hq : quote = '"' ∨ quote = '\'') (c : Char) :
    ShownAs quote c (showChar quote c) := by
  unfold showChar
  refine iteInduction (fun hc => hc ▸ .short (by decide) rfl) fun _ => ?_
  refine iteInduction (fun hc => hc ▸ .short (by decide) rfl) fun _ => ?_
  refine iteInduction (fun hc => hc ▸ .short (by decide) rfl) fun _ => ?_
  refine iteInduction (fun hc => hc ▸ .short (by decide) rfl) fun _ => ?_
  refine iteInduction (fun hc => ?_) fun hc => ?_
  · have hself : c ≠ 'u' ∧ unescape c = c := by
      obtain rfl | rfl := hc
      · decide
      · obtain rfl | rfl := hq <;> decide
    exact .short hself.1 hself.2
  · obtain ⟨hbackslash, hquote⟩ := not_or.mp hc
    exact iteInduction (fun _ => .code) fun _ => .plain hbackslash hquote

/-- A shown character is told from the text that begins with it. -/
theorem ShownAs.split {cs ds : List Char} (hc : ShownAs quote c cs) (hd : ShownAs quote d ds)
    (h : cs ++ r = ds ++ s) : c = d ∧ r = s := by
  cases hc with
  | plain hc =>
    cases hd with
    | plain => exact List.cons.inj h
    | short | code => exact absurd (List.cons.inj h).1 hc
  | short hk hc =>
    cases hd with
    | plain hd => exact absurd (List.cons.inj h).1.symm hd
    | short _ hd =>
      obtain ⟨rfl, hrest⟩ := List.cons.inj (List.cons.inj h).2
      exact ⟨hc.symm.trans hd, hrest⟩
    | code => exact absurd (List.cons.inj (List.cons.inj h).2).1 hk
  | code =>
    cases hd with
    | plain hd => exact absurd (List.cons.inj h).1.symm hd
    | short hk => exact absurd (List.cons.inj (List.cons.inj h).2).1.symm hk
    | code =>
      simp only [List.cons_append, List.append_assoc, List.nil_append, List.cons.injEq,
        true_and] at h
      have hends (r : List Char) : Stops (fun c => (hexValue? c).isSome) ('\x7d' :: r) := by
        rintro c ⟨⟩
        rfl
      obtain ⟨hcode, hrest⟩ :=
        splits_hexDigits trivial trivial (hends r) (hends s) h
      exact ⟨Char.toNat_inj.mp hcode, (List.cons.inj hrest).2⟩

/-- A shown character does not begin with the quote. -/
theorem ShownAs.head_ne (hq : quote = '"' ∨ quote = '\'') {cs : List Char}
    (hc : ShownAs quote c cs) : ∃ k rest, cs = k :: rest ∧ k ≠ quote := by
  have hbackslash : '\\' ≠ quote := by obtain rfl | rfl := hq <;> decide
  cases hc with
  | plain _ hquote => exact ⟨c, [], rfl, hquote⟩
  | short => exact ⟨'\\', _, rfl, hbackslash⟩
  | code => exact ⟨'\\', _, rfl, hbackslash⟩

/-- **What is shown between quotes** is told from the text that begins with it. -/
theorem splits_showChars (hq : quote = '"' ∨ quote = '\'') :
    Splits (fun _ => True) (fun _ => True) (showChars quote) := by
  intro cs ds r s _ _ _ _ h
  have hbody : cs.flatMap (showChar quote) ++ (quote :: r) =
      ds.flatMap (showChar quote) ++ (quote :: s) := by
    simpa only [showChars, List.cons_append, List.append_assoc, List.nil_append, List.cons.injEq,
      true_and] using h
  clear h
  induction cs generalizing ds with
  | nil =>
    cases ds with
    | nil => exact ⟨rfl, (List.cons.inj hbody).2⟩
    | cons d ds =>
      obtain ⟨k, rest, hd, hk⟩ := (shownAs hq d).head_ne hq
      rw [List.flatMap_cons, hd] at hbody
      exact absurd (List.cons.inj hbody).1.symm hk
  | cons c cs ih =>
    cases ds with
    | nil =>
      obtain ⟨k, rest, hc, hk⟩ := (shownAs hq c).head_ne hq
      rw [List.flatMap_cons, hc] at hbody
      exact absurd (List.cons.inj hbody).1 hk
    | cons d ds =>
      rw [List.flatMap_cons, List.flatMap_cons, List.append_assoc, List.append_assoc] at hbody
      obtain ⟨rfl, hrest⟩ := (shownAs hq c).split (shownAs hq d) hbody
      obtain ⟨rfl, hbehind⟩ := ih hrest
      exact ⟨rfl, hbehind⟩

/-- A text between double quotes is told from the text that begins with it. -/
theorem splits_showText :
    Splits (fun _ => True) (fun _ => True) fun s : String => (showText s).toList := by
  intro a b r s _ _ _ _ h
  dsimp only at h
  rw [showText, showText, String.toList_ofList, String.toList_ofList] at h
  obtain ⟨hlist, hrest⟩ := splits_showChars (.inl rfl) trivial trivial trivial trivial h
  exact ⟨String.toList_injective hlist, hrest⟩

end RecordQuery
