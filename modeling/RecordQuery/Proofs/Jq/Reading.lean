import RecordQuery.Proofs.Jq.Lexing

/-! # Reading tokens back

Tokens that are read at a level as a program, whatever stands behind them, as long as that is looser
than some level (`Jq.ReadsTo`). One lemma for each way in which tokens are put together; `read?_of`
goes from the tokens of a rendered text to the program that is read from it. -/

namespace RecordQuery.Jq

/-! ### Levels and tokens -/

/-- How tight a level is. -/
def Level.tightness : Level → Nat
  | pipe => 1
  | comma => 2
  | or => 3
  | and => 4
  | comparison => 5
  | sum => 6
  | product => 7
  | operand => 8
  | term => 9

/-- The tightness of the level at which a token goes on with what stands in front of it; zero for
one that never does. -/
def Token.tightness : Token → Nat
  | .sign (.closing _) | .sign .semicolon | .sign .colon => 0
  | .sign .bar => 1
  | .sign .comma => 2
  | .word "or" => 3
  | .word "and" => 4
  | .sign .less | .sign .lessEqual | .sign .greater | .sign .greaterEqual | .sign .equal
  | .sign .notEqual => 5
  | .sign .plus | .sign .minus => 6
  | .sign .star | .sign .slash | .sign .percent => 7
  | .word "as" => 8
  | _ => 9

variable {l m stop : Level} {ts us rest : List Token} {t : Token} {f g : Jq} {n : Nat}

theorem tightness_tighter (h : l ≠ .term) : l.tighter.tightness = l.tightness + 1 := by
  cases l <;> first | rfl | exact absurd rfl h

theorem tightness_joiner? {join : Jq → Jq → Jq} (h : joiner? l t = some join) :
    t.tightness = l.tightness := by
  unfold joiner? at h
  split at h <;> first | rfl | cases h

/-- The end of the tokens, or a token that does not go on with what stands in front of it at a level
or a tighter one. -/
def Stops (l : Level) (rest : List Token) : Prop := ∀ t ∈ rest.head?, t.tightness < l.tightness

theorem Stops.tighter (h : Stops l rest) (hl : l.tightness ≤ m.tightness) : Stops m rest :=
  fun t ht => Nat.lt_of_lt_of_le (h t ht) hl

theorem Stops.joiner? (h : Stops l rest) (ht : t ∈ rest.head?) (hl : l.tightness ≤ m.tightness) :
    joiner? m t = none := by
  cases hj : Jq.joiner? m t with
  | none => rfl
  | some join =>
    have hlt := h t ht
    have heq := tightness_joiner? hj
    omega

theorem stops_cons (h : t.tightness < l.tightness) : Stops l (t :: rest) := by
  intro u hu
  cases hu
  exact h

/-- Tokens that are read as a program of a level, in front of what stops another level. -/
def ReadsTo (l stop : Level) (ts : List Token) (f : Jq) : Prop :=
  ∀ n rest, 9 * (ts ++ rest).length + 9 ≤ n + l.tightness → Stops stop rest →
    readWithin? n l (ts ++ rest) = some (f, rest)

/-- Tokens that are read as a program of a level. -/
abbrev Reads (l : Level) (ts : List Token) (f : Jq) : Prop := ReadsTo l l ts f

theorem ReadsTo.mono (h : ReadsTo l stop ts f) (hs : m.tightness ≤ stop.tightness) :
    ReadsTo l m ts f :=
  fun n rest hn hr => h n rest hn (hr.tighter hs)

/-! ### Looser levels -/

theorem level?_extend (sub : Level → Reader) (ts : List Token)
    (h : l = .comma ∨ l = .or ∨ l = .and ∨ l = .sum ∨ l = .product) :
    level? sub l ts = (sub l.tighter ts).bind fun p => extend (sub l.tighter) l p.2.length p.1 p.2 := by
  obtain rfl | rfl | rfl | rfl | rfl := h <;> rfl

theorem extend_stops {reader : Reader} {k : Nat} (h : Stops l rest) :
    extend reader l k f rest = some (f, rest) := by
  cases rest with
  | nil => cases k <;> rfl
  | cons t rest =>
    cases k with
    | zero => rfl
    | succ k =>
      rw [extend, h.joiner? (t := t) rfl (Nat.le_refl _)]

theorem compare?_stops {reader : Reader} (h : Stops .comparison rest) :
    compare? reader f rest = some (f, rest) := by
  cases rest with
  | nil => rfl
  | cons t rest => rw [compare?, h.joiner? (t := t) rfl (Nat.le_refl _)]

theorem term_minus : readWithin? n .term (.sign .minus :: ts) = none := by
  cases n <;> rfl

theorem operand?_term {sub : Level → Reader} (h : sub .term ts = some (f, rest))
    (hm : ∀ us, ts ≠ .sign .minus :: us) (hr : Stops .operand rest) :
    operand? sub ts = some (f, rest) := by
  unfold operand?
  split
  · next us => exact absurd rfl (hm us)
  · rw [h]
    simp only [Option.bind_eq_bind, Option.bind_some]
    split
    · exact absurd (hr _ rfl) (by decide)
    · rfl

/-- **A tighter program** is one of a looser level. -/
theorem ReadsTo.loosen (h : ReadsTo l.tighter stop ts f) (hl : l ≠ .term)
    (hs : stop.tightness ≤ l.tightness) : ReadsTo l stop ts f := by
  intro n rest hn hr
  have hstops : Stops l rest := hr.tighter hs
  have htight := tightness_tighter hl
  have hpos : l.tightness ≤ 8 := by cases l <;> first | decide | exact absurd rfl hl
  obtain ⟨n, rfl⟩ : ∃ k, n = k + 1 := ⟨n - 1, by omega⟩
  have hread := h n rest (by omega) hr
  rw [readWithin?]
  cases l with
  | pipe =>
    change (readWithin? n .comma (ts ++ rest)).bind _ = _
    rw [show readWithin? n .comma (ts ++ rest) = some (f, rest) from hread]
    cases rest with
    | nil => rfl
    | cons t rest =>
      have ht : t ≠ .sign .bar := by
        rintro rfl
        exact absurd (hstops _ rfl) (by decide)
      simp only [Option.bind_some]
      split
      · next heq =>
        cases heq
        exact absurd rfl ht
      · rfl
  | comparison =>
    change (readWithin? n .sum (ts ++ rest)).bind _ = _
    rw [show readWithin? n .sum (ts ++ rest) = some (f, rest) from hread]
    exact compare?_stops hstops
  | operand =>
    refine operand?_term hread (fun us hus => ?_) hstops
    rw [hus] at hread
    exact absurd (term_minus.symm.trans hread) nofun
  | term => exact absurd rfl hl
  | comma | or | and | sum | product =>
    rw [level?_extend _ _ (by simp), hread]
    exact extend_stops hstops

theorem ReadsTo.raise {k : Nat} (h : ReadsTo m stop ts f) (hm : m.tightness = l.tightness + k)
    (hs : stop.tightness ≤ l.tightness) : ReadsTo l stop ts f := by
  induction k generalizing l with
  | zero =>
    have hml : m = l := by
      revert hm
      cases m <;> cases l <;> decide
    rw [← hml]
    exact h
  | succ k ih =>
    have hl : l ≠ .term := by
      rintro rfl
      have hle : m.tightness ≤ 9 := by cases m <;> decide
      change m.tightness = 9 + (k + 1) at hm
      omega
    have htight := tightness_tighter hl
    exact (ih (by omega) (by omega)).loosen hl hs

/-- A program of a level is one of every looser level. -/
theorem ReadsTo.looser (h : Reads m ts f) (hl : l.tightness ≤ m.tightness) : Reads l ts f :=
  (h.mono hl).raise (k := m.tightness - l.tightness) (by omega) (Nat.le_refl _)

/-! ### Operators -/

/-- Two operands with an operator between them. -/
theorem ReadsTo.join {join : Jq → Jq → Jq} (h : Reads l.tighter ts f)
    (hj : joiner? l t = some join) (h' : Reads l.tighter us g) :
    Reads l (ts ++ t :: us) (join f g) := by
  have hlevel : l ≠ .term ∧ l ≠ .operand ∧ l ≠ .pipe := by
    refine ⟨?_, ?_, ?_⟩ <;> (rintro rfl; cases hj)
  have htight := tightness_tighter hlevel.1
  have htoken := tightness_joiner? hj
  intro n rest hn hr
  have hlen : (ts ++ t :: us ++ rest).length = ts.length + us.length + rest.length + 1 := by
    simp only [List.length_append, List.length_cons]
    omega
  rw [hlen] at hn
  have hpos : l.tightness ≤ 7 := by
    revert hlevel
    cases l <;> simp [Level.tightness]
  obtain ⟨n, rfl⟩ : ∃ k, n = k + 1 := ⟨n - 1, by omega⟩
  have hleft : readWithin? n l.tighter (ts ++ (t :: (us ++ rest))) = some (f, t :: (us ++ rest)) := by
    refine h n _ ?_ (stops_cons (by omega))
    simp only [List.length_append, List.length_cons]
    omega
  have hright : readWithin? n l.tighter (us ++ rest) = some (g, rest) := by
    refine h' n rest ?_ (hr.tighter (by omega))
    rw [List.length_append]
    omega
  rw [List.append_assoc, List.cons_append, readWithin?]
  cases l with
  | pipe | operand | term => simp at hlevel
  | comparison =>
    change (readWithin? n .sum (ts ++ (t :: (us ++ rest)))).bind _ = _
    rw [show readWithin? n .sum (ts ++ (t :: (us ++ rest))) = some (f, t :: (us ++ rest)) from hleft]
    change compare? (readWithin? n .sum) f (t :: (us ++ rest)) = _
    rw [compare?, hj]
    change (readWithin? n .sum (us ++ rest)).bind _ = _
    rw [show readWithin? n .sum (us ++ rest) = some (g, rest) from hright]
    cases rest with
    | nil => rfl
    | cons u rest =>
      have hu := hr.joiner? (t := u) rfl (Nat.le_refl _)
      simp [hu]
  | comma | or | and | sum | product =>
    rw [level?_extend _ _ (by simp), hleft]
    change extend _ _ (t :: (us ++ rest)).length f (t :: (us ++ rest)) = _
    rw [List.length_cons, extend, hj]
    dsimp only
    rw [hright]
    exact extend_stops hr

/-- A program piped into another one. -/
theorem ReadsTo.pipe (h : Reads .comma ts f) (h' : Reads .pipe us g) :
    Reads .pipe (ts ++ .sign .bar :: us) (.pipe f g) := by
  intro n rest hn hr
  have hlen : (ts ++ .sign .bar :: us ++ rest).length = ts.length + us.length + rest.length + 1 := by
    simp only [List.length_append, List.length_cons]
    omega
  rw [hlen] at hn
  change _ ≤ n + 1 at hn
  obtain ⟨n, rfl⟩ : ∃ k, n = k + 1 := ⟨n - 1, by omega⟩
  have hleft : readWithin? n .comma (ts ++ (.sign .bar :: (us ++ rest))) =
      some (f, .sign .bar :: (us ++ rest)) := by
    refine h n _ ?_ (stops_cons (by decide))
    simp only [List.length_append, List.length_cons, Level.tightness]
    omega
  have hright : readWithin? n .pipe (us ++ rest) = some (g, rest) := by
    refine h' n rest ?_ hr
    rw [List.length_append]
    change _ ≤ n + 1
    omega
  rw [List.append_assoc, List.cons_append, readWithin?]
  change (readWithin? n .comma _).bind _ = _
  rw [hleft]
  change (readWithin? n .pipe (us ++ rest)).map _ = _
  rw [hright]
  rfl

/-- A term bound to a variable, and what stands behind the bar. -/
theorem ReadsTo.bind {name : String} (h : Reads .term ts f) (h' : Reads .pipe us g) :
    ReadsTo .operand .pipe (ts ++ .word "as" :: .variable name :: .sign .bar :: us)
      (.bind f name g) := by
  intro n rest hn hr
  have hlen : (ts ++ .word "as" :: .variable name :: .sign .bar :: us ++ rest).length =
      ts.length + us.length + rest.length + 3 := by
    simp only [List.length_append, List.length_cons]
    omega
  rw [hlen] at hn
  change _ ≤ n + 8 at hn
  obtain ⟨n, rfl⟩ : ∃ k, n = k + 1 := ⟨n - 1, by omega⟩
  have hvalue : readWithin? n .term
      (ts ++ (.word "as" :: .variable name :: .sign .bar :: (us ++ rest))) =
      some (f, .word "as" :: .variable name :: .sign .bar :: (us ++ rest)) := by
    refine h n _ ?_ (stops_cons (by decide))
    simp only [List.length_append, List.length_cons, Level.tightness]
    omega
  have hbody : readWithin? n .pipe (us ++ rest) = some (g, rest) := by
    refine h' n rest ?_ hr
    rw [List.length_append]
    change _ ≤ n + 1
    omega
  have happend : ts ++ .word "as" :: .variable name :: .sign .bar :: us ++ rest =
      ts ++ (.word "as" :: .variable name :: .sign .bar :: (us ++ rest)) := by
    simp
  rw [happend, readWithin?]
  change operand? (readWithin? n) _ = _
  unfold operand?
  split
  · next vs heq =>
    rw [heq] at hvalue
    exact absurd (term_minus.symm.trans hvalue) nofun
  · rw [hvalue]
    change (readWithin? n .pipe (us ++ rest)).map _ = _
    rw [hbody]
    rfl

/-- A product behind a minus sign. -/
theorem ReadsTo.negate (h : Reads .product ts f) :
    ReadsTo .operand .product (.sign .minus :: ts) (.negate f) := by
  intro n rest hn hr
  rw [List.cons_append, List.length_cons] at hn
  change _ ≤ n + 8 at hn
  obtain ⟨n, rfl⟩ : ∃ k, n = k + 1 := ⟨n - 1, by omega⟩
  have hread : readWithin? n .product (ts ++ rest) = some (f, rest) := by
    refine h n rest ?_ hr
    change _ ≤ n + 7
    omega
  change (readWithin? n .product (ts ++ rest)).map _ = _
  rw [hread]
  rfl

/-! ### Terms -/

/-- What the reader of terms reads. -/
theorem ReadsTo.of_term (hts : ts ≠ [])
    (h : ∀ n rest, 9 * (ts ++ rest).length ≤ n + 1 → Stops .term rest →
      term? (readWithin? n) (ts ++ rest) = some (f, rest)) : Reads .term ts f := by
  intro n rest hn hr
  have hpos : 0 < (ts ++ rest).length := by
    have hlen := List.length_pos_iff.mpr hts
    rw [List.length_append]
    omega
  change _ ≤ n + 9 at hn
  obtain ⟨n, rfl⟩ : ∃ k, n = k + 1 := ⟨n - 1, by omega⟩
  exact h n rest (by omega) hr

/-- A token that is read by itself, whatever follows it. -/
theorem reads_leaf {t : Token} (h : ∀ sub rest, term? sub (t :: rest) = some (f, rest)) :
    Reads .term [t] f :=
  .of_term nofun fun _ rest _ _ => h _ rest

theorem reads_identity : Reads .term [.sign .dot] .identity := by
  refine .of_term nofun fun n rest _ hr => ?_
  have hne : ∀ us, rest ≠ .sign (.opening .square) :: us := by
    rintro us rfl
    exact absurd (hr _ rfl) (by decide)
  change term? (readWithin? n) (.sign .dot :: rest) = _
  rw [term?]
  intro us heq
  exact hne us heq

theorem reads_elements :
    Reads .term [.sign .dot, .sign (.opening .square), .sign (.closing .square)] .elements :=
  .of_term nofun fun _ _ _ _ => rfl

theorem reads_field (name : String) :
    Reads .term [.sign .dot, .sign (.opening .square), .string name, .sign (.closing .square)]
      (.field name) :=
  .of_term nofun fun _ _ _ _ => rfl

/-- The tokens of a bound of a slice. -/
def boundTokens : Option Nat → List Token
  | none => []
  | some n => [.number n]

theorem reads_slice {low high : Option Nat} (h : low.isNone = true → high.isNone = false) :
    Reads .term (.sign .dot :: .sign (.opening .square) :: (boundTokens low ++ .sign .colon ::
      (boundTokens high ++ [.sign (.closing .square)]))) (.slice low high) := by
  refine .of_term nofun fun n rest _ _ => ?_
  cases low with
  | none =>
    cases high with
    | none => exact absurd (h rfl) nofun
    | some b => rfl
  | some a => cases high <;> rfl

/-- A program in front of a closing mark. -/
theorem closed?_run {p : Punctuation} (h : Reads .pipe ts f) (hp : (Token.sign p).tightness = 0)
    (rest : List Token) (hn : 9 * (ts ++ [Token.sign p] ++ rest).length + 8 ≤ n) :
    closed? (readWithin? n .pipe) p (ts ++ [.sign p] ++ rest) = some (f, rest) := by
  rw [List.append_assoc] at hn ⊢
  have hread : readWithin? n .pipe (ts ++ ([.sign p] ++ rest)) = some (f, [.sign p] ++ rest) := by
    refine h n _ ?_ (stops_cons (by rw [hp]; decide))
    change _ ≤ n + 1
    omega
  unfold closed?
  rw [hread]
  change (pass? p (.sign p :: rest)).bind _ = _
  rw [pass?, if_pos rfl]
  rfl

theorem ReadsTo.group (h : Reads .pipe ts f) :
    Reads .term (.sign (.opening .round) :: (ts ++ [.sign (.closing .round)])) f := by
  refine .of_term nofun fun n rest hn _ => ?_
  rw [List.cons_append, List.length_cons] at hn
  exact closed?_run h rfl rest (by omega)

theorem ReadsTo.array (h : Reads .pipe ts f) :
    Reads .term (.sign (.opening .square) :: (ts ++ [.sign (.closing .square)])) (.array f) := by
  refine .of_term nofun fun n rest hn _ => ?_
  rw [List.cons_append] at hn ⊢
  rw [List.length_cons] at hn
  have hread := closed?_run h (p := .closing .square) rfl rest (n := n) (by omega)
  change (closed? (readWithin? n .pipe) (.closing .square) _).map _ = _
  rw [hread]
  rfl

/-- A call of one argument. -/
theorem ReadsTo.called {w : String} {make : Jq → Jq} (h : Reads .pipe ts f)
    (hw : ∀ reader us, call? reader w (.sign (.opening .round) :: us) =
      (closed? reader (.closing .round) us).map fun (f, us) => (make f, us)) :
    Reads .term (.word w :: .sign (.opening .round) :: (ts ++ [.sign (.closing .round)]))
      (make f) := by
  refine .of_term nofun fun n rest hn _ => ?_
  rw [List.cons_append, List.cons_append] at hn ⊢
  rw [List.length_cons, List.length_cons] at hn
  have hread := closed?_run h (p := .closing .round) rfl rest (n := n) (by omega)
  change call? (readWithin? n .pipe) w (.sign (.opening .round) :: _) = _
  rw [hw, hread]
  rfl

theorem ReadsTo.select (h : Reads .pipe ts f) :
    Reads .term (.word "select" :: .sign (.opening .round) :: (ts ++ [.sign (.closing .round)]))
      (.select f) := h.called fun _ _ => rfl

theorem ReadsTo.sortBy (h : Reads .pipe ts f) :
    Reads .term (.word "sort_by" :: .sign (.opening .round) :: (ts ++ [.sign (.closing .round)]))
      (.sortBy f) := h.called fun _ _ => rfl

theorem ReadsTo.any (h : Reads .pipe ts f) (h' : Reads .pipe us g) :
    Reads .term (.word "any" :: .sign (.opening .round) :: (ts ++ .sign .semicolon ::
      (us ++ [.sign (.closing .round)]))) (.any f g) := by
  refine .of_term nofun fun n rest hn _ => ?_
  have happend : (.word "any" :: .sign (.opening .round) :: (ts ++ .sign .semicolon ::
      (us ++ [.sign (.closing .round)]))) ++ rest = .word "any" :: .sign (.opening .round) ::
        (ts ++ [.sign .semicolon] ++ (us ++ [.sign (.closing .round)] ++ rest)) := by simp
  rw [happend] at hn ⊢
  rw [List.length_cons, List.length_cons] at hn
  have hfirst := closed?_run h (p := .semicolon) rfl (us ++ [.sign (.closing .round)] ++ rest)
    (n := n) (by omega)
  have hsecond := closed?_run h' (p := .closing .round) rfl rest (n := n) (by
    rw [List.length_append] at hn
    omega)
  change (closed? (readWithin? n .pipe) .semicolon _).bind _ = _
  rw [hfirst]
  change (closed? (readWithin? n .pipe) (.closing .round) _).bind _ = _
  rw [hsecond]
  rfl

/-! ### Lists -/

/-- Tokens that are read as a program each, one after another. -/
inductive ReadsAll (l : Level) : List (List Token) → List Jq → Prop
  | nil : ReadsAll l [] []
  | cons {ts : List Token} {f : Jq} {tss : List (List Token)} {fs : List Jq} (h : Reads l ts f)
      (hs : ReadsAll l tss fs) : ReadsAll l (ts :: tss) (f :: fs)

/-- Runs of tokens, each behind a mark. -/
def behind (t : Token) (tss : List (List Token)) : List Token := tss.flatMap fun ts => t :: ts

theorem extend_commas {tss : List (List Token)} {fs : List Jq} (h : ReadsAll .or tss fs) {k : Nat}
    (hk : (behind (.sign .comma) tss ++ rest).length ≤ k)
    (hn : 9 * (behind (.sign .comma) tss ++ rest).length + 6 ≤ n)
    (hr : Stops .comma rest) :
    extend (readWithin? n .or) .comma k f (behind (.sign .comma) tss ++ rest) =
      some (fs.foldl .comma f, rest) := by
  induction h generalizing f k with
  | nil => exact extend_stops hr
  | @cons ts g tss fs h hs ih =>
    have hcons : behind (.sign .comma) (ts :: tss) ++ rest =
        .sign .comma :: (ts ++ (behind (.sign .comma) tss ++ rest)) := by
      simp [behind]
    rw [hcons] at hk hn ⊢
    rw [List.length_cons, List.length_append] at hk hn
    obtain ⟨k, rfl⟩ : ∃ j, k = j + 1 := ⟨k - 1, by omega⟩
    have hstops : Stops .or (behind (.sign .comma) tss ++ rest) := by
      cases hs with
      | nil => exact hr.tighter (by decide)
      | cons => exact stops_cons (by decide)
    have hread : readWithin? n .or (ts ++ (behind (.sign .comma) tss ++ rest)) =
        some (g, behind (.sign .comma) tss ++ rest) := by
      refine h n _ ?_ hstops
      rw [List.length_append]
      change _ ≤ n + 3
      omega
    change (readWithin? n .or _).bind _ = _
    rw [hread]
    exact ih (by omega) (by omega)

/-- Programs with commas between. -/
theorem ReadsAll.commas {tss : List (List Token)} {fs : List Jq} (h : Reads .or ts f)
    (hs : ReadsAll .or tss fs) :
    Reads .comma (ts ++ behind (.sign .comma) tss) (fs.foldl .comma f) := by
  intro n rest hn hr
  rw [List.append_assoc] at hn ⊢
  change _ ≤ n + 2 at hn
  obtain ⟨n, rfl⟩ : ∃ k, n = k + 1 := ⟨n - 1, by omega⟩
  have hstops : Stops .or (behind (.sign .comma) tss ++ rest) := by
    cases hs with
    | nil => exact hr.tighter (by decide)
    | cons => exact stops_cons (by decide)
  have hread : readWithin? n .or (ts ++ (behind (.sign .comma) tss ++ rest)) =
      some (f, behind (.sign .comma) tss ++ rest) := h n _ hn hstops
  rw [List.length_append] at hn
  change (readWithin? n .or _).bind _ = _
  rw [hread]
  exact extend_commas hs (Nat.le_refl _) (by omega) hr

/-- Tokens that are read as programs with bars between. -/
inductive Piped : List Token → List Jq → Prop
  | one {ts : List Token} {f : Jq} (h : Reads .comma ts f) : Piped ts [f]
  | more {ts us : List Token} {f : Jq} {fs : List Jq} (h : Reads .comma ts f) (hs : Piped us fs) :
    Piped (ts ++ .sign .bar :: us) (f :: fs)

theorem Piped.append {fs gs : List Jq} (h : Piped ts fs) (h' : Piped us gs) :
    Piped (ts ++ .sign .bar :: us) (fs ++ gs) := by
  induction h with
  | one h => exact .more h h'
  | more h _ ih =>
    rw [List.append_assoc, List.cons_append]
    exact .more h ih

/-- It makes no difference how the bars are grouped. -/
theorem Piped.reads {fs : List Jq} (h : Piped ts fs) : Reads .pipe ts (pipeline fs) := by
  induction h with
  | one h => exact h.looser (by decide)
  | more h hs ih =>
    cases hs with
    | one => exact h.pipe ih
    | more => exact h.pipe ih

/-! ### Objects -/

/-- The tokens of the entries of an object, and of the bracket behind them. -/
def entryTokens : List (String × List Token) → List Token
  | [] => [.sign (.closing .curly)]
  | [(key, ts)] => .string key :: .sign .colon :: (ts ++ [.sign (.closing .curly)])
  | (key, ts) :: rest => .string key :: .sign .colon :: (ts ++ .sign .comma :: entryTokens rest)

/-- Tokens that are read as the values of entries. -/
inductive ReadsEntries : List (String × List Token) → List (String × Jq) → Prop
  | nil : ReadsEntries [] []
  | cons {key : String} {ts : List Token} {f : Jq} {es : List (String × List Token)}
      {fs : List (String × Jq)} (h : Reads .term ts f) (hs : ReadsEntries es fs) :
      ReadsEntries ((key, ts) :: es) ((key, f) :: fs)

theorem entries?_run {es : List (String × List Token)} {fs : List (String × Jq)}
    (h : ReadsEntries es fs) (hne : es ≠ []) (rest : List Token) {k : Nat}
    (hk : (entryTokens es ++ rest).length ≤ k) (hn : 9 * (entryTokens es ++ rest).length ≤ n) :
    entries? (readWithin? n .term) k (entryTokens es ++ rest) = some (fs, rest) := by
  induction h generalizing k with
  | nil => exact absurd rfl hne
  | @cons key ts f es fs h hs ih =>
    cases es with
    | nil =>
      cases hs
      have happend : entryTokens [(key, ts)] ++ rest =
          .string key :: .sign .colon :: (ts ++ (.sign (.closing .curly) :: rest)) := by
        simp [entryTokens]
      rw [happend] at hk hn ⊢
      rw [List.length_cons, List.length_cons] at hk hn
      obtain ⟨k, rfl⟩ : ∃ j, k = j + 1 := ⟨k - 1, by omega⟩
      have hread : readWithin? n .term (ts ++ (.sign (.closing .curly) :: rest)) =
          some (f, .sign (.closing .curly) :: rest) := by
        refine h n _ ?_ (stops_cons (by decide))
        change _ ≤ n + 9
        omega
      change (readWithin? n .term _).bind _ = _
      rw [hread]
      rfl
    | cons e es =>
      have happend : entryTokens ((key, ts) :: e :: es) ++ rest =
          .string key :: .sign .colon :: (ts ++ (.sign .comma :: (entryTokens (e :: es) ++ rest))) := by
        simp [entryTokens]
      rw [happend] at hk hn ⊢
      rw [List.length_cons, List.length_cons] at hk hn
      obtain ⟨k, rfl⟩ : ∃ j, k = j + 1 := ⟨k - 1, by omega⟩
      have hread : readWithin? n .term (ts ++ (.sign .comma :: (entryTokens (e :: es) ++ rest))) =
          some (f, .sign .comma :: (entryTokens (e :: es) ++ rest)) := by
        refine h n _ ?_ (stops_cons (by decide))
        change _ ≤ n + 9
        omega
      rw [List.length_append, List.length_cons] at hk hn
      have hrest := ih nofun (k := k) (by omega) (by omega)
      change (readWithin? n .term _).bind _ = _
      rw [hread]
      change (entries? (readWithin? n .term) k _).bind _ = _
      rw [hrest]
      rfl

theorem ReadsEntries.object {es : List (String × List Token)} {fs : List (String × Jq)}
    (h : ReadsEntries es fs) :
    Reads .term (.sign (.opening .curly) :: entryTokens es) (.object fs) := by
  refine .of_term nofun fun n rest hn _ => ?_
  rw [List.cons_append] at hn ⊢
  rw [List.length_cons] at hn
  cases es with
  | nil =>
    cases h
    rfl
  | cons e es =>
    have hread := entries?_run h nofun rest (n := n) (Nat.le_refl _) (by omega)
    obtain ⟨key, ts⟩ := e
    have hhead : ∃ us, entryTokens ((key, ts) :: es) ++ rest = .string key :: us := by
      cases es <;> exact ⟨_, rfl⟩
    obtain ⟨us, hus⟩ := hhead
    rw [hus] at hread ⊢
    change (entries? (readWithin? n .term) (Token.string key :: us).length _).map _ = _
    rw [hread]
    rfl

/-! ### Texts -/

/-- **The text of some marks** is read as the program that their tokens are. -/
theorem read?_marks {text : String} {ms : List Mark} (ht : text.toList = Mark.render ms)
    (hm : ∀ m ∈ ms, m.Readable) (hl : Mark.Loose ms)
    (h : Reads .pipe (ms.filterMap Mark.token?) f) : read? text = some f := by
  have htokens : tokensOf? text = some (ms.filterMap Mark.token?) := by
    unfold tokensOf?
    rw [ht]
    exact tokensWithin?_render hm hl (Nat.le_refl _)
  have hread := h (9 * (ms.filterMap Mark.token?).length + 9) [] (by
    rw [List.append_nil]
    omega) nofun
  rw [List.append_nil] at hread
  unfold read?
  rw [htokens]
  change (readWithin? _ _ _).bind _ = _
  rw [hread]
  rfl

end RecordQuery.Jq
