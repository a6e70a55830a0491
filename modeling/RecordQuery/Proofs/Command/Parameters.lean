import Mathlib.Data.List.Find
import RecordQuery.Command.Check
import RecordQuery.Proofs.Compile.Terms
import RecordQuery.Proofs.Engine.Answers
import RecordQuery.Proofs.Json.Members
import RecordQuery.Proofs.Text.LetterCase
import RecordQuery.Proofs.Token.Lexed

/-! # Parameters given as arguments

A check is given values of parameters as arguments, whose names are written in lower case. So a name
with a capital letter, which a query can have in quotes only, has no value whatever is given.

* `Bindings.entryOf_name`: an argument for a name binds its form in lower case.
* `Bindings.bound_iff`: names have values if arguments bind them.
* `Check.run_unbound_iff`: a check fails for the first parameter without a value.
* `Check.parameters_given`: so, if all parameters are given, it fails for the first one with a
  capital letter, or not for this reason. -/

namespace RecordQuery

open Mark (IsName)

/-! ### Names -/

section Names
variable {c : Char} {n : String}

theorem toNat_of_isNameChar (h : Jq.isNameChar c = true) : c.toNat < 128 := by
  have hbound (d : Char) (hd : d.toNat < 128) (h : c.val ≤ d.val) : c.toNat < 128 :=
    Nat.lt_of_le_of_lt (UInt32.le_iff_toNat_le.mp h) hd
  have hcases : (c.isAlpha = true ∨ c.isDigit = true) ∨ (c == '_') = true :=
    ((Bool.or_eq_true ..).mp h).imp_left (Bool.or_eq_true ..).mp
  obtain (h | h) | h := hcases
  · rcases (Bool.or_eq_true ..).mp h with hupper | hlower
    · exact hbound 'Z' (by decide) (of_decide_eq_true hupper).2
    · exact hbound 'z' (by decide) (of_decide_eq_true ((Bool.and_eq_true ..).mp hlower).2)
  · exact hbound '9' (by decide) (of_decide_eq_true ((Bool.and_eq_true ..).mp h).2)
  · rw [beq_iff_eq.mp h]
    decide

/-- **A character of a name** is no mark of an argument, and it is its own lower case unless it is a
capital letter. -/
theorem isNameChar_spec (h : Jq.isNameChar c = true) : c ≠ '=' ∧ isBlank c = false ∧
    isSigil c = false ∧ (c.isUpper = false → SmallForm c) :=
  forall_ascii (P := fun c => Jq.isNameChar c = true → c ≠ '=' ∧ isBlank c = false ∧
    isSigil c = false ∧ (c.isUpper = false → SmallForm c)) (by decide +kernel)
    (toNat_of_isNameChar h) h

theorem isNameChar_of_isName (h : IsName n) : ∀ c ∈ n.toList, Jq.isNameChar c = true := by
  obtain ⟨c, cs, heq, hc, hcs⟩ := h
  rw [heq]
  refine List.forall_mem_cons.mpr ⟨?_, hcs⟩
  rcases (Bool.or_eq_true ..).mp hc with hc | hc
  · simp [Jq.isNameChar, Char.isAlphanum, hc]
  · simp [Jq.isNameChar, hc]

/-- A name in lower case is the name unless it has a capital letter. -/
theorem lowerCase_eq_iff (h : IsName n) : lowerCase n = n ↔ hasCapital n = false := by
  refine ⟨fun heq => heq ▸ hasCapital_lowerCase n, fun hsmall => ?_⟩
  rw [hasCapital, List.any_eq_false] at hsmall
  have hlower : ∀ c ∈ n.toList, SmallForm c := fun c hc =>
    (isNameChar_spec (isNameChar_of_isName h c hc)).2.2.2 (Bool.eq_false_iff.mpr (hsmall c hc))
  rw [lowerCase, lowerFrom_small hlower, String.ofList_toList]

theorem isName_parameters {q : String} {p : Program} (h : Program.ofText q = .ok p) :
    ∀ n ∈ p.parameters, IsName n := by
  obtain ⟨st, -, hst⟩ := Program.ofStatement_of_ofText h
  obtain ⟨projection, s, s', hfrom⟩ := Program.compiledFrom_ofStatement hst
  obtain ⟨hparameters, -⟩ := Program.closed_ofStatement hst
  intro n hn
  rw [hparameters, Projection.mem_distinctFrom, Ask.mem_names] at hn
  exact (Program.compiled_parts hfrom).named 0 n (hn.resolve_left List.not_mem_nil)

theorem hasCapital_positionalName (k : UInt32) : hasCapital (Compile.positionalName k) = false := by
  have hdigits : ∀ c ∈ (toString k.toNat).toList, ¬c.isUpper = true := by
    intro c hc
    change c ∈ (Nat.repr k.toNat).toList at hc
    rw [Nat.toList_repr] at hc
    have hdigit : c.isDigit = true := Nat.isDigit_of_mem_toDigits (by decide) (by decide) hc
    exact Bool.eq_false_iff.mp (Bool.or_eq_false_iff.mp (not_alpha_of_digit hdigit)).1
  rw [hasCapital, Compile.positionalName, String.toList_append, List.any_append,
    List.any_eq_false.mpr hdigits]
  rfl

/-- **Only a name in quotes** has a capital letter. -/
theorem hasCapital_of_lexed {cs rest : List Char} {sigil : Char}
    (h : Lexed cs (.parameter (.named sigil n)) rest) :
    (∃ body, cs = sigil :: '"' :: body) ∨ hasCapital n = false := by
  cases h with
  | quotedName => exact .inl ⟨_, rfl⟩
  | name => exact .inr (hasCapital_lowerCase _)

end Names

/-! ### Arguments -/

section Steps
variable {ε α β : Type} {f : α → Except ε β} {as : List α} {bs : List β}

theorem mem_mapM (h : as.mapM f = .ok bs) {b : β} : b ∈ bs ↔ ∃ a ∈ as, f a = .ok b := by
  induction as generalizing bs with
  | nil =>
    cases h
    simp
  | cons a as ih =>
    rw [List.mapM_cons] at h
    obtain ⟨b', hb', h⟩ := ok_of_bind h
    obtain ⟨rest, hrest, h⟩ := ok_of_bind h
    cases h
    rw [List.mem_cons, ih hrest, List.exists_mem_cons_iff, hb', Except.ok.injEq, eq_comm]

theorem mapM_of_forall (h : ∀ a ∈ as, ∃ b, f a = .ok b) : ∃ bs, as.mapM f = .ok bs := by
  induction as with
  | nil => exact ⟨[], rfl⟩
  | cons a as ih =>
    obtain ⟨⟨b, hb⟩, hrest⟩ := List.forall_mem_cons.mp h
    obtain ⟨bs, hbs⟩ := ih hrest
    refine ⟨b :: bs, ?_⟩
    rw [List.mapM_cons, hb, hbs]
    rfl

end Steps

namespace Bindings

variable {n name argument : String} {value : Json} {b : Bindings}

theorem splitAtEquals_append {cs : List Char} (h : '=' ∉ cs) (ds : List Char) :
    splitAtEquals (cs ++ '=' :: ds) = (String.ofList cs, some (String.ofList ds)) := by
  have hall : ∀ c ∈ cs, (c != '=') = true := fun c hc =>
    bne_iff_ne.mpr fun heq => h (heq ▸ hc)
  unfold splitAtEquals
  rw [List.takeWhile_append_of_pos hall, List.dropWhile_append_of_pos hall]
  simp

theorem dropWhile_of_forall {p : Char → Bool} {cs : List Char} (h : ∀ c ∈ cs, p c = false) :
    cs.dropWhile p = cs := by
  cases cs with
  | nil => rfl
  | cons c cs => exact List.dropWhile_cons_of_neg (Bool.eq_false_iff.mp (h c List.mem_cons_self))

theorem trim_of_isName (h : IsName n) : trim n = n := by
  have hblank : ∀ c ∈ n.toList, isBlank c = false := fun c hc =>
    (isNameChar_spec (isNameChar_of_isName h c hc)).2.1
  rw [trim, trimEnd, dropWhile_of_forall hblank, String.ofList_toList,
    dropWhile_of_forall fun c hc => hblank c (List.mem_reverse.mp hc), List.reverse_reverse,
    String.ofList_toList]

/-- **An argument for a name** binds the name in lower case. -/
theorem entryOf_name (h : IsName n) (text : String) : entryOf (n ++ "=" ++ text) =
    .ok (lowerCase n, (Json.ofText? text).getD (.string text)) := by
  have hequals : '=' ∉ n.toList := fun hmem =>
    (isNameChar_spec (isNameChar_of_isName h _ hmem)).1 rfl
  have hsplit : splitAtEquals (n ++ "=" ++ text).toList = (n, some text) := by
    rw [String.append_assoc, String.toList_append, String.toList_append]
    refine (splitAtEquals_append hequals text.toList).trans ?_
    rw [String.ofList_toList, String.ofList_toList]
  have hsigil : (trim n).toList.dropWhile isSigil = n.toList := by
    rw [trim_of_isName h]
    exact dropWhile_of_forall fun c hc => (isNameChar_spec (isNameChar_of_isName h c hc)).2.2.1
  have hname : n.isEmpty = false := by
    obtain ⟨c, cs, heq, -⟩ := h
    refine Bool.eq_false_iff.mpr fun hempty => ?_
    rw [String.isEmpty_iff.mp hempty] at heq
    cases heq
  rw [entryOf, hsplit]
  dsimp only
  rw [hsigil, String.ofList_toList, hname]
  rfl

theorem hasCapital_of_entryOf (h : entryOf argument = .ok (name, value)) :
    hasCapital name = false := by
  unfold entryOf at h
  split at h
  · cases h
  · dsimp only at h
    split at h
    · cases h
    · obtain ⟨rfl, -⟩ := Prod.mk.inj (Except.ok.inj h)
      exact hasCapital_lowerCase _

/-- A name has an argument that binds it unless it has a capital letter. -/
theorem exists_entryOf_iff (h : IsName n) :
    (∃ argument value, entryOf argument = .ok (n, value)) ↔ hasCapital n = false := by
  constructor
  · rintro ⟨argument, value, hentry⟩
    exact hasCapital_of_entryOf hentry
  · intro hsmall
    have hentry := entryOf_name h "null"
    rw [(lowerCase_eq_iff h).mpr hsmall] at hentry
    exact ⟨_, _, hentry⟩

theorem value?_bind (b : Bindings) (name n : String) (value : Json) :
    (b.bind name value).value? n = if n = name then some value else b.value? n := by
  split
  · next h =>
    subst h
    exact Json.member?_setMember_self
  · next h => exact Json.member?_setMember_of_ne h

theorem unbound_ofList {entries : List (String × Json)} :
    (ofList entries).unbound n = false ↔ n ∈ entries.map Prod.fst := by
  have hfold (b : Bindings) :
      (entries.foldl (fun b e => b.bind e.1 e.2) b).unbound n = false ↔
        b.unbound n = false ∨ n ∈ entries.map Prod.fst := by
    induction entries generalizing b with
    | nil => simp
    | cons e entries ih =>
      rw [List.foldl_cons, ih, List.map_cons, List.mem_cons, unbound, value?_bind]
      by_cases hn : n = e.1
      · simp [hn]
      · simp [hn, unbound]
  exact (hfold empty).trans (or_iff_right Bool.false_ne_true.symm)

/-- **A name has a value** if an argument binds it. -/
theorem bound_iff {arguments : List String} (h : ofArguments arguments = .ok b) :
    b.unbound n = false ↔ ∃ a ∈ arguments, ∃ value, entryOf a = .ok (n, value) := by
  obtain ⟨entries, hentries, rfl⟩ := ok_of_map h
  rw [unbound_ofList]
  constructor
  · intro hn
    obtain ⟨⟨_, value⟩, he, rfl⟩ := List.mem_map.mp hn
    obtain ⟨a, ha, hentry⟩ := (mem_mapM hentries).mp he
    exact ⟨a, ha, value, hentry⟩
  · rintro ⟨a, ha, value, hentry⟩
    exact List.mem_map_of_mem (f := Prod.fst) ((mem_mapM hentries).mpr ⟨a, ha, hentry⟩)

/-- Names that are given have values, apart from those with a capital letter. -/
theorem unbound_of_given {names arguments : List String} (h : ∀ n ∈ names, IsName n)
    (hb : ofArguments arguments = .ok b)
    (hgiven : ∀ n ∈ names, ∃ text, n ++ "=" ++ text ∈ arguments) :
    ∀ n ∈ names, b.unbound n = hasCapital n := by
  intro n hn
  cases hcapital : hasCapital n with
  | false =>
    obtain ⟨text, htext⟩ := hgiven n hn
    have hentry := entryOf_name (h n hn) text
    rw [(lowerCase_eq_iff (h n hn)).mpr hcapital] at hentry
    exact (bound_iff hb).mpr ⟨_, htext, _, hentry⟩
  | true =>
    refine Bool.eq_true_of_not_eq_false fun hbound => ?_
    obtain ⟨a, -, value, hentry⟩ := (bound_iff hb).mp hbound
    rw [hasCapital_of_entryOf hentry] at hcapital
    cases hcapital

/-- Arguments for names are read. -/
theorem ofArguments_names {names : List String} (h : ∀ n ∈ names, IsName n)
    (text : String → String) :
    ∃ b, ofArguments (names.map fun n => n ++ "=" ++ text n) = .ok b := by
  have hread : ∀ a ∈ names.map fun n => n ++ "=" ++ text n, ∃ e, entryOf a = .ok e := by
    intro a ha
    obtain ⟨n, hn, rfl⟩ := List.mem_map.mp ha
    exact ⟨_, entryOf_name (h n hn) (text n)⟩
  obtain ⟨entries, hentries⟩ := mapM_of_forall hread
  refine ⟨ofList entries, ?_⟩
  rw [ofArguments, hentries]
  rfl

end Bindings

/-! ### Checks -/

namespace Check

variable {c : Check} {p : Program} {records : Records} {chosen : Option String}
  {interpreter : Interpreter} {name : String}

/-- **A check fails for a parameter without a value** if that is the first one. -/
theorem run_unbound_iff (hs : c.syntaxOnly = false) (hr : c.records = some records)
    (hp : Program.ofText c.query = .ok p) :
    (c.run chosen).answer interpreter = .error (.fault (.query (.execution (.unbound name)))) ↔
      p.parameters.find? c.bindings.unbound = some name := by
  have hcompile : ((c.engine chosen).compile c.query).1 = .ok p := hp
  have hanswer : (c.run chosen).answer interpreter =
        .error (.fault (.query (.execution (.unbound name)))) ↔
      ((c.engine chosen).query c.query records).1.answer interpreter =
        .error (.fault (.execution (.unbound name))) := by
    unfold run
    rw [hs, hr]
    dsimp only
    rw [if_neg Bool.false_ne_true, Exchange.answer_map]
    cases ((c.engine chosen).query c.query records).1.answer interpreter with
    | ok => exact iff_of_false nofun nofun
    | error stop => cases stop <;> simp [Stop.map]
  rw [hanswer]
  cases hfirst : p.parameters.find? c.bindings.unbound with
  | some first =>
    rw [(Engine.refuses_of_unbound hcompile hfirst).answer]
    simp
  | none =>
    obtain ⟨values, call, -, hruns⟩ := Engine.runs_of_bound hcompile hfirst
    rw [hruns.failure]
    have hcause {reply : Reply} : ¬reply.Fails (c.engine chosen).binary (.unbound name) := nofun
    refine iff_of_false ?_ nofun
    rintro ⟨_, ⟨⟩, hfails⟩
    exact hcause hfails

/-- **Parameters given as arguments.** An argument for a parameter of a program is read, and binds
the lower-case form of its name; so an argument binds the parameter exactly if its name has no
capital letter. A check for which all parameters are given fails for want of a value exactly if
there is a parameter with a capital letter, and it names the first one. Numbered parameters have
none, and named ones only where their name stands in quotes. -/
theorem parameters_given {q : String} (hp : Program.ofText q = .ok p) :
    (∀ n ∈ p.parameters,
      (∀ text, Bindings.entryOf (n ++ "=" ++ text) =
        .ok (lowerCase n, (Json.ofText? text).getD (.string text))) ∧
      (lowerCase n = n ↔ hasCapital n = false) ∧
      ((∃ argument value, Bindings.entryOf argument = .ok (n, value)) ↔ hasCapital n = false)) ∧
    (∀ text : String → String, ∃ b,
      Bindings.ofArguments (p.parameters.map fun n => n ++ "=" ++ text n) = .ok b) ∧
    (∀ arguments b, Bindings.ofArguments arguments = .ok b →
      (∀ n ∈ p.parameters, ∃ text, n ++ "=" ++ text ∈ arguments) →
      ∀ (records : Records) (binary chosen : Option String) (interpreter : Interpreter)
        (name : String),
        (run ⟨q, some records, false, binary, b⟩ chosen).answer interpreter =
            .error (.fault (.query (.execution (.unbound name)))) ↔
          p.parameters.find? hasCapital = some name) ∧
    (∀ k, hasCapital (Compile.positionalName k) = false) ∧
    ∀ cs sigil n rest, Lexed cs (.parameter (.named sigil n)) rest →
      (∃ body, cs = sigil :: '"' :: body) ∨ hasCapital n = false := by
  have hnames := isName_parameters hp
  refine ⟨fun n hn => ⟨Bindings.entryOf_name (hnames n hn), lowerCase_eq_iff (hnames n hn),
    Bindings.exists_entryOf_iff (hnames n hn)⟩, Bindings.ofArguments_names hnames,
    fun arguments b hb hgiven records binary chosen interpreter name => ?_,
    hasCapital_positionalName, fun _ _ _ _ => hasCapital_of_lexed⟩
  have hfirst : p.parameters.find? b.unbound = p.parameters.find? hasCapital :=
    List.find?_congr (Bindings.unbound_of_given hnames hb hgiven)
  rw [← hfirst]
  exact run_unbound_iff rfl rfl hp

/-- A query with one parameter that can be given, and one that cannot. -/
theorem parameters_given_quoted :
    let q := "SELECT * WHERE a = :Min AND b = :\"Max\""
    ∃ p b, Program.ofText q = .ok p ∧ p.parameters = ["min", "Max"] ∧
      Bindings.ofArguments ["min=1", "Max=2"] = .ok b ∧
      (∃ argument value, Bindings.entryOf argument = .ok ("min", value)) ∧
      ∀ interpreter : Interpreter,
        (run ⟨q, some (.text "[]"), false, none, b⟩ none).answer interpreter =
          .error (.fault (.query (.execution (.unbound "Max")))) := by
  intro q
  obtain ⟨p, hp, hnames⟩ := ok_of_any (r := Program.ofText q)
    (p := fun p => p.parameters == ["min", "Max"]) (by decide +kernel)
  replace hnames := beq_iff_eq.mp hnames
  obtain ⟨hparameters, harguments, hrun, -⟩ := parameters_given hp
  obtain ⟨b, hb⟩ := harguments fun n => if n = "min" then "1" else "2"
  rw [hnames] at hb
  obtain ⟨-, -, hmin⟩ := hparameters "min" (by rw [hnames]; decide)
  refine ⟨p, b, hp, hnames, hb, hmin.mpr (by decide), fun interpreter => ?_⟩
  refine (hrun _ b hb (fun n hn => ?_) _ _ _ _ _).mpr (by rw [hnames]; decide)
  rw [hnames] at hn
  exact ⟨_, List.mem_map_of_mem hn⟩

/-- **A parameter that no argument binds**: a check fails for it though it is given. -/
theorem parameter_never_bound :
    let q := "SELECT * WHERE a = :\"Foo\""
    ∃ p b, Program.ofText q = .ok p ∧ p.parameters = ["Foo"] ∧
      (∀ argument value, Bindings.entryOf argument ≠ .ok ("Foo", value)) ∧
      Bindings.ofArguments ["Foo=1"] = .ok b ∧
      ∀ interpreter : Interpreter,
        (run ⟨q, some (.text "[]"), false, none, b⟩ none).answer interpreter =
          .error (.fault (.query (.execution (.unbound "Foo")))) := by
  intro q
  obtain ⟨p, hp, hnames⟩ := ok_of_any (r := Program.ofText q)
    (p := fun p => p.parameters == ["Foo"]) (by decide +kernel)
  replace hnames := beq_iff_eq.mp hnames
  have hnever (argument : String) (value : Json) :
      Bindings.entryOf argument ≠ .ok ("Foo", value) := fun hentry =>
    absurd (Bindings.hasCapital_of_entryOf hentry) (by decide)
  have hname : ∀ n ∈ p.parameters, IsName n := isName_parameters hp
  rw [hnames] at hname
  obtain ⟨b, hb⟩ := Bindings.ofArguments_names hname fun _ => "1"
  refine ⟨p, b, hp, hnames, hnever, hb, fun interpreter => ?_⟩
  let c : Check := ⟨q, some (.text "[]"), false, none, b⟩
  refine (run_unbound_iff (c := c) rfl rfl hp).mpr ?_
  have hunbound : b.unbound "Foo" = true := by
    refine Bool.eq_true_of_not_eq_false fun hbound => ?_
    obtain ⟨a, -, value, hentry⟩ := (Bindings.bound_iff hb).mp hbound
    exact hnever a value hentry
  rw [hnames, List.find?_cons_of_pos hunbound]

end Check

end RecordQuery
