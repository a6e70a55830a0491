import RecordQuery.Proofs.Compile.Compiled
import RecordQuery.Proofs.Filter.Quotes

/-! # The texts quoted in a compiled expression

`Expr.quotations` lists the texts that the filter of an expression quotes, from left to right, each
with where it comes from: it is written in the source, or it is a fixed one of the compiler. Nothing
else in the filter holds a quote (`quotes_compiled`). -/

namespace RecordQuery

/-- The texts quoted for a literal. -/
def Literal.quotations : Literal → List Quotation
  | string s => [.source s]
  | blob digits => [.source digits]
  | currentTime => [.fixed "%H:%M:%S"]
  | currentDate => [.fixed "%Y-%m-%d"]
  | currentTimestamp => [.fixed "%Y-%m-%d %H:%M:%S"]
  | _ => []

/-- The fixed texts that a function quotes. -/
def QueryFunction.quotations : QueryFunction → List Quotation
  | trim => [.fixed "^\\s+", .fixed "", .fixed "\\s+$", .fixed ""]
  | ltrim => [.fixed "^\\s+", .fixed ""]
  | rtrim => [.fixed "\\s+$", .fixed ""]
  | typeof => [.fixed "null", .fixed "number", .fixed "integer", .fixed "real", .fixed "string",
    .fixed "text"]
  | _ => []

mutual

/-- The texts that the filter of an expression quotes, from left to right. -/
def Expr.quotations : Expr → List Quotation
  | .literal v => v.quotations
  | .column ref => [.source ref.column]
  | .unary _ e => e.quotations
  | .binary op l r =>
    match op, r with
    | .like, .literal (.string p) | .notLike, .literal (.string p) =>
      l.quotations ++ [.source (likeRegex p), .fixed "i"]
    | .regexp, .literal (.string p) | .notRegexp, .literal (.string p) =>
      l.quotations ++ [.source p, .fixed "i"]
    | .regexp, r | .notRegexp, r => r.quotations ++ (l.quotations ++ [.fixed "i"])
    | _, r => l.quotations ++ r.quotations
  | .between _ value low high => value.quotations ++ (low.quotations ++ high.quotations)
  | .listed _ value items => value.quotations ++ quotationsOf items
  | .call name args _ =>
    quotationsOf args ++ ((QueryFunction.ofName? name).map QueryFunction.quotations).getD []
  | .parameter .. | .callStar .. | .existsRow .. => []

/-- The texts that the filters of expressions quote. -/
def quotationsOf : List Expr → List Quotation
  | [] => []
  | e :: es => e.quotations ++ quotationsOf es

end

/-! ### Functions -/

namespace QueryFunction

open RecordQuery.Filter

variable {f g h : Filter} {vs : List Filter} {qs : List Quotation}

theorem quotes_isNull : isNull.Quotes [] := quotes_identity.operation quotes_null

theorem quotes_unlessNull (hf : f.Quotes []) (hg : g.Quotes qs) : (unlessNull f g).Quotes qs :=
  hf.pipe (quotes_isNull.cond quotes_null hg.otherwise)

theorem quotes_onText (hf : f.Quotes []) (hg : g.Quotes qs) : (onText f g).Quotes qs :=
  quotes_unlessNull hf (quotes_apply.pipe hg)

theorem quotes_removing {regex : String} :
    (removing regex).Quotes [.fixed regex, .fixed ""] :=
  Quotes.call₂ (quotes_string (q := .fixed regex)) (quotes_string (q := .fixed ""))

theorem quotes_joined {between : List Mark} (hb : Mark.Quotes between [])
    (hv : ∀ v ∈ vs, v.Quotes []) : Mark.Quotes (joinedMarks between vs) [] := by
  induction vs with
  | nil => exact Mark.quotes_nil
  | cons v vs ih =>
    have hfirst := hv v List.mem_cons_self
    have hrest := ih fun w hw => hv w (List.mem_cons_of_mem _ hw)
    cases vs with
    | nil => exact hfirst
    | cons w vs => exact hfirst.append (hb.append hrest)

theorem quotes_firstPresent (hv : ∀ v ∈ vs, v.Quotes []) : (firstPresent vs).Quotes [] := by
  have hitems : (Filter.sequence vs).Quotes [] :=
    quotes_joined Mark.quotes_nil.space.sign hv
  have hpresent : (Filter.operation .notEqual .identity .null).Quotes [] :=
    quotes_identity.operation quotes_null
  have hfirst : Filter.first.Quotes [] := Mark.Quotes.sign (Mark.quotes_nil.number.inside)
  exact (hitems.group.pipe hpresent.call₁).array.pipe hfirst

theorem quotes_roundTo (hf : f.Quotes []) (hg : g.Quotes []) : (roundTo f g).Quotes [] := by
  have hscale : (Filter.call .pow [digit 10, g]).Quotes [] := Quotes.call₂ quotes_number hg
  exact quotes_unlessNull hf
    (((quotes_identity.operation hscale).pipe quotes_apply).group.operation hscale)

theorem quotes_kindName (hf : f.Quotes []) : (kindName f).Quotes typeof.quotations := by
  have his : ∀ kind : String, (Filter.operation .equal (apply .type) (.string kind)).Quotes
      [.fixed kind] := fun kind => quotes_apply.operation (quotes_string (q := .fixed kind))
  have htext : ∀ s : String, (Filter.string s).Quotes [.fixed s] :=
    fun s => quotes_string (q := .fixed s)
  have hnumber : (Filter.group (.cond (.operation .equal .identity (apply .floor))
      (.string "integer") (.otherwise (.string "real")))).Quotes
      [.fixed "integer", .fixed "real"] :=
    ((quotes_identity.operation quotes_apply).cond (htext _) (htext _).otherwise).group
  exact hf.pipe (quotes_isNull.cond (htext _) ((his _).elseIf hnumber
    ((his _).elseIf (htext _) quotes_apply.otherwise)))

theorem quotes_placeOf (hf : f.Quotes []) (hg : g.Quotes []) : (placeOf f g).Quotes [] := by
  have hplace : '"' ∉ Variable.place.name.toList := by decide
  have hi : (Filter.variable .place).Quotes [] := quotes_variable hplace
  have htext : ∀ {f : Filter}, f.Quotes [] → (Filter.pipe f (apply .tostring)).Quotes [] :=
    fun hf => hf.pipe quotes_apply
  have hfound : (Filter.group (.pipe f (.pipe (apply .tostring)
      (.call .index [.pipe g (apply .tostring)])))).Quotes [] :=
    (hf.pipe (quotes_apply.pipe (htext hg).call₁)).group
  have hcount : (Filter.cond (.operation .equal (.variable .place) .null) (digit 0)
      (.otherwise (.operation .add (.variable .place) (digit 1)))).Quotes [] :=
    (hi.operation quotes_null).cond quotes_number (hi.operation quotes_number).otherwise
  exact ((hf.operation quotes_null).operation (hg.operation quotes_null)).cond quotes_null
    (hfound.bind hplace hcount).otherwise

theorem quotes_substr (hf : f.Quotes []) (hg : g.Quotes []) :
    (QueryFunction.body substr [f, g]).Quotes [] := by
  have hlow : (Filter.group (.operation .subtract g (digit 1))).Quotes [] :=
    (hg.operation quotes_number).group
  have hrest : Mark.Quotes (.sign .colon :: boundMarks none) [] := Mark.quotes_nil.sign
  exact quotes_onText hf (Mark.Quotes.sign (hlow.append hrest).inside)

theorem quotes_substr_count (hf : f.Quotes []) (hg : g.Quotes []) (hh : h.Quotes []) :
    (QueryFunction.body substr [f, g, h]).Quotes [] := by
  have hbefore : (Filter.operation .subtract g (digit 1)).Quotes [] := hg.operation quotes_number
  have hlow : (Filter.group (.operation .subtract g (digit 1))).Quotes [] := hbefore.group
  have hhigh : (Filter.group (.operation .add (.operation .subtract g (digit 1)) h)).Quotes [] :=
    (hbefore.operation hh).group
  have hrest : Mark.Quotes (.sign .colon :: boundMarks
      (some (.group (.operation .add (.operation .subtract g (digit 1)) h)))) [] :=
    Mark.Quotes.sign hhigh
  exact quotes_onText hf (Mark.Quotes.sign (hlow.append hrest).inside)

theorem quotes_abs (hf : f.Quotes []) : (QueryFunction.body abs [f]).Quotes [] :=
  hf.pipe (quotes_isNull.cond quotes_null
    ((quotes_identity.operation quotes_number).elseIf quotes_identity.negate
      quotes_identity.otherwise))

theorem quotes_nullif (hf : f.Quotes []) (hg : g.Quotes []) :
    (QueryFunction.body nullif [f, g]).Quotes [] :=
  (hf.operation hg).cond quotes_null hf.otherwise

/-- **The body of a function** quotes its fixed texts, if its arguments quote none. -/
theorem quotes_body (q : QueryFunction) (ha : q.arity.admits vs.length = true)
    (hv : ∀ v ∈ vs, v.Quotes []) : (q.body vs).Quotes q.quotations := by
  refine admits_elim (P := fun q vs => (∀ v ∈ vs, v.Quotes []) → (q.body vs).Quotes q.quotations)
    ?_ ?_ ?_ ?_ q vs ha hv
  · intro q a ha hv
    have h := hv a List.mem_cons_self
    cases q with
    | lower | upper | length => exact quotes_onText h quotes_apply
    | abs => exact quotes_abs h
    | round => exact quotes_unlessNull h quotes_apply
    | trim => exact quotes_onText h (quotes_removing.pipe quotes_removing)
    | ltrim | rtrim => exact quotes_onText h quotes_removing
    | typeof => exact quotes_kindName h
    | coalesce | ifnull | nullif | substr | instr => cases ha
  · intro q a b ha hv
    have h := hv a List.mem_cons_self
    have h' := hv b (List.mem_cons_of_mem _ List.mem_cons_self)
    cases q with
    | round => exact quotes_roundTo h h'
    | coalesce | ifnull => exact quotes_firstPresent hv
    | nullif => exact quotes_nullif h h'
    | substr => exact quotes_substr h h'
    | instr => exact quotes_placeOf h h'
    | lower | upper | length | abs | trim | ltrim | rtrim | typeof => cases ha
  · intro a b c hv
    exact quotes_substr_count (hv a (by simp)) (hv b (by simp)) (hv c (by simp))
  · intro vs hv
    exact quotes_firstPresent hv

end QueryFunction

namespace Compile

open RecordQuery.Filter

variable {f g : Filter} {qs rs : List Quotation}

theorem quotes_literal (v : Literal) : (literal v).Quotes v.quotations := by
  have hnow : ∀ format : String, (nowAs format).Quotes [.fixed format] := fun format =>
    (quotes_apply.pipe (quotes_string (q := .fixed format)).call₁).group
  cases v with
  | number n => exact quotes_number
  | string s => exact quotes_string (q := .source s)
  | blob digits => exact quotes_string (q := .source digits)
  | boolean b => exact quotes_boolean
  | null => exact quotes_null
  | currentTime | currentDate | currentTimestamp => exact hnow _

theorem quotes_unary (op : UnaryOp) (hf : f.Quotes qs) : (unary op f).Quotes qs := by
  have happend : (qs ++ [] : List Quotation) = qs := List.append_nil qs
  cases op with
  | negate => exact hf.group.negate.group
  | plus => exact hf
  | bitNot =>
    have h : (unary .bitNot f).Quotes (qs ++ []) :=
      (hf.group.negate.operation quotes_number).group
    rw [happend] at h
    exact h
  | not =>
    have h := (hf.pipe (quotes_apply (b := .not))).group
    rw [happend] at h
    exact h
  | isNull =>
    have h : (unary .isNull f).Quotes (qs ++ []) := (hf.operation quotes_null).group
    rw [happend] at h
    exact h
  | notNull =>
    have h : (unary .notNull f).Quotes (qs ++ []) := (hf.operation quotes_null).group
    rw [happend] at h
    exact h

theorem quotes_negatedIf {negated : Bool} (hf : f.Quotes qs) : (negatedIf negated f).Quotes qs := by
  cases negated with
  | false => exact hf
  | true =>
    have h := hf.pipe (quotes_apply (b := .not))
    rw [List.append_nil] at h
    exact h

theorem quotes_binding {n : Nat} (hf : f.Quotes qs) (hg : g.Quotes rs) :
    (binding f (.bound n) g).Quotes (qs ++ rs) :=
  (hf.group.bind (Variable.clean_bound n) hg).group

theorem quotes_bound (n : Nat) : (Filter.variable (.bound n)).Quotes [] :=
  quotes_variable (Variable.clean_bound n)

theorem quotes_tested {negated : Bool} {n : Nat} (hf : f.Quotes qs) (hg : g.Quotes rs) :
    (tested f g negated (.bound n)).Quotes (qs ++ (rs ++ [.fixed matchFlags])) := by
  have htest : (negatedIf negated (.call .test [g, .string matchFlags])).Quotes
      (rs ++ [.fixed matchFlags]) :=
    quotes_negatedIf (hg.call₂ (quotes_string (q := .fixed matchFlags)))
  have hnull : (Filter.operation .equal (.variable (.bound n)) .null).Quotes [] :=
    (quotes_bound n).operation quotes_null
  exact quotes_binding hf (hnull.cond quotes_boolean
    ((quotes_bound n).pipe (quotes_apply.pipe htest)).group.otherwise)

theorem quotes_oneOf {negated : Bool} {n : Nat} {fs : List Filter} (hf : f.Quotes qs)
    (hs : (Filter.sequence fs).Quotes rs) :
    (oneOf negated f fs (.bound n)).Quotes (qs ++ rs) := by
  have hequal : (Filter.operation .equal .identity (.variable (.bound n))).Quotes [] :=
    quotes_identity.operation (quotes_bound n)
  have hany := hs.call₂ (b := .any) hequal
  rw [List.append_nil] at hany
  exact quotes_binding hf (quotes_negatedIf hany)

theorem quotes_inRange {negated : Bool} {n : Nat} {x : Filter} {ps : List Quotation}
    (hx : x.Quotes ps) (hf : f.Quotes qs) (hg : g.Quotes rs) :
    (inRange negated x f g (.bound n)).Quotes (ps ++ (qs ++ rs)) := by
  have hlow : ∀ op : Operator, (Filter.operation op (.variable (.bound n)) f).Quotes qs :=
    fun op => (quotes_bound n).operation hf
  have hhigh : ∀ op : Operator, (Filter.operation op (.variable (.bound n)) g).Quotes rs :=
    fun op => (quotes_bound n).operation hg
  refine quotes_binding hx (Quotes.group ?_)
  cases negated with
  | false => exact (hlow _).operation (hhigh _)
  | true => exact (hlow _).operation (hhigh _)

theorem quotes_concat (hf : f.Quotes qs) (hg : g.Quotes rs) : (concat f g).Quotes (qs ++ rs) := by
  have hnull : (Filter.call .any [.elements, .operation .equal .identity .null]).Quotes [] :=
    quotes_elements.call₂ (quotes_identity.operation quotes_null)
  have hjoin : (Filter.pipe (.call .map [apply .tostring]) (apply .add)).Quotes [] :=
    quotes_apply.call₁.pipe quotes_apply
  have hall := ((hf.sequence₂ hg).array.pipe (hnull.cond quotes_null hjoin.otherwise)).group
  simp only [List.append_nil] at hall
  exact hall

theorem quotes_joinedBy {op : BinaryOp} {join : Filter → Filter → Filter}
    (ho : rule op = .joined join) (hf : f.Quotes qs) (hg : g.Quotes rs) :
    (join f g).Quotes (qs ++ rs) := by
  have hpower : (powerOfTwo g).Quotes rs := Quotes.call₂ quotes_number hg
  cases op <;> cases ho
  case concat => exact quotes_concat hf hg
  case shiftLeft => exact (hf.operation hpower).group
  case shiftRight =>
    have h : (Filter.group (.pipe (.group (.operation .divide f (powerOfTwo g)))
        (apply .floor))).Quotes (qs ++ rs ++ []) := ((hf.operation hpower).group.pipe quotes_apply).group
    rw [List.append_nil] at h
    exact h

/-! ### Runs -/

theorem quotes_sequence_cons {fs : List Filter} (hf : f.Quotes qs)
    (hs : (Filter.sequence fs).Quotes rs) : (Filter.sequence (f :: fs)).Quotes (qs ++ rs) := by
  cases fs with
  | nil =>
    have hrs : rs = [] := List.map_eq_nil_iff.mp hs.texts.symm
    rw [hrs, List.append_nil]
    exact hf
  | cons g fs => exact hf.append hs.space.sign

theorem clean_of_isVariableName {name : String} (h : isVariableName name = true) :
    '"' ∉ name.toList := by
  unfold isVariableName at h
  split at h
  · cases h
  · next c rest heq =>
    rw [heq]
    intro hq
    simp only [Bool.and_eq_true, List.all_eq_true] at h
    obtain rfl | hq := List.mem_cons.mp hq
    · exact absurd h.1 (by decide)
    · exact absurd (h.2 '"' hq) (by decide)

theorem clean_positionalName (n : UInt32) : '"' ∉ (positionalName n).toList := by
  unfold positionalName
  rw [String.toList_append, List.mem_append, not_or]
  refine ⟨by decide, fun h => ?_⟩
  exact absurd (numeral_toString '"' h) (by decide)

theorem clean_parameterName {p : Parameter} {position : Position} {name : String} {s s' : Names}
    (h : (parameterName p position).run s = .ok name s') : '"' ∉ name.toList := by
  cases named_of_run h with
  | next | numbered => exact clean_positionalName _
  | named hname => exact clean_of_isVariableName hname

/-- What a job quotes. -/
def Job.Quotes : Job → Prop
  | .expr e f => f.Quotes e.quotations
  | .exprs es fs => (Filter.sequence fs).Quotes (quotationsOf es)
  | .arguments es bs => bs.length = es.length ∧ (∀ b ∈ bs, ∃ n, b.2 = .bound n) ∧
    ∀ (body : Filter) (qs : List Quotation), body.Quotes qs →
      (bs.foldr (fun b body => Filter.bind (.group b.1) b.2 body) body).Quotes
        (quotationsOf es ++ qs)

theorem quotations_binary {op : BinaryOp} {l r : Expr}
    (h : ∀ negated, rule op ≠ .like negated ∧ rule op ≠ .regexp negated) :
    (Expr.binary op l r).quotations = l.quotations ++ r.quotations := by
  cases op <;> first | rfl | exact absurd rfl (h _).1 | exact absurd rfl (h _).2

theorem quotations_like {op : BinaryOp} {negated : Bool} {l : Expr} {p : String}
    (ho : rule op = .like negated) : (Expr.binary op l (.literal (.string p))).quotations =
      l.quotations ++ [.source (likeRegex p), .fixed matchFlags] := by
  cases op <;> cases ho <;> rfl

theorem quotations_regexp {op : BinaryOp} {negated : Bool} {l : Expr} {p : String}
    (ho : rule op = .regexp negated) : (Expr.binary op l (.literal (.string p))).quotations =
      l.quotations ++ [.source p, .fixed matchFlags] := by
  cases op <;> cases ho <;> rfl

theorem quotations_computedRegexp {op : BinaryOp} {negated : Bool} {l r : Expr}
    (ho : rule op = .regexp negated) (hp : pattern? r = none) :
    (Expr.binary op l r).quotations =
      r.quotations ++ (l.quotations ++ [.fixed matchFlags]) := by
  have hne : ∀ p, r ≠ .literal (.string p) := by
    rintro p rfl
    cases hp
  have hcases : (Expr.binary .regexp l r).quotations =
      r.quotations ++ (l.quotations ++ [.fixed matchFlags]) ∧
      (Expr.binary .notRegexp l r).quotations =
        r.quotations ++ (l.quotations ++ [.fixed matchFlags]) := by
    cases r with
    | literal v =>
      cases v with
      | string p => exact absurd rfl (hne p)
      | _ => exact ⟨rfl, rfl⟩
    | _ => exact ⟨rfl, rfl⟩
  cases op <;> cases ho
  · exact hcases.1
  · exact hcases.2

/-- **What a compiled expression quotes** is what its tree says. -/
theorem Compiled.quotes {j : Job} {s s' : Names} (h : Compiled j s s') : j.Quotes := by
  induction h with
  | literal v s => exact quotes_literal v
  | column ref s => exact quotes_field
  | parameter h => exact quotes_variable (clean_parameterName h)
  | unary _ ih => exact quotes_unary _ ih
  | operator ho _ _ ihl ihr =>
    rw [Job.Quotes, quotations_binary (by rw [ho]; exact fun _ => ⟨nofun, nofun⟩)]
    exact (ihl.operation ihr).group
  | joined ho _ _ ihl ihr =>
    rw [Job.Quotes, quotations_binary (by rw [ho]; exact fun _ => ⟨nofun, nofun⟩)]
    exact quotes_joinedBy ho ihl ihr
  | helper ho _ _ ihl ihr =>
    rw [Job.Quotes, quotations_binary (by rw [ho]; exact fun _ => ⟨nofun, nofun⟩)]
    exact ihl.helper ihr
  | like ho hp _ ihl =>
    obtain rfl := pattern?_eq hp
    rw [Job.Quotes, quotations_like ho]
    exact quotes_tested ihl (quotes_string (q := .source _))
  | regexp ho hp _ ihl =>
    obtain rfl := pattern?_eq hp
    rw [Job.Quotes, quotations_regexp ho]
    exact quotes_tested ihl (quotes_string (q := .source _))
  | computedRegexp ho hp _ _ ihl ihr =>
    rw [Job.Quotes, quotations_computedRegexp ho hp]
    exact quotes_binding ihr (quotes_tested ihl (quotes_bound _))
  | member ho _ _ ihl ihr =>
    rw [Job.Quotes, quotations_binary (by rw [ho]; exact fun _ => ⟨nofun, nofun⟩)]
    exact quotes_oneOf ihl ihr
  | between _ _ _ ihx ihf ihg => exact quotes_inRange ihx ihf ihg
  | listed _ _ ihx ihs => exact quotes_oneOf ihx ihs
  | call hq ha _ ih =>
    obtain ⟨hlen, hv, ih⟩ := ih
    rw [Job.Quotes, Expr.quotations, hq]
    refine Quotes.group (ih _ _ (QueryFunction.quotes_body _ ?_ ?_))
    · rw [List.length_map, hlen]; exact ha
    · intro v hmem
      obtain ⟨b, hb, rfl⟩ := List.mem_map.mp hmem
      obtain ⟨n, hn⟩ := hv b hb
      dsimp only
      rw [hn]
      exact quotes_bound n
  | none s => exact Mark.quotes_nil
  | more _ _ ih ihs => exact quotes_sequence_cons ih ihs
  | noArgument s => exact ⟨rfl, fun b hb => absurd hb List.not_mem_nil, fun body qs h => h⟩
  | argument _ _ ih ihs =>
    obtain ⟨hlen, hv, ihs⟩ := ihs
    refine ⟨by rw [List.length_cons, hlen, List.length_cons], ?_, ?_⟩
    · intro b hb
      obtain rfl | hb := List.mem_cons.mp hb
      · exact ⟨_, rfl⟩
      · exact hv b hb
    · intro body qs hbody
      change Filter.Quotes _ ((_ ++ _) ++ qs)
      rw [List.append_assoc]
      exact ih.group.bind (Variable.clean_bound _) (ihs body qs hbody)

end Compile

end RecordQuery
