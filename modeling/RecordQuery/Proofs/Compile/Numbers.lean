import RecordQuery.Proofs.Compile.Variables

/-! # Numbers of bare markers, one expression after another

Expressions that are compiled one after another share a counter, which bare markers are numbered by
and markers with numbers move. It is as great as every number that was handled, as long as no bare
marker stands behind the greatest number there is (`CounterFits`). What has compiled has markers
that the counter fits, and a run that panics has met the first bare marker that it does not fit
(`Compile.handles_expr`).

An expression that stops has handled some of its markers, from the left, and leaves the counter
where they took it; so what one compiler has handled of any expressions is a list of markers that
explains its counter and its parameters (`Compile.HandledBy`). A bare marker among them has a number
that is greater than all before it, and the next one has a number if and only if the greatest one is
not among them (`Compile.markers_fresh`): behind that one it panics (`Compile.marker_not_fresh`). -/

namespace RecordQuery

open Compile (greatestNumber)

/-! ### Counting -/

/-- **The counter fits** markers, behind a greatest number: no bare one stands where it is at its
end. -/
def CounterFits : UInt32 → List (Parameter × Position) → Prop
  | _, [] => True
  | n, p :: ps => (p.1 = .next → n ≠ greatestNumber) ∧ CounterFits (p.1.count n) ps

instance decidableCounterFits : ∀ (n : UInt32) (ps : List (Parameter × Position)),
    Decidable (CounterFits n ps)
  | _, [] => .isTrue trivial
  | n, p :: ps =>
    have := decidableCounterFits (p.1.count n) ps
    inferInstanceAs (Decidable ((p.1 = .next → n ≠ greatestNumber) ∧ _))

variable {n m : UInt32} {ps qs : List (Parameter × Position)}

theorem counterFits_append :
    CounterFits n (ps ++ qs) ↔ CounterFits n ps ∧ CounterFits (countedBy n ps) qs := by
  induction ps generalizing n with
  | nil => exact ⟨fun h => ⟨trivial, h⟩, And.right⟩
  | cons p ps ih => exact (and_congr_right fun _ => ih).trans and_assoc.symm

/-- A bare marker does not fit where the counter is at its end. -/
theorem not_counterFits {place : Position} (h : countedBy n ps = greatestNumber) :
    ¬ CounterFits n (ps ++ (.next, place) :: qs) := fun hfits =>
  (counterFits_append.mp hfits).2.1 rfl h

theorem le_greatestNumber (n : UInt32) : n ≤ greatestNumber := by
  have hlt := n.toNat_lt
  have hgreatest : greatestNumber.toNat = 4294967295 := rfl
  rw [UInt32.le_iff_toNat_le]
  omega

theorem lt_succ_of_ne {n : UInt32} (h : n ≠ greatestNumber) : n < n + 1 := by
  have hlt := n.toNat_lt
  have hgreatest : greatestNumber.toNat = 4294967295 := rfl
  have hne : n.toNat ≠ greatestNumber.toNat := fun heq => h (UInt32.toNat_inj.mp heq)
  have hone : (1 : UInt32).toNat = 1 := rfl
  rw [UInt32.lt_iff_toNat_lt, UInt32.toNat_add]
  omega

/-- A marker that the counter fits does not move it back, and it is behind the marker's number. -/
theorem Parameter.count_ge {p : Parameter} (h : p = .next → n ≠ greatestNumber) :
    n ≤ p.count n ∧ ∀ m, p.identity n = .positional m → m ≤ p.count n := by
  cases p with
  | next =>
    refine ⟨UInt32.le_of_lt (lt_succ_of_ne (h rfl)), fun m hm => ?_⟩
    cases hm
    exact UInt32.le_refl _
  | numbered k =>
    have hcount : (Parameter.numbered k).count n = if n ≤ k then k else n := rfl
    rw [hcount]
    refine ⟨?_, fun m hm => ?_⟩
    · split_ifs with hle
      · exact hle
      · exact UInt32.le_refl n
    · cases hm
      split_ifs with hle
      · exact UInt32.le_refl _
      · exact UInt32.le_of_lt (UInt32.not_le.mp hle)
  | named sigil name => exact ⟨UInt32.le_refl n, nofun⟩

/-- **The counter** is as great as all numbers behind which it stands, if it fits their markers. -/
theorem countedBy_ge (h : CounterFits n ps) :
    n ≤ countedBy n ps ∧ ∀ m, .positional m ∈ identitiesFrom n ps → m ≤ countedBy n ps := by
  induction ps generalizing n with
  | nil => exact ⟨UInt32.le_refl n, nofun⟩
  | cons p ps ih =>
    obtain ⟨hstep, hnumber⟩ := p.1.count_ge h.1
    obtain ⟨hrest, hall⟩ := ih h.2
    refine ⟨UInt32.le_trans hstep hrest, fun m hm => ?_⟩
    rcases List.mem_cons.mp hm with heq | hm
    · exact UInt32.le_trans (hnumber m heq.symm) hrest
    · exact hall m hm

/-- The counter has not moved, or is one of the numbers behind which it stands. -/
theorem countedBy_mem (n : UInt32) (ps : List (Parameter × Position)) :
    countedBy n ps = n ∨ .positional (countedBy n ps) ∈ identitiesFrom n ps := by
  induction ps generalizing n with
  | nil => exact .inl rfl
  | cons p ps ih =>
    have hstep : p.1.count n = n ∨ p.1.identity n = .positional (p.1.count n) := by
      obtain ⟨p, place⟩ := p
      cases p with
      | next => exact .inr rfl
      | numbered k =>
        change (if n ≤ k then k else n) = n ∨
          Identity.positional k = .positional (if n ≤ k then k else n)
        split_ifs
        · exact .inr rfl
        · exact .inl rfl
      | named sigil name => exact .inl rfl
    have hcons : countedBy n (p :: ps) = countedBy (p.1.count n) ps := rfl
    rw [hcons]
    rcases ih (p.1.count n) with hsame | hmem
    · rw [hsame]
      exact hstep.imp_right fun h => List.mem_cons.mpr (.inl h.symm)
    · exact .inr (List.mem_cons_of_mem _ hmem)

/-- The counter is at its end exactly behind the greatest number. -/
theorem countedBy_eq_greatest (h : CounterFits 0 ps) :
    countedBy 0 ps = greatestNumber ↔ .positional greatestNumber ∈ identitiesFrom 0 ps := by
  constructor
  · intro hend
    rcases countedBy_mem 0 ps with hsame | hmem
    · exact absurd (hsame.symm.trans hend) (by decide)
    · rwa [hend] at hmem
  · exact fun hmem => UInt32.le_antisymm (le_greatestNumber _) ((countedBy_ge h).2 _ hmem)

/-! ### Markers handled by a run -/

/-- The names behind some markers. -/
structure Names.Handled (s s' : Names) (hs : List (Parameter × Position)) : Prop where
  positional : s'.positional = countedBy s.positional hs
  parameters : s'.parameters = Projection.distinctFrom s.parameters (variablesFrom s.positional hs)

namespace Names

variable {s s' s₁ : Names} {hs hs' : List (Parameter × Position)}

theorem Handled.append (h : Handled s s₁ hs) (h' : Handled s₁ s' hs') :
    Handled s s' (hs ++ hs') where
  positional := by rw [h'.positional, h.positional, countedBy_append]
  parameters := by
    rw [h'.parameters, h.parameters, h.positional, ← Projection.distinctFrom_append,
      ← variablesFrom_append]

end Names

namespace Compile

variable {α β : Type} {ps qs : List (Parameter × Position)} {s : Names}

/-- What a run has handled of some markers: some from the left, which the counter fits, and all of
them if it succeeds. If it panics, a bare marker is next, and the counter is at its end. -/
structure HandledIn (s : Names) (ps : List (Parameter × Position))
    (r : EStateM.Result (Stop CompileError) Names α) (hs : List (Parameter × Position)) : Prop where
  front : hs <+: ps
  fits : CounterFits s.positional hs
  all : ∀ a s', r = .ok a s' → hs = ps
  stuck : ∀ s', r = .error .panic s' → ∃ place rest, ps = hs ++ (.next, place) :: rest ∧
    countedBy s.positional hs = greatestNumber
  names : Names.Handled s (namesBehind r) hs

/-- A step of which every run handles some of the markers. -/
def Handles (ps : List (Parameter × Position)) (x : Compile α) : Prop :=
  ∀ s, ∃ hs, HandledIn s ps (x.run s) hs

/-- A step that handles no marker, and does not panic. -/
theorem handles_none {x : Compile α} (hnames : ∀ s, Names.Handled s (namesBehind (x.run s)) [])
    (hsafe : ∀ s s', x.run s ≠ .error .panic s') : Handles [] x := fun s =>
  ⟨[], List.prefix_rfl, trivial, fun _ _ _ => rfl, fun s' h => (hsafe s s' h).elim, hnames s⟩

theorem handles_pure (a : α) : Handles [] (pure a) := handles_none (fun _ => ⟨rfl, rfl⟩) nofun

theorem handles_fault (e : CompileError) : Handles ps (throw (.fault e) : Compile α) := fun _ =>
  ⟨[], List.nil_prefix, trivial, nofun, nofun, rfl, rfl⟩

theorem Handles.bind {x : Compile α} {k : α → Compile β} (h : Handles ps x)
    (hk : ∀ a, Handles qs (k a)) : Handles (ps ++ qs) (x >>= k) := by
  intro s
  obtain ⟨hs, hhandled⟩ := h s
  cases hx : x.run s with
  | ok a s₁ =>
    obtain ⟨hs', hhandled'⟩ := hk a s₁
    rw [hx] at hhandled
    obtain rfl := hhandled.all a s₁ rfl
    have hcounted : s₁.positional = countedBy s.positional hs := hhandled.names.positional
    rw [run_bind_ok hx]
    refine ⟨hs ++ hs', (List.prefix_append_right_inj hs).mpr hhandled'.front,
      counterFits_append.mpr ⟨hhandled.fits, hcounted ▸ hhandled'.fits⟩, fun b s' hb => ?_,
      fun s' hb => ?_, hhandled.names.append hhandled'.names⟩
    · rw [hhandled'.all b s' hb]
    · obtain ⟨place, rest, rfl, hend⟩ := hhandled'.stuck s' hb
      rw [hcounted, ← countedBy_append] at hend
      exact ⟨place, rest, (List.append_assoc _ _ _).symm, hend⟩
  | error e s₁ =>
    rw [hx] at hhandled
    rw [run_bind_error hx]
    refine ⟨hs, hhandled.front.trans (List.prefix_append ps qs), hhandled.fits, nofun,
      fun s' hb => ?_, hhandled.names⟩
    cases hb
    obtain ⟨place, rest, rfl, hend⟩ := hhandled.stuck s₁ rfl
    exact ⟨place, rest ++ qs, by rw [List.append_assoc, List.cons_append], hend⟩

/-- A step in front that handles no marker. -/
theorem Handles.behind {x : Compile α} {k : α → Compile β} (h : Handles [] x)
    (hk : ∀ a, Handles ps (k a)) : Handles ps (x >>= k) := h.bind hk

/-- A step behind that handles no marker. -/
theorem Handles.before {x : Compile α} {k : α → Compile β} (h : Handles ps x)
    (hk : ∀ a, Handles [] (k a)) : Handles ps (x >>= k) := by
  rw [← List.append_nil ps]
  exact h.bind hk

theorem Handles.map {x : Compile α} {f : α → β} (h : Handles ps x) : Handles ps (f <$> x) := by
  rw [map_eq_pure_bind]
  exact h.before fun _ => handles_pure _

theorem handles_freshVariable : Handles [] freshVariable :=
  handles_none (fun _ => ⟨rfl, rfl⟩) nofun

theorem handles_need (h : Helper) : Handles [] (need h) :=
  handles_none (fun _ => ⟨rfl, rfl⟩) nofun

theorem handles_patternTest (value pattern : Filter) (negated : Bool) :
    Handles [] (patternTest value pattern negated) :=
  handles_none (fun _ => ⟨rfl, rfl⟩) nofun

theorem handles_membership (negated : Bool) (value : Filter) (items : List Filter) :
    Handles [] (membership negated value items) :=
  handles_none (fun _ => ⟨rfl, rfl⟩) nofun

theorem handles_range (negated : Bool) (value low high : Filter) :
    Handles [] (range negated value low high) :=
  handles_none (fun _ => ⟨rfl, rfl⟩) nofun

theorem handles_function (name : String) (n : Nat) (position : Position) :
    Handles [] (function name n position) := by
  unfold function
  split
  · exact handles_fault _
  · split_ifs
    · exact handles_pure _
    · exact handles_fault _

theorem run_parameter {p : Parameter} {place : Position} {name : String} {s s' : Names}
    (h : (parameterName p place).run s = .ok name s') :
    (parameter p place).run s = .ok (.variable (.named name)) (s'.use name) := run_bind_ok h

theorem handles_parameter (p : Parameter) (place : Position) :
    Handles [(p, place)] (parameter p place) := by
  intro s
  cases p with
  | next =>
    by_cases hend : s.positional = greatestNumber
    · have hrun : (parameter .next place).run s = .error .panic s :=
        run_bind_error ((run_next s place).trans (if_pos hend))
      rw [hrun]
      exact ⟨[], List.nil_prefix, trivial, nofun, fun _ _ => ⟨place, [], rfl, hend⟩, rfl, rfl⟩
    · rw [run_parameter ((run_next s place).trans (if_neg hend))]
      exact ⟨[(_, place)], List.prefix_rfl, ⟨fun _ => hend, trivial⟩, fun _ _ _ => rfl, nofun,
        rfl, rfl⟩
  | numbered n =>
    exact ⟨[(_, place)], List.prefix_rfl, ⟨nofun, trivial⟩, fun _ _ _ => rfl, nofun, rfl, rfl⟩
  | named sigil name =>
    by_cases hname : (!isVariableName name || isReserved name) = true
    · have hrun : (parameter (.named sigil name) place).run s =
          .error (.fault (.unsupported (.parameterName sigil name) place)) s :=
        run_bind_error ((run_named s sigil name place).trans (if_pos hname))
      rw [hrun]
      exact ⟨[], List.nil_prefix, trivial, nofun, nofun, rfl, rfl⟩
    · rw [run_parameter ((run_named s sigil name place).trans (if_neg hname))]
      exact ⟨[(_, place)], List.prefix_rfl, ⟨nofun, trivial⟩, fun _ _ _ => rfl, nofun, rfl, rfl⟩

theorem parameters_pattern? {e : Expr} {pattern : String} (h : pattern? e = some pattern) :
    e.parameters = [] := by
  obtain rfl := pattern?_eq h
  rfl

theorem handles_binary {op : BinaryOp} {l r : Expr} (hl : Handles l.parameters (expr l))
    (hr : Handles r.parameters (expr r)) :
    Handles (l.parameters ++ r.parameters) (expr (.binary op l r)) := by
  unfold expr
  split
  · exact hl.bind fun _ => hr.before fun _ => handles_pure _
  · exact hl.bind fun _ => hr.before fun _ => handles_pure _
  · exact (handles_need _).behind fun _ => hl.bind fun _ => hr.before fun _ => handles_pure _
  · split
    · next pattern hp =>
      rw [parameters_pattern? hp]
      exact hl.bind fun _ => handles_patternTest _ _ _
    · exact handles_fault _
  · split
    · next pattern hp =>
      rw [parameters_pattern? hp]
      exact hl.bind fun _ => handles_patternTest _ _ _
    · exact hl.bind fun _ => hr.before fun _ => handles_freshVariable.behind fun _ =>
        (handles_patternTest _ _ _).behind fun _ => handles_pure _
  · exact hl.bind fun _ => hr.before fun _ => handles_membership _ _ _

mutual

/-- **Every run** on an expression handles some of its markers, from the left, and all of them if
it succeeds; it panics only at a bare one that the counter does not fit. -/
theorem handles_expr : ∀ e : Expr, Handles e.parameters (expr e)
  | .literal _ => handles_pure _
  | .column _ => handles_pure _
  | .parameter p place => handles_parameter p place
  | .unary _ e => (handles_expr e).before fun _ => handles_pure _
  | .binary _ l r => handles_binary (handles_expr l) (handles_expr r)
  | .between _ value low high =>
    (handles_expr value).bind fun _ => (handles_expr low).bind fun _ =>
      (handles_expr high).before fun _ => handles_range _ _ _ _
  | .listed _ value items =>
    (handles_expr value).bind fun _ => (handles_exprs items).before fun _ =>
      handles_membership _ _ _
  | .call name args position =>
    (handles_function name _ position).behind fun _ => (handles_arguments args).before fun _ =>
      handles_pure _
  | .callStar _ _ => handles_fault _
  | .existsRow _ _ => handles_fault _

theorem handles_exprs : ∀ es : List Expr, Handles (parametersOf es) (exprs es)
  | [] => handles_pure _
  | e :: es => (handles_expr e).bind fun _ => (handles_exprs es).before fun _ => handles_pure _

theorem handles_arguments : ∀ es : List Expr, Handles (parametersOf es) (arguments es)
  | [] => handles_pure _
  | e :: es => (handles_expr e).bind fun _ => handles_freshVariable.behind fun _ =>
    (handles_arguments es).before fun _ => handles_pure _

end

/-! ### Expressions one after another -/

/-- The markers of an expression that compiling it has handled. If it was compiled, they were
compiled to their variables: with those in their place the filter is the same. -/
structure Takes (s : Names) (e : Expr) (hs : List (Parameter × Position)) : Prop extends
    HandledIn s e.parameters ((expr e).run s) hs where
  compiled : ∀ f s', (expr e).run s = .ok f s' →
    (expr (e.resolved s.positional)).run (s.count 0) = .ok f (s'.count 0)

/-- **The markers that one compiler has handled** of expressions, one after another, some of which
may fail or panic. -/
inductive HandledBy : Names → List Expr → List (Parameter × Position) → Prop
  | nil (s : Names) : HandledBy s [] []
  | cons {s : Names} {e : Expr} {es : List Expr} {hs hs' : List (Parameter × Position)}
      (h : Takes s e hs) (hes : HandledBy (namesBehind ((expr e).run s)) es hs') :
      HandledBy s (e :: es) (hs ++ hs')

theorem exists_takes (s : Names) (e : Expr) : ∃ hs, Takes s e hs := by
  obtain ⟨hs, hhandled⟩ := handles_expr e s
  exact ⟨hs, hhandled, fun f s' h => ((compiled_of_run e f s s' h).resolved 0).runs⟩

theorem takes_of_run {s s' : Names} {e : Expr} {f : Filter} (h : (expr e).run s = .ok f s') :
    Takes s e e.parameters := by
  obtain ⟨hs, htakes⟩ := exists_takes s e
  rw [← htakes.all f s' h]
  exact htakes

/-- **What has compiled** has markers that the counter fits. -/
theorem counterFits_of_run {e : Expr} {f : Filter} {s' : Names} (h : (expr e).run s = .ok f s') :
    CounterFits s.positional e.parameters := (takes_of_run h).fits

theorem exists_handledBy (s : Names) (es : List Expr) : ∃ hs, HandledBy s es hs := by
  induction es generalizing s with
  | nil => exact ⟨[], .nil s⟩
  | cons e es ih =>
    obtain ⟨hs, htakes⟩ := exists_takes s e
    obtain ⟨hs', hrest⟩ := ih (namesBehind ((expr e).run s))
    exact ⟨hs ++ hs', .cons htakes hrest⟩

/-- The counter and the parameters are those behind the markers that were handled. -/
theorem HandledBy.names {s : Names} {es : List Expr} {hs : List (Parameter × Position)}
    (h : HandledBy s es hs) : Names.Handled s (namesAfter s es) hs := by
  induction h with
  | nil s => exact ⟨rfl, rfl⟩
  | cons h _ ih => exact h.names.append ih

/-- The counter fits the markers that were handled. -/
theorem HandledBy.fits {s : Names} {es : List Expr} {hs : List (Parameter × Position)}
    (h : HandledBy s es hs) : CounterFits s.positional hs := by
  induction h with
  | nil s => trivial
  | cons h _ ih => exact counterFits_append.mpr ⟨h.fits, h.names.positional ▸ ih⟩

/-- A bare marker that the counter fits is given a number that is greater than all before it. -/
theorem fresh_of_fits {before after : List (Parameter × Position)} {place : Position}
    (h : CounterFits 0 (before ++ (.next, place) :: after)) :
    ∃ number, (identitiesFrom 0 (before ++ (.next, place) :: after))[before.length]? =
        some (.positional number) ∧
      ∀ m, .positional m ∈ identitiesFrom 0 before → m < number := by
  obtain ⟨hbefore, hnext, -⟩ := counterFits_append.mp h
  refine ⟨countedBy 0 before + 1, ?_, fun m hm => ?_⟩
  · have hlength : (identitiesFrom 0 before).length = before.length :=
      length_identitiesFrom 0 before
    rw [identitiesFrom_append, ← hlength, List.getElem?_append_right (Nat.le_refl _), Nat.sub_self]
    rfl
  · exact UInt32.lt_of_le_of_lt ((countedBy_ge hbefore).2 m hm) (lt_succ_of_ne (hnext rfl))

/-- **Bare markers** of any expressions that one compiler handles, one after another, are given
numbers that are greater than all positional numbers handled before them. An expression behind them
panics only at a bare marker, where the greatest number was handled before; and there it does. -/
theorem markers_fresh (es : List Expr) :
    ∃ hs, HandledBy {} es hs ∧ Names.Handled {} (namesAfter {} es) hs ∧
      (∀ before place after, hs = before ++ (.next, place) :: after →
        ∃ number, (identitiesFrom 0 hs)[before.length]? = some (.positional number) ∧
          ∀ m, .positional m ∈ identitiesFrom 0 before → m < number) ∧
      (∀ e s', (expr e).run (namesAfter {} es) = .error .panic s' → ∃ here place rest,
        e.parameters = here ++ (.next, place) :: rest ∧
          .positional greatestNumber ∈ identitiesFrom 0 (hs ++ here)) ∧
      ∀ place, .positional greatestNumber ∈ identitiesFrom 0 hs →
        (expr (.parameter .next place)).run (namesAfter {} es) =
          .error .panic (namesAfter {} es) := by
  obtain ⟨hs, hhandled⟩ := exists_handledBy {} es
  have hfits : CounterFits 0 hs := hhandled.fits
  have hcounter : (namesAfter {} es).positional = countedBy 0 hs := hhandled.names.positional
  refine ⟨hs, hhandled, hhandled.names, ?_, fun e s' hpanic => ?_, fun place hmem => ?_⟩
  · rintro before place after rfl
    exact fresh_of_fits hfits
  · obtain ⟨here, htakes⟩ := exists_takes (namesAfter {} es) e
    obtain ⟨place, rest, hsplit, hend⟩ := htakes.stuck s' hpanic
    have hhere := htakes.fits
    rw [hcounter] at hend hhere
    rw [← countedBy_append] at hend
    exact ⟨here, place, rest, hsplit,
      (countedBy_eq_greatest (counterFits_append.mpr ⟨hfits, hhere⟩)).mp hend⟩
  · have hend := hcounter.trans ((countedBy_eq_greatest hfits).mpr hmem)
    exact run_bind_error ((run_next _ place).trans (if_pos hend))

/-- Behind the greatest number, which a marker can have, a bare marker is given none: it panics. -/
theorem marker_not_fresh :
    let place : Position := ⟨0, 1, 1⟩
    let last : Expr := .parameter (.numbered greatestNumber) place
    let bare : Expr := .parameter .next place
    (tokenize "?4294967295" = .ok [⟨.parameter (.numbered greatestNumber), place, 11⟩,
      ⟨.endOfInput, ⟨11, 1, 12⟩, 11⟩]) ∧
      (∃ s', (expr bare).run (namesAfter {} [last]) = .error .panic s') ∧
      ¬ ∀ (es : List Expr) (place : Position), ∃ hs number s', HandledBy {} es hs ∧
        (expr (.parameter .next place)).run (namesAfter {} es) =
          .ok (.variable (.named (positionalName number))) s' ∧
        ∀ m, .positional m ∈ identitiesFrom 0 hs → m < number := by
  intro place last bare
  have hpanic : (expr bare).run (namesAfter {} [last]) = .error .panic (namesAfter {} [last]) := rfl
  refine ⟨by decide +kernel, ⟨_, hpanic⟩, fun h => ?_⟩
  obtain ⟨hs, number, s', -, hrun, -⟩ := h [last] place
  cases hpanic.symm.trans hrun

end Compile

end RecordQuery
