import Mathlib.Data.List.Forall2
import RecordQuery.Engine.Basic
import RecordQuery.Proofs.Plan.Clauses
import RecordQuery.Proofs.Program.Closed
import RecordQuery.Proofs.Program.Uses

/-! # Answers of an engine

A query has all of its rows for an answer, or one error, or it panics where compiling does. The
interpreter is started once if the query has a program and all parameters of the program have
values, and it is not started otherwise.

* `Engine.Reached.compile_eq`: an engine that was given no other programs compiles a query to the
  program of its text, with a cache or without one.
* `Bindings.arguments_ok_iff`, `Bindings.arguments_error_iff`: the values of parameters are handed
  over in their order, or the first parameter without a value is an error.
* `Program.result_ok_iff`, `Program.result_error_iff`: which replies are rows, and which error each
  other one is (`Reply.Fails`).
* `Engine.query_all_or_nothing`: so the answer is as above. -/

namespace RecordQuery

/-! ### States of an engine -/

/-- A cache that stores programs of queries has the program of each query. -/
theorem CacheUse.Stores.compile_eq {c : Cache} {qs : List String} (h : Stores c qs) (q : String) :
    (c.compile q).1 = Program.ofText q := by
  unfold Cache.compile
  split
  · rfl
  · next k hk =>
    split
    · next p hp =>
      obtain ⟨q', -, hk', hp'⟩ := (h.mem_iff k p).mp (Cache.mem_of_get? hp)
      exact (Cache.ofText_of_key hk' hk hp').symm
    · split
      · next p hp => exact hp.symm
      · next e he => exact he.symm

namespace Engine

/-- **The states of an engine**: how it is made, and what queries make of it. -/
inductive Reached : Engine → Prop
  | start (binary : String) : Reached (ofBinary binary)
  | withCache {e : Engine} (h : Reached e) : Reached e.withCache
  | withBindings {e : Engine} (h : Reached e) (b : Bindings) : Reached (e.withBindings b)
  | bind {e : Engine} (h : Reached e) (name : String) (value : Json) : Reached (e.bind name value)
  | compile {e : Engine} (h : Reached e) (q : String) : Reached (e.compile q).2
  | query {e : Engine} (h : Reached e) (q : String) (records : Records) :
      Reached (e.query q records).2

/-- The cache of an engine holds programs of queries, each under the key of its query. -/
def Sound (e : Engine) : Prop := ∀ c ∈ e.cache, ∃ qs, CacheUse.Stores c qs

variable {e : Engine} {q : String} {records : Records}

theorem Sound.compile (h : e.Sound) (q : String) : (e.compile q).2.Sound := by
  unfold Engine.compile
  split
  · exact h
  · next c hc =>
    obtain ⟨qs, hqs⟩ := h c hc
    intro c' hc'
    obtain rfl := Option.some.inj hc'
    exact ⟨q :: qs, hqs.cons q⟩

/-- Answering a query changes an engine as compiling it does. -/
theorem query_engine (e : Engine) (q : String) (records : Records) :
    (e.query q records).2 = (e.compile q).2 := by
  unfold query
  split <;> next h => rw [h]

/-- **Every state of an engine is sound.** -/
theorem Reached.sound (h : e.Reached) : e.Sound := by
  induction h with
  | start => exact fun c hc => absurd hc (Option.not_mem_none c)
  | withCache =>
    intro c hc
    obtain rfl := Option.some.inj hc
    exact ⟨[], CacheUse.stores_serve []⟩
  | withBindings _ _ ih => exact ih
  | bind _ _ _ ih => exact ih
  | compile _ q ih => exact ih.compile q
  | query _ q records ih =>
    rw [query_engine]
    exact ih.compile q

/-- A cache is not noticed. -/
theorem Reached.compile_eq (h : e.Reached) (q : String) : (e.compile q).1 = Program.ofText q := by
  unfold Engine.compile
  split
  · rfl
  · next c hc =>
    obtain ⟨qs, hqs⟩ := h.sound c hc
    exact hqs.compile_eq q

end Engine

/-! ### Values of parameters -/

namespace Bindings

variable {b : Bindings} {names : List String}

/-- The arguments that hand over a value. -/
def handOver (name : String) (value : Json) : List String := ["--argjson", name, value.compact]

/-- Whether a parameter has no value. -/
def unbound (b : Bindings) (name : String) : Bool := (b.value? name).isNone

/-- **The values of all parameters** are handed over, in the order of the parameters. -/
theorem arguments_ok_iff {args : List String} : b.arguments names = .ok args ↔
    ∃ values, List.Forall₂ (fun name v => b.value? name = some v) names values ∧
      args = (List.zipWith handOver names values).flatten := by
  induction names generalizing args with
  | nil =>
    constructor
    · rintro ⟨⟩
      exact ⟨[], .nil, rfl⟩
    · rintro ⟨values, hvalues, rfl⟩
      cases hvalues
      rfl
  | cons name names ih =>
    unfold arguments
    cases hv : b.value? name with
    | none =>
      refine ⟨nofun, ?_⟩
      rintro ⟨values, hvalues, -⟩
      cases hvalues with
      | cons h _ => cases hv.symm.trans h
    | some v =>
      constructor
      · intro h
        obtain ⟨rest, hrest, rfl⟩ := ok_of_map h
        obtain ⟨values, hvalues, rfl⟩ := ih.mp hrest
        exact ⟨v :: values, .cons hv hvalues, rfl⟩
      · rintro ⟨values, hvalues, rfl⟩
        cases hvalues with
        | @cons _ w _ values hw hvalues =>
          cases hv.symm.trans hw
          have hrest := ih.mpr ⟨values, hvalues, rfl⟩
          dsimp only
          rw [hrest]
          rfl

/-- **The first parameter without a value** is an error. -/
theorem arguments_error_iff {f : ExecutionError} : b.arguments names = .error f ↔
    ∃ name, names.find? b.unbound = some name ∧ f = .unbound name := by
  induction names with
  | nil => exact ⟨nofun, by rintro ⟨name, hname, -⟩; cases hname⟩
  | cons name names ih =>
    unfold arguments
    cases hv : b.value? name with
    | none =>
      have hfirst : (name :: names).find? b.unbound = some name :=
        List.find?_cons_of_pos (by rw [unbound, hv]; rfl)
      rw [hfirst]
      exact ⟨fun h => ⟨name, rfl, (Except.error.inj h).symm⟩, by rintro ⟨_, ⟨⟩, rfl⟩; rfl⟩
    | some v =>
      have hrest : (name :: names).find? b.unbound = names.find? b.unbound :=
        List.find?_cons_of_neg (by rw [unbound, hv]; exact Bool.false_ne_true)
      rw [hrest, ← ih]
      dsimp only
      constructor
      · exact error_of_map
      · intro h
        rw [h]
        rfl

end Bindings

/-! ### Replies -/

/-- The JSON value that an output spells. -/
def Json.ofOutput? (output : List UInt8) : Option Json := (Utf8.strict? output).bind read?

/-- The keys of the first row, if there is one. -/
def firstKeys (rows : List Row) : List String := (rows.head?.map fun row => row.map Prod.fst).getD []

/-- **The errors of replies** that hold no rows. -/
inductive Reply.Fails (binary : String) : Reply → ExecutionError → Prop
  | notStarted (reason : String) :
      Fails binary (.notStarted reason) (.notStarted binary reason)
  | failed {code : UInt8} (output diagnostics : List UInt8) (hcode : code ≠ 0) :
      Fails binary (.finished code output diagnostics) (.failed code (Utf8.lenient diagnostics))
  | undecodable {output : List UInt8} (diagnostics : List UInt8)
      (h : Json.ofOutput? output = none) : Fails binary (.finished 0 output diagnostics) .undecodable
  | noArray {output : List UInt8} (diagnostics : List UInt8) {v : Json}
      (h : Json.ofOutput? output = some v) (hv : ∀ items, v ≠ .array items) :
      Fails binary (.finished 0 output diagnostics) (.noArray v)
  | noObject {output : List UInt8} (diagnostics : List UInt8) {rows : List Row} {v : Json}
      {items : List Json}
      (h : Json.ofOutput? output = some (.array (rows.map .object ++ v :: items)))
      (hv : ∀ row, v ≠ .object row) : Fails binary (.finished 0 output diagnostics) (.noObject v)

theorem rowsOf_cons_other {v : Json} {items : List Json} (hv : ∀ row, v ≠ .object row) :
    rowsOf (v :: items) = .error (.noObject v) := by
  cases v with
  | object row => exact absurd rfl (hv row)
  | _ => rfl

theorem rowsOf_map (rows : List Row) : rowsOf (rows.map .object) = .ok rows := by
  induction rows with
  | nil => rfl
  | cons row rows ih =>
    rw [List.map_cons, rowsOf, ih]
    rfl

theorem rowsOf_map_append {v : Json} (rows : List Row) (items : List Json)
    (hv : ∀ row, v ≠ .object row) : rowsOf (rows.map .object ++ v :: items) = .error (.noObject v) := by
  induction rows with
  | nil => exact rowsOf_cons_other hv
  | cons row rows ih =>
    rw [List.map_cons, List.cons_append, rowsOf, ih]
    rfl

/-- Items are all objects, or one of them is the first that is none. -/
theorem rows_or_first (items : List Json) : (∃ rows : List Row, items = rows.map .object) ∨
    ∃ (rows : List Row) (v : Json) (rest : List Json), items = rows.map .object ++ v :: rest ∧
      ∀ row, v ≠ .object row := by
  induction items with
  | nil => exact .inl ⟨[], rfl⟩
  | cons v items ih =>
    by_cases hv : ∃ row, v = .object row
    · obtain ⟨row, rfl⟩ := hv
      obtain ⟨rows, rfl⟩ | ⟨rows, w, rest, rfl, hw⟩ := ih
      · exact .inl ⟨row :: rows, rfl⟩
      · exact .inr ⟨row :: rows, w, rest, rfl, hw⟩
    · exact .inr ⟨[], v, items, rfl, fun row h => hv ⟨row, h⟩⟩

theorem decodeRows_eq (output : List UInt8) : decodeRows output =
    match Json.ofOutput? output with
    | none => .error .undecodable
    | some (.array items) => rowsOf items
    | some v => .error (.noArray v) := rfl

theorem decodeRows_other {output : List UInt8} {v : Json} (h : Json.ofOutput? output = some v)
    (hv : ∀ items, v ≠ .array items) : decodeRows output = .error (.noArray v) := by
  rw [decodeRows_eq, h]
  cases v with
  | array items => exact absurd rfl (hv items)
  | _ => rfl

theorem decodeRows_array {output : List UInt8} {items : List Json}
    (h : Json.ofOutput? output = some (.array items)) : decodeRows output = rowsOf items := by
  rw [decodeRows_eq, h]

namespace Program

variable {p : Program} {binary : String} {reply : Reply}

/-- The errors of replies are what is made of them. -/
theorem result_of_fails {f : ExecutionError} (h : reply.Fails binary f) :
    p.result binary reply = .error f := by
  cases h with
  | notStarted reason => rfl
  | failed output diagnostics hcode => exact if_neg hcode
  | undecodable diagnostics h =>
    rw [result, if_pos rfl, decodeRows_eq, h]
    rfl
  | noArray diagnostics h hv =>
    rw [result, if_pos rfl, decodeRows_other h hv]
    rfl
  | noObject diagnostics h hv =>
    rw [result, if_pos rfl, decodeRows_array h, rowsOf_map_append _ _ hv]
    rfl

theorem result_of_rows {output : List UInt8} (diagnostics : List UInt8) {rows : List Row}
    (h : Json.ofOutput? output = some (.array (rows.map .object))) :
    p.result binary (.finished 0 output diagnostics) =
      .ok ⟨p.columns.getD (firstKeys rows), rows⟩ := by
  rw [result, if_pos rfl, decodeRows_array h, rowsOf_map]
  rfl

/-- **A reply holds rows or fails**, in one of the ways there are. -/
theorem rows_or_fails (binary : String) (reply : Reply) :
    (∃ output diagnostics rows, reply = .finished 0 output diagnostics ∧
      Json.ofOutput? output = some (.array (List.map .object rows))) ∨
    ∃ f, reply.Fails binary f := by
  cases reply with
  | notStarted reason => exact .inr ⟨_, .notStarted reason⟩
  | finished code output diagnostics =>
    by_cases hcode : code = 0
    · subst hcode
      cases hv : Json.ofOutput? output with
      | none => exact .inr ⟨_, .undecodable diagnostics hv⟩
      | some v =>
        by_cases harray : ∃ items, v = .array items
        · obtain ⟨items, rfl⟩ := harray
          obtain ⟨rows, rfl⟩ | ⟨rows, w, rest, rfl, hw⟩ := rows_or_first items
          · exact .inl ⟨output, diagnostics, rows, rfl, hv⟩
          · exact .inr ⟨_, .noObject diagnostics hv hw⟩
        · exact .inr ⟨_, .noArray diagnostics hv fun items h => harray ⟨items, h⟩⟩
    · exact .inr ⟨_, .failed output diagnostics hcode⟩

/-- **The rows of a reply** are all elements of an array of objects. -/
theorem result_ok_iff {table : Table} : p.result binary reply = .ok table ↔
    ∃ output diagnostics rows, reply = .finished 0 output diagnostics ∧
      Json.ofOutput? output = some (.array (List.map .object rows)) ∧
      table = ⟨p.columns.getD (firstKeys rows), rows⟩ := by
  constructor
  · intro h
    obtain ⟨output, diagnostics, rows, rfl, hrows⟩ | ⟨f, hf⟩ := rows_or_fails binary reply
    · refine ⟨output, diagnostics, rows, rfl, hrows, ?_⟩
      exact Except.ok.inj (h.symm.trans (result_of_rows diagnostics hrows))
    · cases h.symm.trans (result_of_fails hf)
  · rintro ⟨output, diagnostics, rows, rfl, hrows, rfl⟩
    exact result_of_rows diagnostics hrows

theorem result_error_iff {f : ExecutionError} :
    p.result binary reply = .error f ↔ reply.Fails binary f := by
  refine ⟨fun h => ?_, result_of_fails⟩
  obtain ⟨output, diagnostics, rows, rfl, hrows⟩ | ⟨g, hg⟩ := rows_or_fails binary reply
  · cases h.symm.trans (result_of_rows diagnostics hrows)
  · obtain rfl := Except.error.inj (h.symm.trans (result_of_fails hg))
    exact hg

end Program

/-! ### Answers -/

section MapError
variable {ε ε' α : Type} {x : Except ε α} {f : ε → ε'}

theorem mapError_ok_iff {a : α} : x.mapError f = .ok a ↔ x = .ok a := by
  cases x <;> simp [Except.mapError]

theorem mapError_error_iff {b : ε'} : x.mapError f = .error b ↔ ∃ a, x = .error a ∧ f a = b := by
  cases x <;> simp [Except.mapError]

end MapError

/-- A run that stops, without the interpreter. -/
structure Exchange.Refuses {α : Type} (x : Exchange (Except (Stop QueryError) α))
    (stop : Stop QueryError) : Prop where
  call : x.call? = none
  answer : ∀ interpreter, x.answer interpreter = .error stop

/-- **An answer of the interpreter**, which is started once: with the values of the parameters and
the program, and with the records as a file or as a text. Its reply is all rows, or one error. -/
structure Program.Runs (p : Program) (e : Engine) (records : Records) (values : List Json)
    (call : Invocation) (x : Exchange (Except (Stop QueryError) Table)) : Prop where
  started : x.call? = some call
  binary : call.binary = e.binary
  arguments : call.arguments =
    "-c" :: (List.zipWith Bindings.handOver p.parameters values).flatten ++ p.text ::
      records.arguments
  input : call.input = records.input
  rows : ∀ interpreter table, x.answer interpreter = .ok table ↔
    ∃ output diagnostics rows, interpreter call = .finished 0 output diagnostics ∧
      Json.ofOutput? output = some (.array (List.map .object rows)) ∧
      table = ⟨p.columns.getD (firstKeys rows), rows⟩
  failure : ∀ interpreter stop, x.answer interpreter = .error stop ↔
    ∃ cause, stop = .fault (.execution cause) ∧ (interpreter call).Fails e.binary cause

namespace Engine

variable {e : Engine} {q : String} {records : Records} {p : Program}

/-- Compiling a query changes the cache of an engine only. -/
theorem compile_engine (e : Engine) (q : String) :
    (e.compile q).2.binary = e.binary ∧ (e.compile q).2.bindings = e.bindings := by
  unfold compile
  split <;> exact ⟨rfl, rfl⟩

theorem query_eq (e : Engine) (q : String) (records : Records) : (e.query q records).1 =
    match (e.compile q).1 with
    | .error stop => .done (.error (stop.map .compile))
    | .ok p => (p.run e.binary e.bindings records).map
        (·.mapError fun f => .fault (.execution f)) := by
  obtain ⟨hbinary, hbindings⟩ := compile_engine e q
  unfold query
  generalize e.compile q = compiled at hbinary hbindings ⊢
  obtain ⟨r, e'⟩ := compiled
  cases r with
  | error stop => rfl
  | ok p =>
    dsimp only at hbinary hbindings ⊢
    rw [hbinary, hbindings]

/-- A query that has no program is refused. -/
theorem refuses_of_error {stop : Stop CompileError} (h : (e.compile q).1 = .error stop) :
    (e.query q records).1.Refuses (stop.map .compile) := by
  rw [query_eq, h]
  exact ⟨rfl, fun _ => rfl⟩

/-- A program is refused if one of its parameters has no value. -/
theorem refuses_of_unbound {name : String} (h : (e.compile q).1 = .ok p)
    (hname : p.parameters.find? e.bindings.unbound = some name) :
    (e.query q records).1.Refuses (.fault (.execution (.unbound name))) := by
  have hargs : e.bindings.arguments p.parameters = .error (.unbound name) :=
    Bindings.arguments_error_iff.mpr ⟨name, hname, rfl⟩
  rw [query_eq, h]
  dsimp only
  rw [Program.run, Program.invocation, hargs]
  exact ⟨rfl, fun _ => rfl⟩

/-- A program is run if all of its parameters have values. -/
theorem runs_of_bound (h : (e.compile q).1 = .ok p)
    (hbound : p.parameters.find? e.bindings.unbound = none) : ∃ values call,
      List.Forall₂ (fun name v => e.bindings.value? name = some v) p.parameters values ∧
        p.Runs e records values call (e.query q records).1 := by
  cases hargs : e.bindings.arguments p.parameters with
  | error f =>
    obtain ⟨name, hname, -⟩ := Bindings.arguments_error_iff.mp hargs
    cases hbound.symm.trans hname
  | ok args =>
    obtain ⟨values, hvalues, rfl⟩ := Bindings.arguments_ok_iff.mp hargs
    let call : Invocation := ⟨e.binary, ["-c"] ++
      (List.zipWith Bindings.handOver p.parameters values).flatten ++ [p.text] ++
      records.arguments, records.input⟩
    have hask : (e.query q records).1 =
        .ask call fun reply =>
          (p.result e.binary reply).mapError fun f => .fault (.execution f) := by
      rw [query_eq, h]
      dsimp only
      rw [Program.run, Program.invocation, hargs]
      rfl
    refine ⟨values, call, hvalues, ?_⟩
    rw [hask]
    exact {
      started := rfl
      binary := rfl
      arguments := by simp [call]
      input := rfl
      rows := fun interpreter table => mapError_ok_iff.trans Program.result_ok_iff
      failure := fun interpreter stop => by
        refine mapError_error_iff.trans (exists_congr fun cause => ?_)
        rw [Program.result_error_iff, and_comm, eq_comm] }

/-- **A query is answered by all of its rows, or by one error.** In any state of an engine, a query
without a program is refused with its fault, or panics, and the program of a query is refused with
the first of its parameters that has no value. If they all have values, the interpreter is started
once, with a value for each parameter and no others, and what it replies is all rows or one error.
Programs are those of the texts of queries, whose parameters are distinct; they leave the columns
open only for a single star. -/
theorem query_all_or_nothing (e : Engine) (q : String) (records : Records) :
    (∀ f, (e.compile q).1 = .error (.fault f) →
      (e.query q records).1.Refuses (.fault (.compile f))) ∧
    ((e.compile q).1 = .error .panic → (e.query q records).1.Refuses .panic) ∧
    (∀ p, (e.compile q).1 = .ok p →
      (∀ name, p.parameters.find? e.bindings.unbound = some name →
        (e.query q records).1.Refuses (.fault (.execution (.unbound name)))) ∧
      (p.parameters.find? e.bindings.unbound = none → ∃ values call,
        List.Forall₂ (fun name v => e.bindings.value? name = some v) p.parameters values ∧
          p.Runs e records values call (e.query q records).1)) ∧
    (e.Reached → (e.compile q).1 = Program.ofText q) ∧
    ∀ p, Program.ofText q = .ok p → p.parameters.Nodup ∧ (p.columns = none ↔
      ∃ st position, Statement.ofText q = .ok st ∧ st.columns = [.star position]) := by
  refine ⟨fun f => refuses_of_error, refuses_of_error,
    fun p hp => ⟨fun name => refuses_of_unbound hp, runs_of_bound hp⟩, fun h => h.compile_eq q,
    fun p hp => ?_⟩
  obtain ⟨st, hst, hcompiled⟩ := Program.ofStatement_of_ofText hp
  obtain ⟨projection, s, s', hfrom, hcolumns, -⟩ := Program.compiledFrom_names hcompiled
  obtain ⟨hparameters, -⟩ := Program.closed_ofStatement hcompiled
  refine ⟨hparameters ▸ Projection.nodup_distinctFrom List.nodup_nil, ?_⟩
  rw [hcolumns, Projection.labels_eq_none_iff hfrom.columns, hst]
  constructor
  · rintro ⟨position, h⟩
    exact ⟨st, position, rfl, h⟩
  · rintro ⟨_, position, ⟨⟩, h⟩
    exact ⟨position, h⟩

/-- A value that the query does not name is not handed over. -/
theorem query_all_or_nothing_star :
    let e := ((ofBinary "jq").withCache.bind "other" .null).bind "min" (.integer 5)
    let q := "SELECT * WHERE a = :min"
    let records := Records.text "[]"
    let call : Invocation := ⟨"jq", ["-c", "--argjson", "min", "5",
      "[.[] | select((.[\"a\"] == $min))]"], "[]"⟩
    let output := ['[', '\x7b', '"', 'a', '"', ':', '5', '\x7d', ']'].map fun c => c.toUInt8
    e.Reached ∧ (e.query q records).1.call? = some call ∧
      (∀ interpreter : Interpreter, interpreter call = .finished 0 output [] →
        (e.query q records).1.answer interpreter = .ok ⟨["a"], [[("a", .integer 5)]]⟩) ∧
      ∀ interpreter : Interpreter, interpreter call = .finished 5 output [] →
        (e.query q records).1.answer interpreter =
          .error (.fault (.execution (.failed 5 ""))) := by
  intro e q records call output
  have hreached : e.Reached := ((Reached.start "jq").withCache.bind "other" .null).bind "min" _
  obtain ⟨p, hp, hparts⟩ := ok_of_any (r := Program.ofText q) (p := fun p => decide
    (p.parameters = ["min"] ∧ p.text = "[.[] | select((.[\"a\"] == $min))]" ∧ p.columns = none))
    (by decide +kernel)
  obtain ⟨hparameters, htext, hcolumns⟩ := of_decide_eq_true hparts
  obtain ⟨-, -, hall, hcompile, -⟩ := query_all_or_nothing e q records
  obtain ⟨-, hruns⟩ := hall p ((hcompile hreached).trans hp)
  obtain ⟨values, call', hvalues, hrun⟩ := hruns (by rw [hparameters]; rfl)
  have harguments := hrun.arguments
  rw [hparameters, htext] at harguments
  obtain rfl : call' = call := by
    rw [hparameters] at hvalues
    cases hvalues with
    | cons hmin hnone =>
      cases hnone
      obtain rfl := Option.some.inj hmin
      obtain ⟨binary, arguments, input⟩ := call'
      obtain rfl : binary = "jq" := hrun.binary
      obtain rfl : input = "[]" := hrun.input
      exact congrArg (Invocation.mk "jq" · "[]") harguments
  refine ⟨hreached, hrun.started, fun interpreter h => ?_, fun interpreter h => ?_⟩
  · refine (hrun.rows _ _).mpr ⟨output, [], [[("a", .integer 5)]], h, rfl, ?_⟩
    rw [hcolumns]
    rfl
  · exact (hrun.failure _ _).mpr ⟨_, rfl, h ▸ .failed output [] (by decide)⟩

end Engine

end RecordQuery
