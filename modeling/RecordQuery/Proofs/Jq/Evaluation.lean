import RecordQuery.Json.Value
import RecordQuery.Proofs.Jq.Syntax

/-! # What a jq program does

A program maps an input to outputs, one after another, and may fail behind some of them
(`Outputs`). Arithmetic, the comparisons and the order of values are given from outside
(`Operations`); what else a program of the part of jq in `Jq` does is the documented behaviour. -/

namespace RecordQuery

/-- What jq is asked for about values: operators other than `and` and `or`, which may fail, and the
order in which values are sorted. -/
structure Operations where
  operation : Operator → Json → Json → Option Json
  negate : Json → Option Json
  le : Json → Json → Bool

/-- Outputs one after another, and whether there is an error behind them. -/
structure Outputs (α : Type) where
  values : List α
  failed : Bool

namespace Outputs

variable {α β γ : Type}

/-- One output. -/
def one (a : α) : Outputs α := ⟨[a], false⟩

/-- An error. -/
def fail : Outputs α := ⟨[], true⟩

/-- One output, or an error. -/
def ofOption : Option α → Outputs α
  | none => fail
  | some a => one a

/-- Outputs behind other ones, if those do not fail. -/
def append (r r' : Outputs α) : Outputs α :=
  if r.failed then r else ⟨r.values ++ r'.values, r'.failed⟩

/-- The outputs for values one after another, and an error behind them if there is one. -/
def bindAll (k : α → Outputs β) (failed : Bool) : List α → Outputs β
  | [] => ⟨[], failed⟩
  | a :: as => (k a).append (bindAll k failed as)

/-- What is put out for each output. -/
def bind (r : Outputs α) (k : α → Outputs β) : Outputs β := bindAll k r.failed r.values

/-- All outputs, if there is no error. -/
def all? (r : Outputs α) : Option (List α) := if r.failed then none else some r.values

@[simp] theorem append_fail (r : Outputs α) : fail.append r = fail := rfl

@[simp] theorem append_none (r : Outputs α) : r.append ⟨[], false⟩ = r := by
  obtain ⟨values, failed⟩ := r
  cases failed <;> simp [append]

theorem append_assoc (r r' r'' : Outputs α) :
    (r.append r').append r'' = r.append (r'.append r'') := by
  obtain ⟨values, failed⟩ := r
  obtain ⟨values', failed'⟩ := r'
  cases failed <;> cases failed' <;> simp [append]

@[simp] theorem bind_one (a : α) (k : α → Outputs β) : (one a).bind k = k a := append_none _

@[simp] theorem bind_fail (k : α → Outputs β) : fail.bind k = fail := rfl

theorem bindAll_failed (k : α → Outputs β) (as : List α) : (bindAll k true as).failed = true := by
  induction as with
  | nil => rfl
  | cons a as ih =>
    rw [bindAll, append]
    split
    · assumption
    · exact ih

theorem append_failed {r : Outputs α} (h : r.failed = true) (r' : Outputs α) : r.append r' = r :=
  if_pos h

theorem bindAll_append (k : α → Outputs β) (as bs : List α) (failed : Bool) :
    bindAll k failed (as ++ bs) = (bindAll k false as).append (bindAll k failed bs) := by
  induction as with
  | nil => rfl
  | cons a as ih => rw [List.cons_append, bindAll, ih, bindAll, append_assoc]

theorem bind_append (r r' : Outputs α) (k : α → Outputs β) :
    (r.append r').bind k = (r.bind k).append (r'.bind k) := by
  obtain ⟨values, failed⟩ := r
  cases failed with
  | true => exact (append_failed (bindAll_failed k values) _).symm
  | false => exact bindAll_append k values r'.values r'.failed

theorem bind_bind (r : Outputs α) (k : α → Outputs β) (k' : β → Outputs γ) :
    (r.bind k).bind k' = r.bind fun a => (k a).bind k' := by
  obtain ⟨values, failed⟩ := r
  induction values with
  | nil => cases failed <;> rfl
  | cons a values ih =>
    change ((k a).append (bind ⟨values, failed⟩ k)).bind k' = ((k a).bind k').append _
    rw [bind_append, ih]
    rfl

theorem one_bind (r : Outputs α) : r.bind one = r := by
  obtain ⟨values, failed⟩ := r
  induction values with
  | nil => rfl
  | cons a values ih =>
    change (one a).append (bind ⟨values, failed⟩ one) = _
    rw [ih]
    rfl

/-- One output behind another one. -/
theorem bind_ofOption (o : Option α) (k : α → Option β) :
    ((ofOption o).bind fun a => ofOption (k a)) = ofOption (o.bind k) := by
  cases o with
  | none => rfl
  | some a => exact bind_one _ _

@[simp] theorem none_bind (k : α → Outputs β) : bind ⟨[], false⟩ k = ⟨[], false⟩ := rfl

@[simp] theorem all?_values (as : List α) : all? ⟨as, false⟩ = some as := rfl

@[simp] theorem all?_one (a : α) : (one a).all? = some [a] := rfl

@[simp] theorem all?_fail : (fail : Outputs α).all? = none := rfl

@[simp] theorem all?_ofOption (o : Option α) : (ofOption o).all? = o.map fun a => [a] := by
  cases o <;> rfl

theorem all?_append (r r' : Outputs α) :
    (r.append r').all? = r.all?.bind fun as => r'.all?.map fun bs => as ++ bs := by
  obtain ⟨values, failed⟩ := r
  obtain ⟨values', failed'⟩ := r'
  cases failed <;> cases failed' <;> rfl

end Outputs

namespace Json

/-- Whether a value counts as true: all but `false` and `null` do. -/
def truthy : Json → Bool
  | null | boolean false => false
  | _ => true

/-- The value of a field, which is null where an object does not have it. Only objects and null have
fields. -/
def field? (name : String) : Json → Option Json
  | object members => some ((member? name members).getD null)
  | null => some null
  | _ => none

/-- The items of an array, or the values of an object. -/
def elements? : Json → Option (List Json)
  | array items => some items
  | object members => some (members.map Prod.snd)
  | _ => none

/-- The items of an array. -/
def items? : Json → Option (List Json)
  | array items => some items
  | _ => none

/-- The items of a list from one place on and below another one. -/
def sublist {α : Type} (low high : Option Nat) (as : List α) : List α :=
  match high with
  | none => as.drop (low.getD 0)
  | some n => (as.take n).drop (low.getD 0)

/-- Whether two values have one place in an order. -/
def same (le : Json → Json → Bool) (x y : Json) : Bool := le x y && le y x

/-- The first of each run of values that have one place. -/
def merge (le : Json → Json → Bool) : List Json → List Json
  | [] => []
  | [x] => [x]
  | x :: y :: rest => if same le x y then merge le (x :: rest) else x :: merge le (y :: rest)

/-- The values without repetition, in order. -/
def unique (le : Json → Json → Bool) (xs : List Json) : List Json := merge le (xs.mergeSort le)

/-- Values in the order of their keys; where keys have one place, the values stay in their order. -/
def sortKeyed (le : Json → Json → Bool) (xs : List (List Json × Json)) : List Json :=
  (xs.mergeSort fun x y => le (array x.1) (array y.1)).map Prod.snd

end Json

/-- Whether one of some outputs is true. What stands behind the first that is, is not asked for. -/
def Outputs.anyTrue (r : Outputs Json) : Outputs Json :=
  if r.values.any Json.truthy then one (.boolean true)
  else if r.failed then fail
  else one (.boolean false)

/-- A first output decides if it is true, or if there is none. -/
theorem Outputs.anyTrue_append (o : Option Json) (r : Outputs Json) :
    ((ofOption o).append r).anyTrue =
      (ofOption o).bind fun a => if a.truthy then one (.boolean true) else r.anyTrue := by
  cases o with
  | none => rfl
  | some a =>
    obtain ⟨values, failed⟩ := r
    rw [ofOption, bind_one]
    change anyTrue ⟨a :: values, failed⟩ = _
    by_cases ha : a.truthy = true
    · simp [anyTrue, ha]
    · simp [anyTrue, ha]

/-- What an operator makes of the outputs on its left and those on its right. The right ones are the
outer loop, but for `and` and `or`, which ask for them only where the left one does not decide. -/
def Operations.join (ops : Operations) : Operator → Outputs Json → Outputs Json → Outputs Json
  | .and, r, r' => r.bind fun a =>
    if a.truthy then r'.bind fun b => .one (.boolean b.truthy) else .one (.boolean false)
  | .or, r, r' => r.bind fun a =>
    if a.truthy then .one (.boolean true) else r'.bind fun b => .one (.boolean b.truthy)
  | op, r, r' => r'.bind fun b => r.bind fun a => .ofOption (ops.operation op a b)

namespace Jq

open Outputs

/-- The values of variables. -/
abbrev Values := String → Option Json

/-- The values with one more variable. -/
def Values.set (ρ : Values) (name : String) (value : Json) : Values :=
  fun n => if n = name then some value else ρ n

mutual

/-- The outputs of a program for an input. -/
def eval (ops : Operations) (ρ : Values) : Jq → Json → Outputs Json
  | .identity, x => one x
  | .elements, x => match x.elements? with
    | none => fail
    | some items => ⟨items, false⟩
  | .field name, x => ofOption (x.field? name)
  | .slice low high, x => ofOption (x.items?.map fun items => .array (Json.sublist low high items))
  | .number n, _ => one (.integer n)
  | .string s, _ => one (.string s)
  | .boolean b, _ => one (.boolean b)
  | .null, _ => one .null
  | .variable name, _ => ofOption (ρ name)
  | .array f, x => ofOption ((eval ops ρ f x).all?.map .array)
  | .object entries, x => evalEntries ops ρ [] entries x
  | .comma f g, x => (eval ops ρ f x).append (eval ops ρ g x)
  | .pipe f g, x => (eval ops ρ f x).bind (eval ops ρ g)
  | .negate f, x => (eval ops ρ f x).bind fun a => ofOption (ops.negate a)
  | .operation op f g, x => ops.join op (eval ops ρ f x) (eval ops ρ g x)
  | .bind value name body, x => (eval ops ρ value x).bind fun a =>
    eval ops (Values.set ρ name a) body x
  | .any generator condition, x =>
    ((eval ops ρ generator x).bind (eval ops ρ condition)).anyTrue
  | .select condition, x => (eval ops ρ condition x).bind fun a =>
    if a.truthy then one x else ⟨[], false⟩
  | .sortBy key, x => ofOption do
    let items ← x.items?
    let keyed ← items.mapM fun y => (eval ops ρ key y).all?.map fun keys => (keys, y)
    some (.array (Json.sortKeyed ops.le keyed))
  | .not, x => one (.boolean !x.truthy)
  | .unique, x => ofOption (x.items?.map fun items => .array (Json.unique ops.le items))
  | .reverse, x => ofOption (x.items?.map fun items => .array items.reverse)

/-- The objects of entries, behind the members made so far. A later entry of a key takes the place
of an earlier one. -/
def evalEntries (ops : Operations) (ρ : Values) (members : List (String × Json)) :
    List (String × Jq) → Json → Outputs Json
  | [], _ => one (.object members)
  | (key, f) :: rest, x => (eval ops ρ f x).bind fun a =>
    evalEntries ops ρ (Json.setMember key a members) rest x

end

/-- The outputs of programs for one input, one after another. -/
def evalEach (ops : Operations) (ρ : Values) (fs : List Jq) (x : Json) : Outputs Json :=
  fs.foldr (fun f r => (eval ops ρ f x).append r) ⟨[], false⟩

theorem eval_commas (ops : Operations) (ρ : Values) (f : Jq) (fs : List Jq) (x : Json) :
    eval ops ρ (fs.foldl .comma f) x = evalEach ops ρ (f :: fs) x := by
  induction fs generalizing f with
  | nil => exact (append_none _).symm
  | cons g fs ih =>
    rw [List.foldl_cons, ih]
    simp only [evalEach, List.foldr_cons, eval, append_assoc]

/-- The outputs of programs piped one into another. -/
def evalPiped (ops : Operations) (ρ : Values) : List Jq → Json → Outputs Json
  | [], x => one x
  | f :: fs, x => (eval ops ρ f x).bind (evalPiped ops ρ fs)

theorem eval_pipeline (ops : Operations) (ρ : Values) (fs : List Jq) (x : Json) :
    eval ops ρ (pipeline fs) x = evalPiped ops ρ fs x := by
  induction fs generalizing x with
  | nil => rfl
  | cons f fs ih =>
    cases fs with
    | nil => exact (one_bind _).symm
    | cons g fs =>
      rw [pipeline, eval, evalPiped, funext ih]
      nofun

theorem evalPiped_append (ops : Operations) (ρ : Values) (fs gs : List Jq) (x : Json) :
    evalPiped ops ρ (fs ++ gs) x = (evalPiped ops ρ fs x).bind (evalPiped ops ρ gs) := by
  induction fs generalizing x with
  | nil => exact (bind_one _ _).symm
  | cons f fs ih => rw [List.cons_append, evalPiped, funext ih, evalPiped, bind_bind]

/-- What the program of a text puts out for an input, if the text is read. -/
def run? (ops : Operations) (ρ : Values) (text : String) (x : Json) : Option (Outputs Json) :=
  (read? text).map fun f => f.eval ops ρ x

end Jq

end RecordQuery
