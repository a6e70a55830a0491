import RecordQuery.Json.Value

/-! # Bindings

The values given to the parameters of queries. A name has one value, the one bound last. -/

namespace RecordQuery

/-- Values by the names of parameters; each name occurs once. -/
structure Bindings where
  entries : List (String × Json)

namespace Bindings

/-- No values at all. -/
def empty : Bindings := ⟨[]⟩

/-- Gives a name a value. -/
def bind (b : Bindings) (name : String) (value : Json) : Bindings :=
  ⟨Json.setMember name value b.entries⟩

/-- The bindings made one after another. -/
def ofList (entries : List (String × Json)) : Bindings :=
  entries.foldl (fun b (name, value) => b.bind name value) empty

/-- The value of a name. -/
def value? (b : Bindings) (name : String) : Option Json := Json.member? name b.entries

/-- The number of names that have a value. -/
def size (b : Bindings) : Nat := b.entries.length

end Bindings

end RecordQuery
