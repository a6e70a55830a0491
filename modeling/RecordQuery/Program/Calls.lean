import RecordQuery.Program.Cache

/-! # Calls on a shared cache

A cache can be used by several callers at once. Each look at the cache and each change of it is a
step of its own, and the calls of different callers take their steps in any order. A call looks its
query up; if nothing is found it compiles the query without a hold on the cache, and then stores the
program. Between two steps of one call others may store programs or clear the cache.

`Sharing.run` follows the events of such a use, from a cache without programs. -/

namespace RecordQuery

/-- A call for the program of a query: not begun, about to compile, about to store the program under
its key, or answered. A call that compiling stops, by a fault or a panic, is answered by that. -/
inductive Call where
  | asked (query : String)
  | missed (query key : String)
  | compiled (query key : String) (p : Program)
  | answered (query : String) (result : Except (Stop CompileError) Program)

namespace Call

/-- The query of a call. -/
def query : Call → String
  | asked q | missed q _ | compiled q _ _ | answered q _ => q

/-- The next step of a call, and the cache behind it. An answered call takes no step. -/
def next (c : Cache) : Call → Call × Cache
  | asked q =>
    match Cache.key? q with
    | none => (answered q (Program.ofText q), c)
    | some key =>
      match c.get? key with
      | some p => (answered q (.ok p), c)
      | none => (missed q key, c)
  | missed q key =>
    match Program.ofText q with
    | .ok p => (compiled q key p, c)
    | .error e => (answered q (.error e), c)
  | compiled q key p => (answered q (.ok p), c.insert key p)
  | answered q r => (answered q r, c)

end Call

/-- What happens to a shared cache: a call begins, one of the calls takes a step, or the cache is
cleared. -/
inductive Event where
  | ask (query : String)
  | move (i : Nat)
  | clear
  deriving DecidableEq

/-- A cache and the calls made on it so far, the first one first. -/
structure Sharing where
  cache : Cache
  calls : List Call

namespace Sharing

/-- A cache without programs and without calls. -/
def start : Sharing := ⟨.empty, []⟩

/-- What an event leaves behind. -/
def step (s : Sharing) : Event → Sharing
  | .ask q => ⟨s.cache, s.calls ++ [.asked q]⟩
  | .move i =>
    match s.calls[i]? with
    | none => s
    | some call => ⟨(call.next s.cache).2, s.calls.set i (call.next s.cache).1⟩
  | .clear => ⟨.empty, s.calls⟩

/-- What events leave behind, one after another. -/
def run (es : List Event) : Sharing := es.foldl step start

end Sharing

end RecordQuery
