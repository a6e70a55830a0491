import Mathlib.Data.Finset.Card
import Mathlib.Data.Finset.Dedup
import RecordQuery.Proofs.Program.Calls

/-! # Uses of a cache one after another

Where a cache is used by one caller at a time, a call takes all of its steps at once and does what
`Cache.compile` does (`run_inTurn`). The cache then holds a program for each list of tokens that has
been compiled since it was cleared last, and no other ones (`stores_serve`), so its size is their
number. `Sharing.cache_transparent` sums up what holds in any order of steps and in this one. -/

namespace RecordQuery

/-- A call for the program of a query, or the wish to clear the cache. -/
inductive CacheUse where
  | compile (query : String)
  | clear

namespace CacheUse

/-- The events of a use that is not interrupted, behind `n` calls: the call is made and takes all of
its steps. -/
def events (n : Nat) : CacheUse → List Event
  | compile q => [.ask q, .move n, .move n, .move n]
  | clear => [.clear]

/-- The events of uses one after another, behind `n` calls. -/
def inTurn (n : Nat) : List CacheUse → List Event
  | [] => []
  | compile q :: rs => (compile q).events n ++ inTurn (n + 1) rs
  | clear :: rs => clear.events n ++ inTurn n rs

/-- The queries asked since the cache was cleared last. -/
def sinceClear (rs : List CacheUse) : List String :=
  rs.foldl (fun qs r => match r with | compile q => q :: qs | clear => []) []

/-- What a use leaves of a cache. -/
def serve (c : Cache) : CacheUse → Cache
  | compile q => (c.compile q).2
  | clear => .empty

end CacheUse

namespace Sharing

open CacheUse

variable {c : Cache} {calls : List Call}

theorem step_last (c : Cache) (calls : List Call) (call : Call) :
    (⟨c, calls ++ [call]⟩ : Sharing).step (.move calls.length) =
      ⟨(call.next c).2, calls ++ [(call.next c).1]⟩ := by
  have hlast : (calls ++ [call])[calls.length]? = some call := List.getElem?_concat_length
  rw [step_move hlast]
  simp

/-- A call that takes its steps at once does what compiling with the cache does. -/
theorem foldl_compile (c : Cache) (calls : List Call) (q : String) :
    ((compile q).events calls.length).foldl step ⟨c, calls⟩ =
      ⟨(c.compile q).2, calls ++ [.answered q (c.compile q).1]⟩ := by
  dsimp only [events, List.foldl_cons, List.foldl_nil]
  rw [show step ⟨c, calls⟩ (.ask q) = ⟨c, calls ++ [.asked q]⟩ from rfl, step_last, step_last,
    step_last]
  unfold Cache.compile
  cases hk : Cache.key? q with
  | none => simp [Call.next, hk]
  | some k =>
    cases hp : c.get? k with
    | some p => simp [Call.next, hk, hp]
    | none => cases he : Program.ofText q <;> simp [Call.next, hk, hp, he]

theorem foldl_inTurn (c : Cache) (calls : List Call) (rs : List CacheUse) :
    ((inTurn calls.length rs).foldl step ⟨c, calls⟩).cache = rs.foldl serve c := by
  induction rs generalizing c calls with
  | nil => rfl
  | cons r rs ih =>
    cases r with
    | compile q =>
      have hrest := ih (c.compile q).2 (calls ++ [.answered q (c.compile q).1])
      rw [List.length_append] at hrest
      rw [inTurn, List.foldl_append, foldl_compile]
      exact hrest
    | clear => exact ih .empty calls

/-- **Uses one after another** compile with the cache. -/
theorem run_inTurn (rs : List CacheUse) : (run (inTurn 0 rs)).cache = rs.foldl serve .empty :=
  foldl_inTurn .empty [] rs

end Sharing

/-! ### What is stored -/

namespace CacheUse

variable {rs : List CacheUse} {k q : String} {p : Program}

theorem sinceClear_append (r : CacheUse) : sinceClear (rs ++ [r]) = match r with
    | compile q => q :: sinceClear rs
    | clear => [] := by
  unfold sinceClear
  rw [List.foldl_append]
  cases r <;> rfl

/-- What is stored is what has been compiled since the cache was cleared last, each under its key.
-/
structure Stores (c : Cache) (qs : List String) : Prop where
  mem_iff : ∀ k p, (k, p) ∈ c.entries ↔
    ∃ q ∈ qs, Cache.key? q = some k ∧ Program.ofText q = .ok p
  keys : c.keys.Nodup

theorem Stores.cons {c : Cache} {qs : List String} (h : Stores c qs) (q : String) :
    Stores (c.compile q).2 (q :: qs) := by
  -- A query whose program is stored already, or that has none, changes neither side.
  have hsame (hq : ∀ k p, Cache.key? q = some k → Program.ofText q = .ok p → (k, p) ∈ c.entries) :
      Stores c (q :: qs) := by
    refine ⟨fun k p => ?_, h.keys⟩
    rw [h.mem_iff]
    constructor
    · rintro ⟨q', hmem, hq'⟩
      exact ⟨q', List.mem_cons_of_mem _ hmem, hq'⟩
    · rintro ⟨q', hmem, hk, hp⟩
      obtain rfl | hmem := List.mem_cons.mp hmem
      · exact (h.mem_iff k p).mp (hq k p hk hp)
      · exact ⟨q', hmem, hk, hp⟩
  unfold Cache.compile
  split
  · next hk => exact hsame fun k p hk' _ => by cases hk.symm.trans hk'
  · next k hk =>
    split
    · next p hp =>
      refine hsame fun k' p' hk' hp' => ?_
      obtain rfl : k = k' := Option.some.inj (hk.symm.trans hk')
      have hmem := Cache.mem_of_get? hp
      obtain ⟨q', -, hq', hp''⟩ := (h.mem_iff k p).mp hmem
      cases hp'.symm.trans (Cache.ofText_of_key hq' hk hp'')
      exact hmem
    · next hnone =>
      split
      · next p hp =>
        refine ⟨fun k' p' => ?_, Cache.nodup_keys_insert h.keys⟩
        rw [Cache.mem_insert, h.mem_iff]
        constructor
        · rintro (⟨rfl, rfl⟩ | ⟨⟨q', hmem, hq'⟩, -⟩)
          · exact ⟨q, List.mem_cons_self, hk, hp⟩
          · exact ⟨q', List.mem_cons_of_mem _ hmem, hq'⟩
        · rintro ⟨q', hmem, hk', hp'⟩
          obtain rfl | hmem := List.mem_cons.mp hmem
          · cases hk.symm.trans hk'
            cases hp.symm.trans hp'
            exact .inl ⟨rfl, rfl⟩
          · refine .inr ⟨⟨q', hmem, hk', hp'⟩, ?_⟩
            rintro rfl
            have hget := Cache.get?_of_mem h.keys ((h.mem_iff _ _).mpr ⟨q', hmem, hk', hp'⟩)
            cases hnone.symm.trans hget
      · next e he => exact hsame fun k' p' _ hp' => by cases he.symm.trans hp'

/-- **What is left in a cache** is what was compiled since it was cleared last. -/
theorem stores_serve (rs : List CacheUse) : Stores (rs.foldl serve .empty) (sinceClear rs) := by
  have hempty : Stores .empty [] :=
    ⟨fun k p => ⟨fun h => absurd h List.not_mem_nil, by rintro ⟨q, hq, -⟩; cases hq⟩,
      List.nodup_nil⟩
  induction rs using List.reverseRecOn with
  | nil => exact hempty
  | append_singleton rs r ih =>
    rw [List.foldl_append, sinceClear_append]
    cases r with
    | compile q => exact ih.cons q
    | clear => exact hempty

/-- The tokens of a query that has a program. -/
def compiledTokens? (q : String) : Option (List Token) :=
  match tokenize q, Program.ofText q with
  | .ok ls, .ok _ => some (ls.map Lexeme.token)
  | _, _ => none

theorem compiledTokens?_eq_some {ts : List Token} : compiledTokens? q = some ts ↔
    ∃ ls p, tokenize q = .ok ls ∧ Program.ofText q = .ok p ∧ ts = ls.map Lexeme.token := by
  unfold compiledTokens?
  constructor
  · intro h
    split at h
    · next ls p hls hp =>
      cases h
      exact ⟨ls, p, hls, hp, rfl⟩
    · cases h
  · rintro ⟨ls, p, hls, hp, rfl⟩
    rw [hls, hp]

/-- **The size** is the number of lists of tokens that were compiled. -/
theorem Stores.size {c : Cache} {qs : List String} (h : Stores c qs) :
    c.size = (qs.filterMap compiledTokens?).toFinset.card := by
  have hcanonical : ∀ ts ∈ (qs.filterMap compiledTokens?).toFinset, ∀ t ∈ ts, t.Canonical := by
    intro ts hts
    obtain ⟨q, -, hq⟩ := List.mem_filterMap.mp (List.mem_toFinset.mp hts)
    obtain ⟨ls, p, hls, -, rfl⟩ := compiledTokens?_eq_some.mp hq
    exact Cache.canonical_of_tokenize hls
  have hkeys : c.keys.toFinset = (qs.filterMap compiledTokens?).toFinset.image Cache.keyOf := by
    ext k
    rw [List.mem_toFinset, Finset.mem_image]
    constructor
    · intro hk
      obtain ⟨⟨k, p⟩, hp, rfl⟩ := List.mem_map.mp hk
      obtain ⟨q, hq, hk, hp⟩ := (h.mem_iff k p).mp hp
      obtain ⟨ls, hls, hk⟩ := Cache.key?_eq_some hk
      exact ⟨_, List.mem_toFinset.mpr (List.mem_filterMap.mpr
        ⟨q, hq, compiledTokens?_eq_some.mpr ⟨ls, p, hls, hp, rfl⟩⟩), hk.symm⟩
    · rintro ⟨ts, hts, rfl⟩
      obtain ⟨q, hq, hts⟩ := List.mem_filterMap.mp (List.mem_toFinset.mp hts)
      obtain ⟨ls, p, hls, hp, rfl⟩ := compiledTokens?_eq_some.mp hts
      exact List.mem_map.mpr ⟨(_, p), (h.mem_iff _ p).mpr ⟨q, hq, Cache.key?_of_tokenize hls, hp⟩, rfl⟩
  calc c.size = c.keys.length := (List.length_map _).symm
    _ = c.keys.toFinset.card := (List.toFinset_card_of_nodup h.keys).symm
    _ = ((qs.filterMap compiledTokens?).toFinset.image Cache.keyOf).card := by rw [hkeys]
    _ = (qs.filterMap compiledTokens?).toFinset.card := Finset.card_image_of_injOn
      fun ts hts us hus heq => Cache.keyOf_injective (hcanonical ts hts) (hcanonical us hus) heq

/-- A query with the tokens of a compiled one is answered with the stored program. -/
theorem Stores.hit {c : Cache} {qs : List String} (h : Stores c qs) {q' : String} (hq' : q' ∈ qs)
    {ls ls' : List Lexeme} (hls : tokenize q = .ok ls) (hls' : tokenize q' = .ok ls')
    (htokens : ls.map Lexeme.token = ls'.map Lexeme.token) (hp : Program.ofText q' = .ok p) :
    ∃ k, Cache.key? q = some k ∧ c.get? k = some p ∧
      (Call.asked q).next c = (.answered q (.ok p), c) := by
  obtain ⟨k, hk, hk'⟩ := Cache.key?_eq_iff.mpr ⟨ls, ls', hls, hls', htokens⟩
  have hget := Cache.get?_of_mem h.keys ((h.mem_iff k p).mpr ⟨q', hq', hk', hp⟩)
  refine ⟨k, hk, hget, ?_⟩
  dsimp only [Call.next]
  rw [hk]
  dsimp only
  rw [hget]

end CacheUse

namespace Sharing

open CacheUse

/-- **The cache is transparent.** In any order of steps, every call is answered when it has taken
three of them, and with what compiling its query gives; a program comes into the cache only from a
call that has compiled it, under the key of its query, and a call for a query that fails changes
nothing; each key occurs once. Queries have one key exactly if they have the same tokens. Where the
cache is used by one caller at a time, the size is the number of lists of tokens compiled since the
cache was cleared last, and a query with such tokens is answered at once with the stored program. -/
theorem cache_transparent :
    (∀ es : List Event,
      (∀ q r, Call.answered q r ∈ (run es).calls → r = Program.ofText q) ∧
      (∀ i call es', (run es).calls[i]? = some call → 3 ≤ es'.count (.move i) →
        (run (es ++ es')).calls[i]? =
          some (.answered call.query (Program.ofText call.query))) ∧
      (∀ k p e, (k, p) ∈ (run (es ++ [e])).cache.entries →
        (k, p) ∈ (run es).cache.entries ∨ ∃ i q, e = .move i ∧
          (run es).calls[i]? = some (.compiled q k p) ∧ Cache.key? q = some k ∧
          Program.ofText q = .ok p) ∧
      (∀ i call e, (run es).calls[i]? = some call → Program.ofText call.query = .error e →
        (run (es ++ [.move i])).cache = (run es).cache) ∧
      (run es).cache.keys.Nodup) ∧
    (∀ q q', (∃ k, Cache.key? q = some k ∧ Cache.key? q' = some k) ↔
      ∃ ls ls', tokenize q = .ok ls ∧ tokenize q' = .ok ls' ∧
        ls.map Lexeme.token = ls'.map Lexeme.token) ∧
    ∀ rs : List CacheUse,
      (run (inTurn 0 rs)).cache.size = ((sinceClear rs).filterMap compiledTokens?).toFinset.card ∧
      ∀ q' ∈ sinceClear rs, ∀ q ls ls' p, tokenize q = .ok ls → tokenize q' = .ok ls' →
        ls.map Lexeme.token = ls'.map Lexeme.token → Program.ofText q' = .ok p →
        ∃ k, Cache.key? q = some k ∧ (run (inTurn 0 rs)).cache.get? k = some p ∧
          (Call.asked q).next (run (inTurn 0 rs)).cache =
            (.answered q (.ok p), (run (inTurn 0 rs)).cache) := by
  refine ⟨fun es => ?_, fun q q' => Cache.key?_eq_iff, fun rs => ?_⟩
  · have hsound := sound_run es
    refine ⟨fun q r h => hsound.calls _ h, fun i call es' => answered_of_moves,
      fun k p e h => ?_, fun i call e hcall he => ?_, hsound.keys⟩
    · rw [run_append] at h
      obtain h | ⟨i, q, rfl, hcall⟩ := mem_step h
      · exact .inl h
      · obtain ⟨hk, hp⟩ := hsound.calls _ (List.mem_of_getElem? hcall)
        exact .inr ⟨i, q, rfl, hcall, hk, hp⟩
    · rw [run_append]
      exact hsound.cache_of_error hcall he
  · rw [run_inTurn]
    have hstores := stores_serve rs
    exact ⟨hstores.size, fun q' hq' q ls ls' p hls hls' htokens hp =>
      hstores.hit hq' hls hls' htokens hp⟩

/-- Two calls race for one program, and the cache is cleared between their last steps. -/
theorem cache_transparent_race :
    let asks : List Event := [.ask "SELECT a", .ask "select  a"]
    let moves : List Event := [.move 0, .move 1, .move 0, .move 1, .move 0, .clear, .move 1]
    (run (asks ++ moves)).calls[1]? =
        some (.answered "select  a" (Program.ofText "select  a")) ∧
      (run (asks ++ moves)).cache.size = 1 ∧
      (run (inTurn 0 [.compile "SELECT 1", .clear, .compile "SELECT 1.0", .compile "select 1",
        .compile "SELECT 1 "])).cache.size = 2 := by
  refine ⟨(cache_transparent.1 _).2.1 1 (.asked "select  a") _ rfl (by decide), ?_, ?_⟩
  · decide +kernel
  · rw [(cache_transparent.2.2 _).1]
    decide +kernel

end Sharing

end RecordQuery
