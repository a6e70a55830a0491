import RecordQuery.Program.Calls
import RecordQuery.Proofs.Program.Keys
import RecordQuery.Proofs.Program.Tokens

/-! # Calls on a shared cache

What a call knows of its query is true (`Call.Sound`), and every program of a cache was given as the
answer to a query with that key (`Sharing.Sound`). One step keeps both (`Sound.step`), whichever
call takes it, because a key has the tokens of one query only and a program depends on the tokens
alone. So every run keeps them, and no call can tell whether its program was stored. -/

namespace RecordQuery

/-! ### Caches -/

namespace Cache

variable {c : Cache} {k k' q q' : String} {p p' : Program}

/-- Queries with one key have one program. -/
theorem ofText_of_key (hk : key? q = some k) (hk' : key? q' = some k)
    (hp : Program.ofText q = .ok p) : Program.ofText q' = .ok p := by
  obtain ⟨ls, ls', hls, hls', htokens⟩ := key?_eq_iff.mp ⟨k, hk, hk'⟩
  have halike := Program.kin_ofText hls hls' htokens
  rw [hp] at halike
  cases hp' : Program.ofText q' with
  | ok p' =>
    rw [hp'] at halike
    exact congrArg _ (Eq.symm halike)
  | error e =>
    rw [hp'] at halike
    exact halike.elim

theorem mem_of_get? (h : c.get? k = some p) : (k, p) ∈ c.entries := by
  obtain ⟨⟨k', p'⟩, hfind, rfl⟩ := Option.map_eq_some_iff.mp h
  obtain rfl : k' = k := by simpa using List.find?_some hfind
  exact List.mem_of_find?_eq_some hfind

theorem mem_insert : (k', p') ∈ (c.insert k p).entries ↔
    k' = k ∧ p' = p ∨ (k', p') ∈ c.entries ∧ k' ≠ k := by
  simp [insert]

/-- The keys of a cache. -/
def keys (c : Cache) : List String := c.entries.map Prod.fst

theorem nodup_keys_insert (h : c.keys.Nodup) : (c.insert k p).keys.Nodup := by
  have hrest : ((c.entries.filter fun e => e.1 != k).map Prod.fst).Nodup :=
    h.sublist (List.filter_sublist.map _)
  refine List.nodup_cons.mpr ⟨fun hmem => ?_, hrest⟩
  obtain ⟨e, he, hk⟩ := List.mem_map.mp hmem
  exact absurd hk (by simpa using (List.mem_filter.mp he).2)

theorem get?_of_mem (hn : c.keys.Nodup) (h : (k, p) ∈ c.entries) : c.get? k = some p := by
  obtain ⟨⟨k', p'⟩, hfind⟩ : ∃ e, c.entries.find? (fun e => e.1 == k) = some e := by
    rw [← Option.isSome_iff_exists, List.find?_isSome]
    exact ⟨_, h, beq_self_eq_true k⟩
  obtain rfl : k' = k := by simpa using List.find?_some hfind
  have hsame := List.inj_on_of_nodup_map hn (List.mem_of_find?_eq_some hfind) h rfl
  unfold get?
  rw [hfind, hsame]
  rfl

end Cache

/-! ### Steps of calls -/

namespace Call

variable {c c' : Cache} {call call' : Call}

/-- All that a call can do in one step, and the cache behind it. -/
inductive Steps (c : Cache) : Call → Call → Cache → Prop
  | unread {q : String} (hk : Cache.key? q = none) :
      Steps c (asked q) (answered q (Program.ofText q)) c
  | hit {q k : String} {p : Program} (hk : Cache.key? q = some k) (hp : c.get? k = some p) :
      Steps c (asked q) (answered q (.ok p)) c
  | miss {q k : String} (hk : Cache.key? q = some k) (hp : c.get? k = none) :
      Steps c (asked q) (missed q k) c
  | compile {q k : String} {p : Program} (hp : Program.ofText q = .ok p) :
      Steps c (missed q k) (compiled q k p) c
  | fail {q k : String} {e : Stop CompileError} (he : Program.ofText q = .error e) :
      Steps c (missed q k) (answered q (.error e)) c
  | store {q k : String} {p : Program} :
      Steps c (compiled q k p) (answered q (.ok p)) (c.insert k p)
  | rest {q : String} {r : Except (Stop CompileError) Program} :
      Steps c (answered q r) (answered q r) c

theorem steps_next (c : Cache) (call : Call) : Steps c call (call.next c).1 (call.next c).2 := by
  cases call with
  | asked q =>
    dsimp only [next]
    split
    · next hk => exact .unread hk
    · next hk =>
      split
      · next hp => exact .hit hk hp
      · next hp => exact .miss hk hp
  | missed q k =>
    dsimp only [next]
    split
    · next hp => exact .compile hp
    · next he => exact .fail he
  | compiled q k p => exact .store
  | answered q r => exact .rest

theorem Steps.query (h : Steps c call call' c') : call'.query = call.query := by
  cases h <;> rfl

/-- How many more steps a call can take. -/
def remaining : Call → Nat
  | asked _ => 3
  | missed _ _ => 2
  | compiled _ _ _ => 1
  | answered _ _ => 0

theorem Steps.remaining_le (h : Steps c call call' c') :
    call'.remaining ≤ call.remaining - 1 := by
  cases h <;> simp [remaining]

theorem answered_of_remaining (h : call.remaining = 0) : ∃ r, call = answered call.query r := by
  cases call with
  | answered q r => exact ⟨r, rfl⟩
  | _ => cases h

/-- What a call knows of its query is true. -/
def Sound : Call → Prop
  | asked _ => True
  | missed q k => Cache.key? q = some k
  | compiled q k p => Cache.key? q = some k ∧ Program.ofText q = .ok p
  | answered q r => r = Program.ofText q

end Call

/-! ### What a step keeps -/

namespace Sharing

variable {s : Sharing}

/-- What holds of a shared cache: calls know the truth, and each program is under one key only and
was the answer to a query with that key. -/
structure Sound (s : Sharing) : Prop where
  calls : ∀ call ∈ s.calls, call.Sound
  entries : ∀ k p, (k, p) ∈ s.cache.entries →
    ∃ q, Call.answered q (.ok p) ∈ s.calls ∧ Cache.key? q = some k
  keys : s.cache.keys.Nodup

theorem sound_start : start.Sound where
  calls _ h := absurd h List.not_mem_nil
  entries _ _ h := absurd h List.not_mem_nil
  keys := List.nodup_nil

theorem Sound.ofText (h : s.Sound) {k q : String} {p : Program} (hp : s.cache.get? k = some p)
    (hk : Cache.key? q = some k) : Program.ofText q = .ok p := by
  obtain ⟨q', hq', hk'⟩ := h.entries k p (Cache.mem_of_get? hp)
  exact Cache.ofText_of_key hk' hk (h.calls _ hq').symm

/-- What a call knows stays true when it takes a step. -/
theorem Sound.steps (h : s.Sound) {call call' : Call} {c : Cache} (hc : call.Sound)
    (hstep : call.Steps s.cache call' c) : call'.Sound := by
  cases hstep with
  | unread => rfl
  | hit hk hp => exact (h.ofText hp hk).symm
  | miss hk => exact hk
  | compile hp => exact ⟨hc, hp⟩
  | fail he => exact he.symm
  | store => exact hc.2.symm
  | rest => exact hc

theorem step_move {i : Nat} {call : Call} (h : s.calls[i]? = some call) :
    s.step (.move i) = ⟨(call.next s.cache).2, s.calls.set i (call.next s.cache).1⟩ := by
  dsimp only [step]
  rw [h]

theorem step_move_none {i : Nat} (h : s.calls[i]? = none) : s.step (.move i) = s := by
  dsimp only [step]
  rw [h]

/-- An answer is never taken back. -/
theorem answered_mem_step {q : String} {r : Except (Stop CompileError) Program} (e : Event)
    (h : Call.answered q r ∈ s.calls) : Call.answered q r ∈ (s.step e).calls := by
  cases e with
  | ask q' => exact List.mem_append_left _ h
  | clear => exact h
  | move i =>
    cases hi : s.calls[i]? with
    | none => rwa [step_move_none hi]
    | some call =>
      rw [step_move hi]
      obtain ⟨j, hj, hcall⟩ := List.getElem_of_mem h
      obtain ⟨hlt, hi⟩ := List.getElem?_eq_some_iff.mp hi
      by_cases heq : i = j
      · subst heq
        obtain rfl : call = .answered q r := hi.symm.trans hcall
        exact List.mem_set hlt _
      · rw [← hcall, ← List.getElem_set_of_ne heq (call.next s.cache).1 (by simpa using hj)]
        exact List.getElem_mem _

/-- **Every step keeps what holds** of a shared cache, whichever call takes it. -/
theorem Sound.step (h : s.Sound) (e : Event) : (s.step e).Sound := by
  cases e with
  | ask q =>
    refine ⟨fun call hcall => ?_, fun k p hp => ?_, h.keys⟩
    · obtain hcall | hcall := List.mem_append.mp hcall
      · exact h.calls call hcall
      · rw [List.mem_singleton.mp hcall]
        trivial
    · obtain ⟨q', hq', hk⟩ := h.entries k p hp
      exact ⟨q', List.mem_append_left _ hq', hk⟩
  | clear => exact ⟨h.calls, fun _ _ hp => absurd hp List.not_mem_nil, List.nodup_nil⟩
  | move i =>
    cases hi : s.calls[i]? with
    | none => rwa [step_move_none hi]
    | some call =>
      have hmem := List.mem_of_getElem? hi
      have hkept := fun q r => answered_mem_step (q := q) (r := r) (.move i) (s := s)
      have hsteps := call.steps_next s.cache
      rw [step_move hi] at hkept ⊢
      have hset : (call.next s.cache).1 ∈ s.calls.set i (call.next s.cache).1 :=
        List.mem_set (List.getElem?_eq_some_iff.mp hi).1 _
      generalize (call.next s.cache).1 = call' at *
      generalize (call.next s.cache).2 = c at *
      refine ⟨fun other hother => ?_, fun k p hp => ?_, ?_⟩
      · obtain hother | rfl := List.mem_or_eq_of_mem_set hother
        · exact h.calls other hother
        · exact h.steps (h.calls call hmem) hsteps
      · dsimp only at hp
        have hold (hp : (k, p) ∈ s.cache.entries) :
            ∃ q, Call.answered q (.ok p) ∈ s.calls.set i call' ∧ Cache.key? q = some k := by
          obtain ⟨q', hq', hk⟩ := h.entries k p hp
          exact ⟨q', hkept q' _ hq', hk⟩
        cases hsteps with
        | @store q k' p' =>
          obtain ⟨rfl, rfl⟩ | ⟨hp, -⟩ := Cache.mem_insert.mp hp
          · exact ⟨q, hset, (h.calls _ hmem).1⟩
          · exact hold hp
        | _ => exact hold hp
      · cases hsteps with
        | store => exact Cache.nodup_keys_insert h.keys
        | _ => exact h.keys

theorem Sound.foldl (h : s.Sound) (es : List Event) : (es.foldl Sharing.step s).Sound := by
  induction es generalizing s with
  | nil => exact h
  | cons e es ih => exact ih (h.step e)

/-- **Every run keeps what holds** of a shared cache. -/
theorem sound_run (es : List Event) : (run es).Sound := sound_start.foldl es

/-! ### Answers -/

/-- A call keeps its query whatever happens, and comes nearer to its answer when it moves. -/
theorem call_step {i : Nat} {call : Call} (h : s.calls[i]? = some call) (e : Event) :
    ∃ call', (s.step e).calls[i]? = some call' ∧ call'.query = call.query ∧
      call'.remaining ≤ call.remaining - [e].count (.move i) := by
  have hi := (List.getElem?_eq_some_iff.mp h).1
  cases e with
  | ask q =>
    refine ⟨call, ?_, rfl, Nat.le_refl _⟩
    rw [← h]
    exact List.getElem?_append_left hi
  | clear => exact ⟨call, h, rfl, Nat.le_refl _⟩
  | move j =>
    by_cases hij : j = i
    · subst hij
      have hsteps := call.steps_next s.cache
      refine ⟨(call.next s.cache).1, ?_, hsteps.query, ?_⟩
      · rw [step_move h]
        exact List.getElem?_set_self hi
      · rw [List.count_singleton_self]
        exact hsteps.remaining_le
    · have hcount : [Event.move j].count (.move i) = 0 :=
        List.count_eq_zero.mpr fun hmem => hij (Event.move.inj (List.mem_singleton.mp hmem)).symm
      refine ⟨call, ?_, rfl, by rw [hcount, Nat.sub_zero]⟩
      cases hj : s.calls[j]? with
      | none => rwa [step_move_none hj]
      | some other =>
        rw [step_move hj]
        exact (List.getElem?_set_ne hij).trans h

theorem call_foldl {i : Nat} {call : Call} (h : s.calls[i]? = some call) (es : List Event) :
    ∃ call', (es.foldl step s).calls[i]? = some call' ∧ call'.query = call.query ∧
      call'.remaining ≤ call.remaining - es.count (.move i) := by
  induction es generalizing s call with
  | nil => exact ⟨call, h, rfl, Nat.le_refl _⟩
  | cons e es ih =>
    obtain ⟨next, hnext, hquery, hremaining⟩ := call_step h e
    obtain ⟨call', hcall', hquery', hremaining'⟩ := ih hnext
    refine ⟨call', hcall', hquery'.trans hquery, hremaining'.trans ?_⟩
    rw [← List.singleton_append, List.count_append]
    omega

theorem run_append (es es' : List Event) : run (es ++ es') = es'.foldl step (run es) :=
  List.foldl_append

/-- **Every call is answered** as if there were no cache, when it has taken three steps. -/
theorem answered_of_moves {es es' : List Event} {i : Nat} {call : Call}
    (h : (run es).calls[i]? = some call) (hmoves : 3 ≤ es'.count (.move i)) :
    (run (es ++ es')).calls[i]? = some (.answered call.query (Program.ofText call.query)) := by
  obtain ⟨call', hcall', hquery, hremaining⟩ := call_foldl h es'
  have hthree : call.remaining ≤ 3 := by cases call <;> simp [Call.remaining]
  obtain ⟨r, hr⟩ := call'.answered_of_remaining (by omega)
  have hsound := (sound_run (es ++ es')).calls call'
    (List.mem_of_getElem? (by rw [run_append]; exact hcall'))
  rw [hr] at hsound
  rw [run_append, hcall', hr, hsound, hquery]

/-- A call for a query that fails leaves the cache as it is. -/
theorem Sound.cache_of_error (h : s.Sound) {i : Nat} {call : Call} {e : Stop CompileError}
    (hcall : s.calls[i]? = some call) (he : Program.ofText call.query = .error e) :
    (s.step (.move i)).cache = s.cache := by
  have hsound := h.calls call (List.mem_of_getElem? hcall)
  have hsteps := call.steps_next s.cache
  rw [step_move hcall]
  generalize (call.next s.cache).1 = call' at hsteps
  generalize (call.next s.cache).2 = c at hsteps
  cases hsteps with
  | store => cases hsound.2.symm.trans he
  | _ => rfl

/-- A program comes into the cache only when a call stores it that has compiled it. -/
theorem mem_step {k : String} {p : Program} {e : Event} (h : (k, p) ∈ (s.step e).cache.entries) :
    (k, p) ∈ s.cache.entries ∨ ∃ i q, e = .move i ∧ s.calls[i]? = some (.compiled q k p) := by
  cases e with
  | ask q => exact .inl h
  | clear => exact absurd h List.not_mem_nil
  | move i =>
    cases hi : s.calls[i]? with
    | none =>
      rw [step_move_none hi] at h
      exact .inl h
    | some call =>
      have hsteps := call.steps_next s.cache
      rw [step_move hi] at h
      generalize (call.next s.cache).1 = call' at *
      generalize (call.next s.cache).2 = c at *
      cases hsteps with
      | @store q k' p' =>
        obtain ⟨rfl, rfl⟩ | ⟨h, -⟩ := Cache.mem_insert.mp h
        · exact .inr ⟨i, q, rfl, hi⟩
        · exact .inl h
      | _ => exact .inl h

end Sharing

end RecordQuery
