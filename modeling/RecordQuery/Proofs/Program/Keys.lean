import RecordQuery.Program.Cache
import RecordQuery.Proofs.Number.Values
import RecordQuery.Proofs.Token.Labels
import RecordQuery.Proofs.Token.Lexed

/-! # Keys

The key of a query holds the labels of its tokens with spaces between them. Labels are split off one
by one, so a key has the tokens of one list only (`Cache.keyOf_injective`), and two queries have one
key exactly if they have the same tokens (`Cache.key?_eq_iff`). -/

namespace RecordQuery.Cache

/-- What a key holds behind a label, in front of the other tokens. -/
def behindLabel : List Token → List Char
  | [] => []
  | t :: ts => ' ' :: (keyOf (t :: ts)).toList

theorem toList_keyOf (t : Token) (ts : List Token) :
    (keyOf (t :: ts)).toList = t.label.toList ++ behindLabel ts := by
  cases ts with
  | nil => exact (congrArg String.toList String.intercalate_singleton).trans (List.append_nil _).symm
  | cons u ts =>
    unfold keyOf
    rw [List.map_cons, List.map_cons, String.intercalate_cons_cons, String.toList_append,
      String.toList_append, List.append_assoc]
    rfl

theorem spaced_behindLabel (ts : List Token) : Token.Spaced (behindLabel ts) := by
  cases ts with
  | nil => nofun
  | cons t ts =>
    rintro c ⟨⟩
    rfl

variable {ts us : List Token}

/-- **A key tells its tokens.** -/
theorem keyOf_injective (ht : ∀ t ∈ ts, t.Canonical) (hu : ∀ u ∈ us, u.Canonical)
    (h : keyOf ts = keyOf us) : ts = us := by
  have hempty (t : Token) (ts : List Token) : keyOf (t :: ts) ≠ keyOf [] := by
    intro h
    have hlist := congrArg String.toList h
    rw [toList_keyOf] at hlist
    exact Token.label_ne_empty t (String.toList_injective (List.append_eq_nil_iff.mp hlist).1)
  induction ts generalizing us with
  | nil =>
    cases us with
    | nil => rfl
    | cons u us => exact absurd h.symm (hempty u us)
  | cons t ts ih =>
    cases us with
    | nil => exact absurd h (hempty t ts)
    | cons u us =>
      have hlist := congrArg String.toList h
      rw [toList_keyOf, toList_keyOf] at hlist
      obtain ⟨rfl, hrest⟩ := Token.splits_label (ht t List.mem_cons_self) (hu u List.mem_cons_self)
        (spaced_behindLabel ts) (spaced_behindLabel us) hlist
      have hkey : keyOf ts = keyOf us := by
        cases ts with
        | nil =>
          cases us with
          | nil => rfl
          | cons v us => cases hrest
        | cons v ts =>
          cases us with
          | nil => cases hrest
          | cons w us => exact String.toList_injective (List.cons.inj hrest).2
      rw [ih (fun t h => ht t (List.mem_cons_of_mem _ h))
        (fun u h => hu u (List.mem_cons_of_mem _ h)) hkey]

/-! ### Keys of texts -/

theorem canonical_of_tokenize {text : String} {ls : List Lexeme} (h : tokenize text = .ok ls) :
    ∀ t ∈ ls.map Lexeme.token, t.Canonical := by
  intro t ht x hx
  obtain ⟨l, hl, rfl⟩ := List.mem_map.mp ht
  obtain ⟨k, hk⟩ := literal_of_tokenize h hl hx
  exact NumberLiteral.canonical_of_value? hk

variable {q q' : String} {k : String}

theorem key?_eq_some (h : key? q = some k) :
    ∃ ls, tokenize q = .ok ls ∧ k = keyOf (ls.map Lexeme.token) := by
  unfold key? at h
  split at h
  · next ls hls =>
    cases h
    exact ⟨ls, hls, rfl⟩
  · cases h

theorem key?_of_tokenize {ls : List Lexeme} (h : tokenize q = .ok ls) :
    key? q = some (keyOf (ls.map Lexeme.token)) := by
  unfold key?
  rw [h]

/-- **Two queries have one key** exactly if they have the same tokens. -/
theorem key?_eq_iff : (∃ k, key? q = some k ∧ key? q' = some k) ↔
    ∃ ls ls', tokenize q = .ok ls ∧ tokenize q' = .ok ls' ∧
      ls.map Lexeme.token = ls'.map Lexeme.token := by
  constructor
  · rintro ⟨k, hk, hk'⟩
    obtain ⟨ls, hls, rfl⟩ := key?_eq_some hk
    obtain ⟨ls', hls', heq⟩ := key?_eq_some hk'
    exact ⟨ls, ls', hls, hls',
      keyOf_injective (canonical_of_tokenize hls) (canonical_of_tokenize hls') heq⟩
  · rintro ⟨ls, ls', hls, hls', heq⟩
    refine ⟨_, key?_of_tokenize hls, ?_⟩
    rw [key?_of_tokenize hls', heq]

end RecordQuery.Cache
