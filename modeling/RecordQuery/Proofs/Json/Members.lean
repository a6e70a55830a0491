import RecordQuery.Json.Value

/-! # Members of an object

A member that is set behind others is the one that is found under its key
(`Json.member?_setMember_self`), and no other key is touched (`Json.member?_setMember_of_ne`). Keys
stay in the order in which they were first set (`Json.keys_setMember`). -/

namespace RecordQuery.Json

variable {k key : String} {v : Json} {members : List (String × Json)}

theorem keys_setMember : (setMember key v members).map Prod.fst =
    if key ∈ members.map Prod.fst then members.map Prod.fst else members.map Prod.fst ++ [key] := by
  induction members with
  | nil => rfl
  | cons m members ih =>
    obtain ⟨k, w⟩ := m
    rw [setMember]
    by_cases hk : k = key
    · subst hk
      rw [if_pos rfl, List.map_cons, List.map_cons, if_pos List.mem_cons_self]
    · rw [if_neg hk, List.map_cons, List.map_cons, ih]
      simp only [List.mem_cons, Ne.symm hk, false_or]
      split <;> rfl

theorem member?_cons (k key : String) (v : Json) (members : List (String × Json)) :
    member? k ((key, v) :: members) = if key = k then some v else member? k members := by
  unfold member?
  by_cases hk : key = k
  · rw [List.find?_cons_of_pos (by simp [hk]), if_pos hk]
    rfl
  · rw [List.find?_cons_of_neg (by simp [hk]), if_neg hk]

theorem member?_setMember_self : member? key (setMember key v members) = some v := by
  induction members with
  | nil => exact (member?_cons ..).trans (if_pos rfl)
  | cons m members ih =>
    obtain ⟨k, w⟩ := m
    rw [setMember]
    by_cases hk : k = key
    · rw [if_pos hk, member?_cons, if_pos hk]
    · rw [if_neg hk, member?_cons, if_neg hk, ih]

theorem member?_setMember_of_ne (h : k ≠ key) :
    member? k (setMember key v members) = member? k members := by
  induction members with
  | nil => exact (member?_cons ..).trans (if_neg h.symm)
  | cons m members ih =>
    obtain ⟨k', w⟩ := m
    rw [setMember]
    by_cases hk : k' = key
    · subst hk
      rw [if_pos rfl, member?_cons, member?_cons, if_neg h.symm]
      exact (if_neg h.symm).symm
    · rw [if_neg hk, member?_cons, member?_cons, ih]

end RecordQuery.Json
