import Mathlib.Data.List.Forall2
import RecordQuery.Compile.Error

/-! # Runs

Readers of tokens and steps of the compiler go from a state to a value or an error, and to a state
behind it. A run that succeeds has succeeded in every step (`bind_ok`), and what was computed of its
value tells that there is one (`ok_of_any`). Two steps run side by side
(`SideBySide`) if from related states they end in one way, with what they give related, and the
states behind as well. What is built from such steps in one way runs side by side again, so that a
fact about two whole runs needs one lemma for each step. -/

namespace RecordQuery

variable {ε σ α β γ δ : Type} {S : σ → σ → Prop} {E : ε → ε → Prop} {P : α → β → Prop}
  {Q : γ → δ → Prop}

/-! ### Runs that succeed -/

section

variable {x : EStateM ε σ α} {s s' : σ}

/-- What a step did before the rest of a run that succeeded. -/
theorem bind_ok {f : α → EStateM ε σ β} {b : β} (h : (x >>= f).run s = .ok b s') :
    ∃ a s₁, x.run s = .ok a s₁ ∧ (f a).run s₁ = .ok b s' := by
  change EStateM.bind x f s = _ at h
  unfold EStateM.bind at h
  split at h
  · next a s₁ hx => exact ⟨a, s₁, hx, h⟩
  · cases h

/-- What is done behind a step that succeeded. -/
theorem run_bind_ok {f : α → EStateM ε σ β} {a : α} (h : x.run s = .ok a s') :
    (x >>= f).run s = (f a).run s' := by
  change EStateM.bind x f s = _
  unfold EStateM.bind
  rw [show x s = .ok a s' from h]
  rfl

/-- Nothing is done behind a step that failed. -/
theorem run_bind_error {f : α → EStateM ε σ β} {e : ε} (h : x.run s = .error e s') :
    (x >>= f).run s = .error e s' := by
  change EStateM.bind x f s = _
  unfold EStateM.bind
  rw [show x s = .error e s' from h]

/-- A run that fails has failed in its first step, or behind it. -/
theorem bind_error {f : α → EStateM ε σ β} {e : ε} (h : (x >>= f).run s = .error e s') :
    x.run s = .error e s' ∨ ∃ a s₁, x.run s = .ok a s₁ ∧ (f a).run s₁ = .error e s' := by
  change EStateM.bind x f s = _ at h
  unfold EStateM.bind at h
  split at h
  · next a s₁ hx => exact .inr ⟨a, s₁, hx, h⟩
  · next f s₁ hx =>
    cases h
    exact .inl hx

theorem map_ok {f : α → β} {b : β} (h : (f <$> x).run s = .ok b s') :
    ∃ a, x.run s = .ok a s' ∧ b = f a := by
  rw [map_eq_pure_bind] at h
  obtain ⟨a, s₁, ha, h⟩ := bind_ok h
  cases h
  exact ⟨a, ha, rfl⟩

end

/-! ### Results that are values -/

section

variable {ε α β : Type} {x : Except ε α} {b : β}

theorem ok_of_map {f : α → β} (h : x.map f = .ok b) : ∃ a, x = .ok a ∧ f a = b := by
  rcases x with error | a
  · cases h
  · cases h
    exact ⟨a, rfl, rfl⟩

theorem ok_of_bind {f : α → Except ε β} (h : (x >>= f) = .ok b) : ∃ a, x = .ok a ∧ f a = .ok b := by
  rcases x with error | a
  · cases h
  · exact ⟨a, rfl, h⟩

theorem error_of_map {f : α → β} {e : ε} (h : x.map f = .error e) : x = .error e := by
  rcases x with error | a
  · cases h
    rfl
  · cases h

end

/-- A result of which something was computed that no error has. -/
theorem ok_of_any {r : Except ε α} {p : α → Bool} (h : r.toOption.any p = true) :
    ∃ a, r = .ok a ∧ p a = true := by
  cases r with
  | error e => cases h
  | ok a => exact ⟨a, rfl, h⟩

/-- A result of which something was computed that no value has. -/
theorem error_of_any {r : Except ε α} {p : ε → Bool}
    (h : (match r with | .ok _ => false | .error e => p e) = true) :
    ∃ e, r = .error e ∧ p e = true := by
  cases r with
  | error e => exact ⟨e, rfl, h⟩
  | ok a => cases h

/-- Whether a run gives a value that passes a check, and leaves a state that does. -/
def gives (x : EStateM ε σ α) (s : σ) (p : α → σ → Bool) : Bool :=
  match x.run s with
  | .ok a s' => p a s'
  | .error _ _ => false

theorem ok_of_gives {x : EStateM ε σ α} {s : σ} {p : α → σ → Bool} (h : gives x s p = true) :
    ∃ a s', x.run s = .ok a s' ∧ p a s' = true := by
  unfold gives at h
  split at h
  · next a s' hrun => exact ⟨a, s', hrun, h⟩
  · cases h

/-! ### Runs side by side -/

/-- Two stops of which both are faults, related, or both are panics. -/
inductive Stop.Alike (E : ε → ε → Prop) : Stop ε → Stop ε → Prop
  | fault {e f : ε} (h : E e f) : Alike E (.fault e) (.fault f)
  | panic : Alike E .panic .panic

/-- Two results of which both are values or both are errors, related in each case. -/
def EndAlike (S : σ → σ → Prop) (E : ε → ε → Prop) (P : α → β → Prop) :
    EStateM.Result ε σ α → EStateM.Result ε σ β → Prop
  | .ok a s, .ok b t => P a b ∧ S s t
  | .error e s, .error f t => E e f ∧ S s t
  | _, _ => False

/-- Two results without a state behind them, of which both are values or both are errors. -/
def ResultsAlike (E : ε → ε → Prop) (P : α → β → Prop) : Except ε α → Except ε β → Prop
  | .ok a, .ok b => P a b
  | .error e, .error f => E e f
  | _, _ => False

/-- Two steps that end alike from all states that are related. -/
def SideBySide (S : σ → σ → Prop) (E : ε → ε → Prop) (P : α → β → Prop) (x : EStateM ε σ α)
    (y : EStateM ε σ β) : Prop :=
  ∀ s t, S s t → EndAlike S E P (x.run s) (y.run t)

namespace SideBySide

variable {x : EStateM ε σ α} {y : EStateM ε σ β}

theorem pure {a : α} {b : β} (h : P a b) : SideBySide S E P (pure a) (pure b) :=
  fun _ _ hs => ⟨h, hs⟩

theorem throw {e f : ε} (h : E e f) :
    SideBySide S E P (throw e : EStateM ε σ α) (throw f : EStateM ε σ β) :=
  fun _ _ hs => ⟨h, hs⟩

theorem get : SideBySide (α := σ) (β := σ) S E S get get := fun _ _ hs => ⟨hs, hs⟩

theorem bind {f : α → EStateM ε σ γ} {g : β → EStateM ε σ δ} (h : SideBySide S E P x y)
    (hf : ∀ a b, P a b → SideBySide S E Q (f a) (g b)) : SideBySide S E Q (x >>= f) (y >>= g) := by
  intro s t hs
  have hxy := h s t hs
  change EndAlike S E Q (EStateM.bind x f s) (EStateM.bind y g t)
  change EndAlike S E P (x s) (y t) at hxy
  unfold EStateM.bind
  cases hx : x s with
  | ok a s' =>
    cases hy : y t with
    | ok b t' =>
      rw [hx, hy] at hxy
      exact hf a b hxy.1 s' t' hxy.2
    | error e t' => rw [hx, hy] at hxy; exact hxy.elim
  | error e s' =>
    cases hy : y t with
    | ok b t' => rw [hx, hy] at hxy; exact hxy.elim
    | error f t' => rw [hx, hy] at hxy; exact hxy

/-- Steps behind two that give one value. -/
theorem bindEq {x y : EStateM ε σ α} {f : α → EStateM ε σ γ} {g : α → EStateM ε σ δ}
    (h : SideBySide S E Eq x y) (hf : ∀ a, SideBySide S E Q (f a) (g a)) :
    SideBySide S E Q (x >>= f) (y >>= g) :=
  h.bind fun a b hab => by rw [hab]; exact hf b

theorem map {f : α → γ} {g : β → δ} (h : SideBySide S E P x y) (hf : ∀ a b, P a b → Q (f a) (g b)) :
    SideBySide S E Q (f <$> x) (g <$> y) := by
  rw [map_eq_pure_bind, map_eq_pure_bind]
  exact h.bind fun a b hab => .pure (hf a b hab)

theorem ofExcept {r : Except ε α} {r' : Except ε β} (h : ResultsAlike E P r r') :
    SideBySide S E P (ofExcept r : EStateM ε σ α) (ofExcept r' : EStateM ε σ β) := by
  cases r <;> cases r' <;> first | exact h.elim | exact fun _ _ hs => ⟨h, hs⟩

end SideBySide

namespace ResultsAlike

theorem bind {r : Except ε α} {r' : Except ε β} {f : α → Except ε γ} {g : β → Except ε δ}
    (h : ResultsAlike E P r r') (hf : ∀ a b, P a b → ResultsAlike E Q (f a) (g b)) :
    ResultsAlike E Q (r >>= f) (r' >>= g) := by
  cases r <;> cases r' <;> first | exact h.elim | exact h | exact hf _ _ h

theorem map {r : Except ε α} {r' : Except ε β} {f : α → γ} {g : β → δ} (h : ResultsAlike E P r r')
    (hf : ∀ a b, P a b → Q (f a) (g b)) : ResultsAlike E Q (r.map f) (r'.map g) := by
  cases r <;> cases r' <;> first | exact h.elim | exact h | exact hf _ _ h

end ResultsAlike

end RecordQuery
