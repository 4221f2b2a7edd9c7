import Mathlib

/-!
# Outcomes of actions

An action on a state succeeds or fails, and leaves a state either way.

* `bind_eq_ok`, `bind_of_ok`, …: how a sequence of actions succeeds or fails.
-/

namespace ProtoWire

section Sequences

variable {ε σ α β : Type} {x : EStateM ε σ α} {f : α → EStateM ε σ β} {e : ε} {s s' : σ} {a a' : α}
  {b : β}

theorem bind_eq_ok : (x >>= f) s = .ok b s' ↔ ∃ a t, x s = .ok a t ∧ f a t = .ok b s' := by
  change EStateM.bind x f s = _ ↔ _
  unfold EStateM.bind
  cases x s with
  | ok a t =>
    constructor
    · intro h
      exact ⟨a, t, rfl, h⟩
    · rintro ⟨_, _, ⟨⟩, h⟩
      exact h
  | error e t => simp

theorem map_eq_ok {f : α → β} : (f <$> x) s = .ok b s' ↔ ∃ a, x s = .ok a s' ∧ f a = b := by
  change EStateM.map f x s = _ ↔ _
  unfold EStateM.map
  cases x s with
  | ok a t =>
    constructor
    · rintro ⟨⟩
      exact ⟨a, rfl, rfl⟩
    · rintro ⟨_, ⟨⟩, rfl⟩
      rfl
  | error e t => simp

theorem map_eq_error {f : α → β} : (f <$> x) s = .error e s' ↔ x s = .error e s' := by
  change EStateM.map f x s = _ ↔ _
  unfold EStateM.map
  cases x s with
  | ok a t | error e t => simp

@[simp] theorem pure_apply : (pure a : EStateM ε σ α) s = .ok a s := rfl

@[simp] theorem throw_apply : (throw e : EStateM ε σ α) s = .error e s := rfl

@[simp] theorem get_apply : (get : EStateM ε σ σ) s = .ok s s := rfl

@[simp] theorem set_apply : (set s : EStateM ε σ Unit) s' = .ok () s := rfl

@[simp] theorem modify_apply {f : σ → σ} : (modify f : EStateM ε σ Unit) s = .ok () (f s) := rfl

/-- After an action that succeeds, the rest goes on from its state. -/
theorem bind_of_ok (h : x s = .ok a s') : (x >>= f) s = f a s' := by
  change EStateM.bind x f s = _
  unfold EStateM.bind
  rw [h]

theorem bind_of_error (h : x s = .error e s') : (x >>= f) s = .error e s' := by
  change EStateM.bind x f s = _
  unfold EStateM.bind
  rw [h]

theorem bind_congr_left {y : EStateM ε σ α} (h : x s = y s) : (x >>= f) s = (y >>= f) s := by
  change EStateM.bind x f s = EStateM.bind y f s
  unfold EStateM.bind
  rw [h]

/-- What follows an action matters only where the action succeeds. -/
theorem bind_congr_ok {g : α → EStateM ε σ β}
    (h : ∀ a t, x s = .ok a t → f a t = g a t) : (x >>= f) s = (x >>= g) s := by
  change EStateM.bind x f s = EStateM.bind x g s
  unfold EStateM.bind
  cases hx : x s with
  | ok a t => exact h a t hx
  | error e t => rfl

end Sequences

/-! ### What actions keep -/

/-- From a state with `P` the action ends with `Q`, or fails in a state with `E`. -/
def Ensures {ε σ α : Type} (P : σ → Prop) (x : EStateM ε σ α) (Q : α → σ → Prop)
    (E : σ → Prop) : Prop :=
  ∀ s, P s →
    match x s with
    | .ok a t => Q a t
    | .error _ t => E t

/-- The action keeps the property, whatever its outcome. -/
abbrev Keeps {ε σ α : Type} (P : σ → Prop) (x : EStateM ε σ α) : Prop :=
  Ensures P x (fun _ => P) P

namespace Ensures

variable {ε σ α β : Type} {P P' E E' : σ → Prop} {Q Q' : α → σ → Prop} {R : β → σ → Prop}
  {x : EStateM ε σ α}

theorem throw {e : ε} (h : ∀ s, P s → E s) :
    Ensures P (MonadExcept.throw e : EStateM ε σ α) Q E :=
  h

theorem bind {f : α → EStateM ε σ β} (hx : Ensures P x Q E)
    (hf : ∀ a, Ensures (Q a) (f a) R E) : Ensures P (x >>= f) R E := by
  intro s hs
  have h := hx s hs
  cases hout : x s with
  | ok a t =>
    rw [hout] at h
    rw [bind_of_ok hout]
    exact hf a t h
  | error e t =>
    rw [hout] at h
    rw [bind_of_error hout]
    exact h

theorem mono (hx : Ensures P x Q E) (hP : ∀ s, P' s → P s)
    (hQ : ∀ a s, Q a s → Q' a s) (hE : ∀ s, E s → E' s) : Ensures P' x Q' E' := by
  intro s hs
  have h := hx s (hP s hs)
  cases hout : x s with
  | ok a t =>
    rw [hout] at h
    exact hQ a t h
  | error e t =>
    rw [hout] at h
    exact hE t h

theorem modify {f : σ → σ} {Q : Unit → σ → Prop} (h : ∀ s, P s → Q () (f s)) :
    Ensures P (modify f : EStateM ε σ Unit) Q E :=
  h

/-- What is known of a failure may be weakened. -/
theorem failing (hx : Ensures P x Q E) (hE : ∀ s, E s → E' s) : Ensures P x Q E' :=
  hx.mono (fun _ h => h) (fun _ _ h => h) hE

theorem get : Ensures P (MonadState.get : EStateM ε σ σ) (fun a s => a = s ∧ P s) E :=
  fun _ hs => ⟨rfl, hs⟩

end Ensures

end ProtoWire
