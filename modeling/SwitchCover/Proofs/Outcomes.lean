import Mathlib.Order.Defs.Unbundled
import SwitchCover.Build.Error

namespace SwitchCover

def mapState (put : σ → τ) : EStateM.Result ε σ α → EStateM.Result ε τ α
  | .ok a s => .ok a (put s)
  | .error e s => .error e (put s)

/-- If a computation succeeds from `s`, its result and the state satisfy `Q`. If it fails, its error
and the state satisfy `E`. -/
def Outcome (s : σ) (x : EStateM ε σ α) (Q : α → σ → Prop) (E : ε → σ → Prop) : Prop :=
  match x s with
  | .ok a t => Q a t
  | .error e t => E e t

namespace Outcome

variable {x : EStateM ε σ α} {Q Q' : α → σ → Prop} {E E' : ε → σ → Prop}

theorem get {f : σ → EStateM ε σ α} (h : Outcome s (f s) Q E) : Outcome s (get >>= f) Q E :=
  h

theorem ok (hx : Outcome s x Q E) (h : x s = .ok a t) : Q a t := by
  simpa only [Outcome, h] using hx

theorem error (hx : Outcome s x Q E) (h : x s = .error e t) : E e t := by
  simpa only [Outcome, h] using hx

theorem of_cases (hQ : ∀ a t, x s = .ok a t → Q a t) (hE : ∀ e t, x s = .error e t → E e t) :
    Outcome s x Q E := by
  unfold Outcome
  split
  next a t h => exact hQ a t h
  next e t h => exact hE e t h

theorem mono (hx : Outcome s x Q E) (hQ : ∀ a t, Q a t → Q' a t) (hE : ∀ e t, E e t → E' e t) :
    Outcome s x Q' E' :=
  of_cases (fun a t h => hQ a t (hx.ok h)) fun e t h => hE e t (hx.error h)

theorem bind {f : α → EStateM ε σ β} {P : β → σ → Prop} (hx : Outcome s x Q E)
    (hf : ∀ a t, x s = .ok a t → Q a t → Outcome t (f a) P E') (hE : ∀ e t, E e t → E' e t) :
    Outcome s (x >>= f) P E' := by
  cases h : x s with
  | ok a t =>
    have hb : (x >>= f) s = f a t := by simp only [Bind.bind, EStateM.bind, h]
    have hf := hf a t h (hx.ok h)
    simpa only [Outcome, hb] using hf
  | error e t =>
    have hb : (x >>= f) s = .error e t := by simp only [Bind.bind, EStateM.bind, h]
    simpa only [Outcome, hb] using hE e t (hx.error h)

theorem map {P : β → σ → Prop} {f : α → β} (hx : Outcome s x Q E)
    (hf : ∀ a t, Q a t → P (f a) t) : Outcome s (f <$> x) P E := by
  rw [map_eq_pure_bind]
  exact hx.bind (fun a t _ ha => hf a t ha) fun _ _ he => he

/-- A computation on a part of the state, where `put` gives the whole state back. -/
theorem lift {y : EStateM ε τ α} {t : τ} (hx : Outcome s x Q E) (put : σ → τ)
    (hy : y t = mapState put (x s)) :
    Outcome t y (fun a t' => ∃ s', Q a s' ∧ t' = put s')
      fun e t' => ∃ s', E e s' ∧ t' = put s' := by
  unfold Outcome
  rw [hy]
  cases hs : x s with
  | ok a s' => exact ⟨s', hx.ok hs, rfl⟩
  | error e s' => exact ⟨s', hx.error hs, rfl⟩

end Outcome

/-- From `s` a computation leads to a state in relation `R` to `s`, also if it fails. If it
succeeds, its result and the state satisfy `Q`, and if it fails, its error and the state satisfy
`F`. -/
def Ensures (R : σ → σ → Prop) (F : ε → σ → Prop) (s : σ) (x : EStateM ε σ α)
    (Q : α → σ → Prop) : Prop :=
  Outcome s x (fun a t => R s t ∧ Q a t) fun e t => R s t ∧ F e t

namespace Ensures

variable {R : σ → σ → Prop} {F : ε → σ → Prop} {x : EStateM ε σ α}

theorem outcome (hx : Ensures R F s x Q) :
    Outcome s x (fun a t => R s t ∧ Q a t) fun e t => R s t ∧ F e t :=
  hx

theorem ok (hx : Ensures R F s x Q) (h : x s = .ok a t) : R s t ∧ Q a t :=
  hx.outcome.ok h

theorem error (hx : Ensures R F s x Q) (h : x s = .error e t) : R s t ∧ F e t :=
  hx.outcome.error h

theorem pure {Q : α → σ → Prop} (hr : R s s) (ha : Q a s) :
    Ensures R F s (pure a : EStateM ε σ α) Q :=
  ⟨hr, ha⟩

theorem throw {Q : α → σ → Prop} (hr : R s s) (he : F e s) :
    Ensures R F s (throw e : EStateM ε σ α) Q :=
  ⟨hr, he⟩

theorem get {f : σ → EStateM ε σ α} (h : Ensures R F s (f s) Q) : Ensures R F s (get >>= f) Q :=
  h

theorem bind [IsTrans σ R] {f : α → EStateM ε σ β} (hx : Ensures R F s x Q)
    (hf : ∀ a t, R s t → Q a t → Ensures R F t (f a) P) : Ensures R F s (x >>= f) P := by
  apply hx.outcome.bind
  · intro a t _ ha
    apply (hf a t ha.1 ha.2).outcome.mono
    · exact fun b u hb => ⟨trans_of R ha.1 hb.1, hb.2⟩
    · exact fun e u he => ⟨trans_of R ha.1 he.1, he.2⟩
  · exact fun _ _ he => he

theorem map {P : β → σ → Prop} {f : α → β} (hx : Ensures R F s x Q)
    (hf : ∀ a t, R s t → Q a t → P (f a) t) : Ensures R F s (f <$> x) P :=
  hx.outcome.map fun a t ha => ⟨ha.1, hf a t ha.1 ha.2⟩

theorem weaken {S : σ → σ → Prop} (hx : Ensures R F s x Q) (h : ∀ t, R s t → S s t) :
    Ensures S F s x Q :=
  hx.outcome.mono (fun _ t ha => ⟨h t ha.1, ha.2⟩) fun _ t he => ⟨h t he.1, he.2⟩

theorem mono {G : ε → σ → Prop} (hx : Ensures R F s x Q) (h : ∀ e t, F e t → G e t) :
    Ensures R G s x Q :=
  hx.outcome.mono (fun _ _ ha => ha) fun e t he => ⟨he.1, h e t he.2⟩

theorem self (hx : Ensures R F s x Q) :
    Ensures R (fun e t => F e t ∧ x s = .error e t) s x fun a t => Q a t ∧ x s = .ok a t := by
  apply Outcome.of_cases
  · exact fun a t h => ⟨(hx.ok h).1, (hx.ok h).2, h⟩
  · exact fun e t h => ⟨(hx.error h).1, (hx.error h).2, h⟩

end Ensures

/-- The state left by a failure satisfies `P` if the error is a build error. -/
def OnBuildError (P : σ → Prop) (e : StepError) (t : σ) : Prop :=
  ∀ b, e = .build b → P t

end SwitchCover
