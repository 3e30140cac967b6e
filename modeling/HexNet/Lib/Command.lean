/-
Commands on a state that may fail part way, in `EStateM`: what holds of the
state one leaves when it returns, and of the error when it does not. One rule
for each way of putting commands together.
-/
import Mathlib.Algebra.Order.Ring.Nat

namespace Command

variable {ε σ α β : Type}

/-- Started where `P` holds, `m` returns with `Q`, or fails with `E`. -/
def Meets (P : σ → Prop) (m : EStateM ε σ α) (Q : α → σ → Prop) (E : ε → Prop) : Prop :=
  ∀ s, P s → match m s with
    | .ok a s' => Q a s'
    | .error e _ => E e

variable {P P' : σ → Prop} {m : EStateM ε σ α} {Q Q' : α → σ → Prop} {E : ε → Prop}

/-- From one state. -/
theorem Meets.start {s : σ} (h : match m s with
    | .ok a s' => Q a s'
    | .error e _ => E e) : Meets (· = s) m Q E := by
  intro s' hs
  rw [hs]
  exact h

theorem Meets.of_start (h : ∀ s, P s → Meets (· = s) m Q E) : Meets P m Q E := fun s hs => h s hs s rfl

theorem Meets.ok (h : Meets P m Q E) {s s' : σ} {a : α} (hs : P s) (hrun : m s = .ok a s') : Q a s' := by
  have hm := h s hs
  rwa [hrun] at hm

theorem Meets.error (h : Meets P m Q E) {s s' : σ} {e : ε} (hs : P s) (hrun : m s = .error e s') : E e := by
  have hm := h s hs
  rwa [hrun] at hm

theorem Meets.weaken (h : Meets P m Q E) (hP : ∀ s, P' s → P s) (hQ : ∀ a s, Q a s → Q' a s) : Meets P' m Q' E := by
  intro s hs
  have hm := h s (hP s hs)
  cases hrun : m s with
  | ok a s' =>
    rw [hrun] at hm
    exact hQ a s' hm
  | error e s' =>
    rw [hrun] at hm
    exact hm

theorem Meets.pure (a : α) (h : ∀ s, P s → Q a s) : Meets P (Pure.pure a : EStateM ε σ α) Q E := fun s hs => h s hs

theorem Meets.bind {f : α → EStateM ε σ β} {R : β → σ → Prop} (hm : Meets P m Q E) (hf : ∀ a, Meets (Q a) (f a) R E) :
    Meets P (m >>= f) R E := by
  intro s hs
  have hfirst := hm s hs
  show match EStateM.bind m f s with
    | .ok a s' => R a s'
    | .error e _ => E e
  unfold EStateM.bind
  cases hrun : m s with
  | ok a s' =>
    rw [hrun] at hfirst
    exact hf a s' hfirst
  | error e s' =>
    rw [hrun] at hfirst
    exact hfirst

theorem Meets.get (s : σ) : Meets (· = s) (MonadState.get : EStateM ε σ σ) (fun a s' => a = s ∧ s' = s) E :=
  fun _ hs => ⟨hs, hs⟩

theorem Meets.modify (s : σ) (f : σ → σ) :
    Meets (· = s) (modifyGet fun s => (PUnit.unit, f s) : EStateM ε σ PUnit) (fun _ s' => s' = f s) E := by
  intro s' hs
  subst hs
  exact rfl

theorem Meets.ite {c : Prop} [Decidable c] {n : EStateM ε σ α} (hm : c → Meets P m Q E) (hn : ¬ c → Meets P n Q E) :
    Meets P (if c then m else n) Q E := by
  split
  next hc => exact hm hc
  next hc => exact hn hc

/-- A loop over a list, by what holds with some of it still to come. -/
theorem Meets.forM {f : α → EStateM ε σ PUnit} {I : List α → σ → Prop}
    (h : ∀ x xs, Meets (I (x :: xs)) (f x) (fun _ => I xs) E) (xs : List α) :
    Meets (I xs) (xs.forM f) (fun _ => I []) E := by
  induction xs with
  | nil => exact Meets.pure _ fun _ hs => hs
  | cons x xs ih => exact (h x xs).bind fun _ => ih

end Command
