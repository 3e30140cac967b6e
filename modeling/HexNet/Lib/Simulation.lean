/-
Two stateful programs side by side: from related states they end alike, with
the same answer or with related errors, in related states. Programs compose, so
a simulation is checked operation by operation.
-/

namespace Simulation

variable {ε δ σ τ α β : Type} {R : σ → τ → Prop} {E : ε → δ → Prop}

/-- Results that match: states related by `R`, errors by `E`. -/
def Related (R : σ → τ → Prop) (E : ε → δ → Prop) : EStateM.Result ε σ α → EStateM.Result δ τ α → Prop
  | .ok a s, .ok b t => a = b ∧ R s t
  | .error e s, .error d t => E e d ∧ R s t
  | _, _ => False

/-- `n` does in related states what `m` does. -/
def Simulates (R : σ → τ → Prop) (E : ε → δ → Prop) (m : EStateM ε σ α) (n : EStateM δ τ α) : Prop :=
  ∀ s t, R s t → Related R E (m.run s) (n.run t)

theorem Simulates.pure (a : α) : Simulates R E (pure a) (pure a) := fun _ _ h => ⟨rfl, h⟩

theorem Simulates.throw {e : ε} {d : δ} (he : E e d) : Simulates R E (throw e : EStateM ε σ α) (throw d) :=
  fun _ _ h => ⟨he, h⟩

/-- Programs in sequence: the second need agree on answers the first can give. -/
theorem Simulates.bind_answers {m : EStateM ε σ α} {n : EStateM δ τ α} {f : α → EStateM ε σ β} {g : α → EStateM δ τ β}
    (hm : Simulates R E m n) (hf : ∀ a t t', n.run t = .ok a t' → Simulates R E (f a) (g a)) :
    Simulates R E (m >>= f) (n >>= g) := by
  intro s t h
  have hfirst := hm s t h
  rw [EStateM.run_bind, EStateM.run_bind]
  cases hr : m.run s <;> cases hr' : n.run t <;> rw [hr, hr'] at hfirst
  · obtain ⟨rfl, hnext⟩ := hfirst
    exact hf _ _ _ hr' _ _ hnext
  · exact hfirst.elim
  · exact hfirst.elim
  · exact hfirst

theorem Simulates.bind {m : EStateM ε σ α} {n : EStateM δ τ α} {f : α → EStateM ε σ β} {g : α → EStateM δ τ β}
    (hm : Simulates R E m n) (hf : ∀ a, Simulates R E (f a) (g a)) : Simulates R E (m >>= f) (n >>= g) :=
  hm.bind_answers fun a _ _ _ => hf a

end Simulation
