/-
Labelled transition systems and their guarded runs: the states reached by
runs each of whose steps meets a guard in the state it is taken from. What
holds at the start and is kept by every guarded step holds of all of them.
-/

namespace Lts

universe u v

/-- A system: where it starts, and what a labelled step does. -/
structure Sys (σ : Type u) (α : Type v) where
  start : σ → Prop
  step : σ → α → σ → Prop

variable {σ : Type u} {α : Type v}

/-- The states of the runs of `M` all of whose steps meet `ok`. -/
inductive Reach (M : Sys σ α) (ok : σ → α → Prop) : σ → Prop
  | start {s} : M.start s → Reach M ok s
  | step {s a s'} : Reach M ok s → ok s a → M.step s a s' → Reach M ok s'

/-- The states of every run. -/
abbrev Reachable (M : Sys σ α) : σ → Prop := Reach M fun _ _ => True

theorem Reach.invariant {M : Sys σ α} {ok : σ → α → Prop} {P : σ → Prop}
    (hstart : ∀ s, M.start s → P s)
    (hstep : ∀ s a s', Reach M ok s → P s → ok s a → M.step s a s' → P s') :
    ∀ {s}, Reach M ok s → P s := by
  intro s h
  induction h with
  | start h => exact hstart _ h
  | step hr hok hs ih => exact hstep _ _ _ hr ih hok hs

/-- A run whose guards are stronger is a run. -/
theorem Reach.mono {M : Sys σ α} {ok ok' : σ → α → Prop} (hok : ∀ s a, ok s a → ok' s a) :
    ∀ {s}, Reach M ok s → Reach M ok' s := by
  intro s h
  induction h with
  | start h => exact .start h
  | step _ h₁ h₂ ih => exact .step ih (hok _ _ h₁) h₂

/-! ## Systems that compute -/

/-- The system whose steps a partial function takes. -/
def Sys.ofNext (start : σ) (next : σ → α → Option σ) : Sys σ α where
  start s := s = start
  step s a s' := next s a = some s'

/-- A run, as long as its steps are possible and meet the guard. -/
def run (next : σ → α → Option σ) (ok : σ → α → Prop) [∀ s a, Decidable (ok s a)] : List α → σ → Option σ
  | [], s => some s
  | a :: as, s => if ok s a then (next s a).bind (run next ok as) else none

/-- A run that evaluates, from a state reached. -/
theorem Reach.run {M : Sys σ α} {next : σ → α → Option σ} {ok : σ → α → Prop} [∀ s a, Decidable (ok s a)]
    (hM : ∀ s a s', next s a = some s' → M.step s a s') {as : List α} {s s' : σ} (h : Reach M ok s)
    (hrun : Lts.run next ok as s = some s') : Reach M ok s' := by
  induction as generalizing s with
  | nil =>
    obtain rfl := Option.some.inj hrun
    exact h
  | cons a as ih =>
    rw [Lts.run] at hrun
    split at hrun
    next hok =>
      cases hnext : next s a with
      | none => rw [hnext] at hrun; cases hrun
      | some s₁ =>
        rw [hnext] at hrun
        exact ih (.step h hok (hM _ _ _ hnext)) hrun
    · cases hrun

/-- A run that evaluates to a state with `P`. -/
theorem Reach.evaluates {M : Sys σ α} {next : σ → α → Option σ} {ok : σ → α → Prop} [∀ s a, Decidable (ok s a)]
    (hM : ∀ s a s', next s a = some s' → M.step s a s') {start : σ} (h : Reach M ok start)
    (as : List α) (P : σ → Prop) [DecidablePred P] (hrun : (Lts.run next ok as start).any (fun s => P s) = true) :
    ∃ s, Reach M ok s ∧ P s := by
  obtain ⟨s, hs, hp⟩ := (Option.any_eq_true _ _).1 hrun
  exact ⟨s, h.run hM hs, of_decide_eq_true hp⟩

/-- The same, for a system given by its steps. -/
theorem Reach.ofRun {start : σ} {next : σ → α → Option σ} (ok : σ → α → Prop) [∀ s a, Decidable (ok s a)]
    (as : List α) (P : σ → Prop) [DecidablePred P] (h : (Lts.run next ok as start).any (fun s => P s) = true) :
    ∃ s, Reach (.ofNext start next) ok s ∧ P s :=
  Reach.evaluates (fun _ _ _ hs => hs) (.start rfl) as P h

/-! ## Calls made until they answer nothing -/

section

variable {β : Type v}

/-- The state before call `k` of `call 0`, `call 1`, … made from `s`. -/
def polled (call : Nat → σ → σ × Option β) (s : σ) : Nat → σ
  | 0 => s
  | k + 1 => (call k (polled call s k)).1

/-- Calls that lower a measure whenever they answer something come to answer
nothing, and keep what each of them keeps. -/
theorem polled_ends {τ : Type v} {below : τ → τ → Prop} (hwf : WellFounded below) {call : Nat → σ → σ × Option β}
    {I : σ → Prop} {μ : σ → τ}
    (hcall : ∀ k s, I s → (call k s).2.isSome = true → I (call k s).1 ∧ below (μ (call k s).1) (μ s)) {s : σ}
    (h : I s) :
    ∃ n, (call n (polled call s n)).2 = none ∧ (∀ k < n, (call k (polled call s k)).2.isSome = true) ∧
      I (polled call s n) := by
  -- by induction on the measure of the state the next call is made in
  suffices hgo : ∀ (m : τ) k, μ (polled call s k) = m → I (polled call s k) →
      (∀ j < k, (call j (polled call s j)).2.isSome = true) →
      ∃ n, (call n (polled call s n)).2 = none ∧ (∀ j < n, (call j (polled call s j)).2.isSome = true) ∧
        I (polled call s n) from hgo _ 0 rfl h fun j hj => absurd hj (Nat.not_lt_zero j)
  intro m
  induction m using hwf.induction with
  | _ m ih =>
    intro k hm hk hbefore
    cases hnext : (call k (polled call s k)).2 with
    | none => exact ⟨k, hnext, hbefore, hk⟩
    | some b =>
      have hsome : (call k (polled call s k)).2.isSome = true := by rw [hnext]; rfl
      obtain ⟨hkept, hlower⟩ := hcall k _ hk hsome
      refine ih _ (hm ▸ hlower) (k + 1) rfl hkept fun j hj => ?_
      rcases Nat.lt_or_eq_of_le (Nat.le_of_lt_succ hj) with hlt | rfl
      · exact hbefore j hlt
      · exact hsome

end

end Lts
