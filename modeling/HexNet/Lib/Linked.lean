/-
Linked chains in a table of next-indices: `Linked next stop b cs` says that
following `next` from `b` visits exactly `cs` and then stands at `stop`.
Chains append, and depend on the table only at what they visit.
-/
import Mathlib.Algebra.Order.Ring.Nat
import Mathlib.Logic.Function.Basic
import Mathlib.Data.List.Basic

/-- Following `next` from `b` visits `cs` and arrives at `stop`. -/
def Linked (next : Nat → Nat) (stop : Nat) : Nat → List Nat → Prop
  | b, [] => b = stop
  | b, c :: cs => b = c ∧ Linked next stop (next c) cs

namespace Linked

theorem append {next : Nat → Nat} {stop : Nat} {cs ds : List Nat} {b : Nat} :
    Linked next stop b (cs ++ ds) ↔ ∃ m, Linked next m b cs ∧ Linked next stop m ds := by
  induction cs generalizing b with
  | nil => simp [Linked]
  | cons c cs ih => simp [Linked, ih, and_assoc]

/-- A chain reads the table only at its own members. -/
theorem congr {next next' : Nat → Nat} {stop b : Nat} {cs : List Nat} (h : Linked next stop b cs)
    (heq : ∀ c ∈ cs, next' c = next c) : Linked next' stop b cs := by
  induction cs generalizing b with
  | nil => exact h
  | cons c cs ih =>
    obtain ⟨hb, htail⟩ := h
    refine ⟨hb, ?_⟩
    rw [heq c (by simp)]
    exact ih htail fun d hd => heq d (by simp [hd])

theorem update {next : Nat → Nat} {stop b x y : Nat} {cs : List Nat} (h : Linked next stop b cs) (hx : x ∉ cs) :
    Linked (Function.update next x y) stop b cs :=
  h.congr fun c hc => Function.update_of_ne (by rintro rfl; exact hx hc) _ _

/-- Cutting a chain after its last member. -/
theorem cut {next : Nat → Nat} {stop b l : Nat} {cs : List Nat} (h : Linked next stop b (cs ++ [l])) (hl : l ∉ cs)
    (stop' : Nat) : Linked (Function.update next l stop') stop' b (cs ++ [l]) ∧ next l = stop := by
  obtain ⟨m, hcs, hm, hstop⟩ := append.1 h
  refine ⟨append.2 ⟨m, hcs.update hl, hm, ?_⟩, hstop⟩
  exact Function.update_self _ _ _

end Linked
