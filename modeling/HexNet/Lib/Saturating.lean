/-
Saturating counters: numbers up to a cap, whose sums stop at it. They are a
commutative monoid, since a sum that has stopped stays there; so a total does
not depend on how its terms were grouped, and it is the true total, cut once
(`val_sum`).
-/
import Mathlib.Algebra.BigOperators.Group.List.Basic
import Mathlib.Algebra.Order.Ring.Nat

/-- A number up to `cap`. -/
@[ext] structure Saturating (cap : Nat) where
  val : Nat
  le : val ≤ cap
  deriving DecidableEq

namespace Saturating

variable {cap : Nat}

/-- The number nearest `n`. -/
def of (n : Nat) : Saturating cap := ⟨min n cap, Nat.min_le_right n cap⟩

instance : Zero (Saturating cap) := ⟨⟨0, Nat.zero_le cap⟩⟩
instance : Add (Saturating cap) := ⟨fun a b => of (a.val + b.val)⟩

@[simp] theorem val_of (n : Nat) : (of n : Saturating cap).val = min n cap := rfl
@[simp] theorem val_zero : (0 : Saturating cap).val = 0 := rfl
@[simp] theorem val_add (a b : Saturating cap) : (a + b).val = min (a.val + b.val) cap := rfl

instance : AddCommMonoid (Saturating cap) where
  add_assoc a b c := by
    ext
    simp only [val_add]
    omega
  zero_add a := by
    ext
    simp [a.le]
  add_zero a := by
    ext
    simp [a.le]
  add_comm a b := by
    ext
    simp [Nat.add_comm]
  nsmul := nsmulRec

/-- A total is the true one, cut once. -/
theorem val_sum (ns : List Nat) : (ns.map (of : Nat → Saturating cap)).sum.val = min ns.sum cap := by
  induction ns with
  | nil => simp
  | cons n ns ih =>
    simp only [List.map_cons, List.sum_cons, val_add, val_of, ih]
    omega

end Saturating
