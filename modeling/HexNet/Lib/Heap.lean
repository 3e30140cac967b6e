/-
Binary heaps laid out in a row: position `i` has its parent at `(i - 1) / 2`.
What is out of order while one value moves up or down is said by `Rising` and
`Sinking`; exchanging it with the parent or the lesser child keeps that, and
where it need not move the heap is in order.
-/
import Mathlib.Algebra.Order.Ring.Nat
import Mathlib.Logic.Function.Basic

namespace BinaryHeap

universe u

variable {α : Type u} [LinearOrder α] {n p : Nat} {f : Nat → α}

def parent (i : Nat) : Nat := (i - 1) / 2

theorem parent_lt {i : Nat} (h : 0 < i) : parent i < i := by
  unfold parent
  omega

/-- The positions below `p`. -/
theorem parent_eq_iff {i : Nat} (h : 0 < i) : parent i = p ↔ i = 2 * p + 1 ∨ i = 2 * p + 2 := by
  unfold parent
  omega

/-- No value is below its parent's. -/
def Ordered (n : Nat) (f : Nat → α) : Prop := ∀ i, 0 < i → i < n → f (parent i) ≤ f i

/-- In order but for the value at `p`, which may belong further up. -/
structure Rising (n : Nat) (f : Nat → α) (p : Nat) : Prop where
  others : ∀ i, 0 < i → i < n → i ≠ p → f (parent i) ≤ f i
  below : ∀ i, 0 < i → i < n → parent i = p → 0 < p → f (parent p) ≤ f i

/-- In order but for the value at `p`, which may belong further down. -/
structure Sinking (n : Nat) (f : Nat → α) (p : Nat) : Prop where
  others : ∀ i, 0 < i → i < n → parent i ≠ p → f (parent i) ≤ f i
  below : ∀ i, 0 < i → i < n → parent i = p → 0 < p → f (parent p) ≤ f i

/-! ## Only the first `n` values matter -/

theorem Ordered.congr {g : Nat → α} (h : Ordered n f) (heq : ∀ i, i < n → g i = f i) : Ordered n g := by
  intro i hi hin
  rw [heq i hin, heq _ ((parent_lt hi).trans hin)]
  exact h i hi hin

theorem Rising.congr {g : Nat → α} (h : Rising n f p) (hp : p < n) (heq : ∀ i, i < n → g i = f i) : Rising n g p where
  others i hi hin hip := by
    rw [heq i hin, heq _ ((parent_lt hi).trans hin)]
    exact h.others i hi hin hip
  below i hi hin hpar hp0 := by
    rw [heq i hin, heq _ ((parent_lt hp0).trans hp)]
    exact h.below i hi hin hpar hp0

theorem Sinking.congr {g : Nat → α} (h : Sinking n f p) (hp : p < n) (heq : ∀ i, i < n → g i = f i) :
    Sinking n g p where
  others i hi hin hpar := by
    rw [heq i hin, heq _ ((parent_lt hi).trans hin)]
    exact h.others i hi hin hpar
  below i hi hin hpar hp0 := by
    rw [heq i hin, heq _ ((parent_lt hp0).trans hp)]
    exact h.below i hi hin hpar hp0

/-- A value at the end may belong further up. -/
theorem Ordered.extended (h : Ordered n f) : Rising (n + 1) f n where
  others i hi hin hip := h i hi (by omega)
  below i hi hin hpar _ := by
    have := parent_lt hi
    omega

theorem Ordered.mono {m : Nat} (h : Ordered n f) (hm : m ≤ n) : Ordered m f :=
  fun i hi him => h i hi (him.trans_le hm)

/-! ## Moving a value -/

/-- The values at `i` and `j` exchanged. -/
def exchange (f : Nat → α) (i j : Nat) : Nat → α := Function.update (Function.update f i (f j)) j (f i)

omit [LinearOrder α] in
theorem exchange_left {i j : Nat} (h : i ≠ j) : exchange f i j i = f j := by
  rw [exchange, Function.update_of_ne h, Function.update_self]

omit [LinearOrder α] in
theorem exchange_right (i j : Nat) : exchange f i j j = f i := Function.update_self ..

omit [LinearOrder α] in
theorem exchange_other {i j k : Nat} (hi : k ≠ i) (hj : k ≠ j) : exchange f i j k = f k := by
  rw [exchange, Function.update_of_ne hj, Function.update_of_ne hi]

/-- The first value is the least. -/
theorem Ordered.least (h : Ordered n f) {i : Nat} (hi : i < n) : f 0 ≤ f i := by
  induction i using Nat.strongRecOn with
  | _ i ih =>
    rcases Nat.eq_zero_or_pos i with rfl | hpos
    · exact le_refl _
    · exact (ih (parent i) (parent_lt hpos) ((parent_lt hpos).trans hi)).trans (h i hpos hi)

/-- A value in place of another, below what is above, may belong further up if
it is below what it stands for. -/
theorem Ordered.lowered (h : Ordered n f) {x : α} (hp : p < n) (hx : x ≤ f p) : Rising n (Function.update f p x) p where
  others i hi hin hip := by
    rw [Function.update_of_ne hip]
    by_cases hpar : parent i = p
    · rw [hpar, Function.update_self]
      exact hx.trans (hpar ▸ h i hi hin)
    · rw [Function.update_of_ne hpar]
      exact h i hi hin
  below i hi hin hpar hp0 := by
    have hip : i ≠ p := fun he => by
      have := parent_lt hi
      omega
    rw [Function.update_of_ne hip, Function.update_of_ne (parent_lt hp0).ne]
    exact (h p hp0 hp).trans (hpar ▸ h i hi hin)

/-- A value between its parent's and what it stands for, or any larger one, may
belong further down. -/
theorem Ordered.raised (h : Ordered n f) {x : α} (hp : p < n) (hx : 0 < p → f (parent p) ≤ x) :
    Sinking n (Function.update f p x) p where
  others i hi hin hpar := by
    rw [Function.update_of_ne hpar]
    by_cases hip : i = p
    · subst hip
      rw [Function.update_self]
      exact hx hi
    · rw [Function.update_of_ne hip]
      exact h i hi hin
  below i hi hin hpar hp0 := by
    have hip : i ≠ p := fun he => by
      have := parent_lt hi
      omega
    rw [Function.update_of_ne hip, Function.update_of_ne (parent_lt hp0).ne]
    exact (h p hp0 hp).trans (hpar ▸ h i hi hin)

theorem Rising.done (h : Rising n f p) (hp : 0 < p → f (parent p) ≤ f p) : Ordered n f := by
  intro i hi hin
  by_cases hip : i = p
  · subst hip
    exact hp hi
  · exact h.others i hi hin hip

theorem Rising.move (h : Rising n f p) (hp : 0 < p) (hn : p < n) (hlt : f p < f (parent p)) :
    Rising n (exchange f p (parent p)) (parent p) := by
  have hpar := parent_lt hp
  have hne : p ≠ parent p := hpar.ne'
  refine ⟨fun i hi hin hia => ?_, fun i hi hin hia ha => ?_⟩
  · by_cases hip : i = p
    · subst hip
      rw [exchange_right, exchange_left hne]
      exact hlt.le
    · rw [exchange_other hip hia]
      by_cases h₁ : parent i = p
      · rw [h₁, exchange_left hne]
        exact h.below i hi hin h₁ hp
      · by_cases h₂ : parent i = parent p
        · -- a sibling, under what was already above both
          rw [h₂, exchange_right]
          exact hlt.le.trans (h₂ ▸ h.others i hi hin hip)
        · rw [exchange_other h₁ h₂]
          exact h.others i hi hin hip
  · have hup := parent_lt ha
    have hgrand : f (parent (parent p)) ≤ f (parent p) := h.others _ ha (hpar.trans hn) hpar.ne
    rw [exchange_other (hup.trans hpar).ne hup.ne]
    by_cases hip : i = p
    · rw [hip, exchange_left hne]
      exact hgrand
    · have hia' : i ≠ parent p := fun he => by
        have := parent_lt hi
        omega
      rw [exchange_other hip hia']
      exact hgrand.trans (hia ▸ h.others i hi hin hip)

theorem Sinking.done (h : Sinking n f p) (hp : ∀ i, 0 < i → i < n → parent i = p → f p ≤ f i) : Ordered n f := by
  intro i hi hin
  by_cases hpar : parent i = p
  · rw [hpar]
    exact hp i hi hin hpar
  · exact h.others i hi hin hpar

/-- Down to the lesser child `c`. -/
theorem Sinking.move (h : Sinking n f p) {c : Nat} (hc : 0 < c) (hcn : c < n) (hcp : parent c = p)
    (hleast : ∀ i, 0 < i → i < n → parent i = p → f c ≤ f i) (hlt : f c < f p) : Sinking n (exchange f p c) c := by
  have hpc : p < c := hcp ▸ parent_lt hc
  refine ⟨fun i hi hin hic => ?_, fun i hi hin hic _ => ?_⟩
  · by_cases hip : i = p
    · subst hip
      have hup := parent_lt hi
      rw [exchange_left hpc.ne, exchange_other hup.ne (hup.trans hpc).ne]
      exact h.below c hc hcn hcp hi
    · by_cases hpar : parent i = p
      · rw [hpar, exchange_left hpc.ne]
        by_cases heq : i = c
        · rw [heq, exchange_right]
          exact hlt.le
        · rw [exchange_other hip heq]
          exact hleast i hi hin hpar
      · have hne : i ≠ c := fun he => hpar (he ▸ hcp)
        rw [exchange_other hpar hic, exchange_other hip hne]
        exact h.others i hi hin hpar
  · have hci : c < i := hic ▸ parent_lt hi
    rw [hcp, exchange_left hpc.ne, exchange_other (hpc.trans hci).ne' hci.ne']
    have hle := h.others i hi hin (by rw [hic]; exact hpc.ne')
    rwa [hic] at hle

end BinaryHeap
