/-
A sliding bit mask as a set of numbers: bit `k` stands for the number `k`
below the newest. Advancing shifts the mask, or clears it where the step is
as wide as the mask; an older number sets its own bit. What falls off the
end is forgotten, so the mask answers only for the last `w` numbers.
-/

namespace Window

/-- The mask answers for `S` among the last `w` numbers, up to `newest`. -/
structure Tracks {w : Nat} (mask : BitVec w) (newest : Nat) (S : Nat → Prop) : Prop where
  newest_mem : S newest
  le : ∀ i, S i → i ≤ newest
  bit : ∀ i k, i + k = newest → k < w → (mask.getLsbD k = true ↔ S i)

variable {w : Nat} {mask : BitVec w} {newest : Nat} {S : Nat → Prop}

theorem Tracks.congr {S' : Nat → Prop} (h : Tracks mask newest S) (hS : ∀ i, S' i ↔ S i) : Tracks mask newest S' :=
  ⟨(hS _).2 h.newest_mem, fun i hi => h.le i ((hS i).1 hi), fun i k hik hk => (h.bit i k hik hk).trans (hS i).symm⟩

theorem getLsbD_one_shiftLeft (w j k : Nat) : ((1 : BitVec w) <<< j).getLsbD k = (decide (k < w) && decide (k = j)) := by
  rw [BitVec.getLsbD_shiftLeft, BitVec.ofNat_eq_ofNat, BitVec.getLsbD_one]
  by_cases hk : k < w <;> by_cases hj : k = j <;> simp [hk, hj] <;> omega

/-- The first number. -/
theorem tracks_one (w newest : Nat) : Tracks (1 : BitVec w) newest fun i => i = newest where
  newest_mem := rfl
  le := fun _ h => Nat.le_of_eq h
  bit := by
    intro i k hik hk
    rw [BitVec.ofNat_eq_ofNat, BitVec.getLsbD_one]
    simp only [Bool.and_eq_true, decide_eq_true_eq]
    omega

/-- A newer number, `d` past the newest. -/
theorem Tracks.advance (h : Tracks mask newest S) {d : Nat} (hd : 0 < d) :
    Tracks ((if w ≤ d then 0 else mask <<< d) ||| 1) (newest + d) fun i => i = newest + d ∨ S i where
  newest_mem := .inl rfl
  le := by
    rintro i (rfl | hi)
    · exact Nat.le_refl _
    · exact Nat.le_trans (h.le i hi) (Nat.le_add_right _ _)
  bit := by
    intro i k hik hk
    have hone : ((1 : BitVec w).getLsbD k = true) ↔ i = newest + d := by
      rw [BitVec.ofNat_eq_ofNat, BitVec.getLsbD_one]
      simp only [Bool.and_eq_true, decide_eq_true_eq]
      omega
    have hold : ((if w ≤ d then 0 else mask <<< d).getLsbD k = true) ↔ S i := by
      by_cases hwide : w ≤ d
      · -- Every number of the old mask is now too old to be answered for.
        have hnot : ¬ S i := fun hi => by have := h.le i hi; omega
        simp [hwide, hnot]
      · rw [if_neg hwide, BitVec.getLsbD_shiftLeft]
        by_cases hkd : k < d
        · have hnot : ¬ S i := fun hi => by have := h.le i hi; omega
          simp [hkd, hnot]
        · have hbit := h.bit i (k - d) (by omega) (by omega)
          simp only [hk, hkd, decide_true, decide_false, Bool.not_false, Bool.true_and]
          exact hbit
    rw [BitVec.getLsbD_or, Bool.or_eq_true, hold, hone]
    exact or_comm

/-- An older number, still answered for. -/
theorem Tracks.insert (h : Tracks mask newest S) {j d : Nat} (hj : j + d = newest) :
    Tracks (mask ||| (1 : BitVec w) <<< d) newest fun i => i = j ∨ S i where
  newest_mem := .inr h.newest_mem
  le := by
    rintro i (rfl | hi)
    · omega
    · exact h.le i hi
  bit := by
    intro i k hik hk
    have hnew : (((1 : BitVec w) <<< d).getLsbD k = true) ↔ i = j := by
      rw [getLsbD_one_shiftLeft]
      simp only [Bool.and_eq_true, decide_eq_true_eq]
      omega
    rw [BitVec.getLsbD_or, Bool.or_eq_true, h.bit i k hik hk, hnew]
    exact or_comm

end Window
