/-
Message ids past the end of their counter (`channel.rs`).

An id is a `u32` that wraps, and so `next` and `distance_from` treat it. Its
sixteen wire bits are resolved to the nearest number of 64 bits, and a number
past the `u32` is refused: across the wrap the nearest number is never the id
(`wrapped_id_refused`), and elsewhere it always is.
-/
import HexNet.ChannelFacts
import Mathlib.Logic.Function.Iterate

namespace HexNet

namespace MessageId

theorem toNat_iterate_next (k : Nat) (i : MessageId) : (next^[k] i).toNat = (i.toNat + k) % 2 ^ 32 := by
  induction k generalizing i with
  | zero =>
    have := i.toNat_lt
    rw [Function.iterate_zero_apply]
    omega
  | succ k ih =>
    have hnext : (next i).toNat = (i.toNat + 1) % 2 ^ 32 := by rw [next, UInt32.toNat_add]; rfl
    rw [Function.iterate_succ_apply, ih, hnext]
    omega

/-- What an id resolves to is a number within 32768 of the reference. -/
theorem fromWire_near {r i : MessageId} {wire : WireSequence} (h : fromWire r wire = some i) :
    i.toNat ≤ r.toNat + 32767 ∧ r.toNat ≤ i.toNat + 32768 := by
  obtain ⟨full, hfull, hi⟩ := Option.bind_eq_some_iff.1 h
  split at hi
  next hlt =>
    obtain rfl := Option.some.inj hi
    rw [UInt32.toNat_ofNat_of_lt' hlt]
    have hahead := (wire - UInt16.ofNat r.toNat).toNat_lt
    simp only [reconstruct, Option.ite_none_right_eq_some, Option.some.injEq] at hfull
    obtain ⟨hrange, rfl⟩ := hfull
    by_cases hforward : (wire - UInt16.ofNat r.toNat).toNat < 2 ^ 15
    · rw [if_pos hforward] at hrange ⊢
      omega
    · rw [if_neg hforward] at hrange ⊢
      omega
  · cases hi

/-- **Ids survive the wire, save across the wrap**: of two ids at most 32767
steps apart, one resolves against the other exactly when they are that near as
numbers. -/
theorem survives_wire_iff {i r : MessageId} {k : Nat} (hk : k ≤ 32767) (h : next^[k] r = i ∨ next^[k] i = r) :
    fromWire r i.toWire = some i ↔ i.toNat ≤ r.toNat + 32767 ∧ r.toNat ≤ i.toNat + 32767 := by
  refine ⟨fun hres => ?_, fun ⟨hahead, hbehind⟩ => fromWire_toWire hahead (by omega)⟩
  obtain ⟨hahead, hbehind⟩ := fromWire_near hres
  have hi := i.toNat_lt
  have hr := r.toNat_lt
  refine ⟨hahead, ?_⟩
  rcases h with rfl | rfl
  · rw [toNat_iterate_next] at hbehind ⊢
    omega
  · rw [toNat_iterate_next] at hbehind hr ⊢
    omega

/-- The id after `7`, against `7`. -/
theorem survives_wire_iff_eight : fromWire 7 (toWire 8) = some 8 :=
  (survives_wire_iff (k := 1) (by decide) (.inl rfl)).2 (by decide)

/-- **The id after the last is refused**, though it is the next one. -/
theorem wrapped_id_refused : ∃ r i : MessageId, next r = i ∧ fromWire r i.toWire = none :=
  ⟨4294967295, 0, by decide, by decide⟩

end MessageId
end HexNet
