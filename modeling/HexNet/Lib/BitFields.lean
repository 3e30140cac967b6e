/-
Bit streams as lists of fields: each a width and a value, packed least
significant first. `pack` is the number such a stream is; `Begins` says a
number, read from a bit position on, starts with given fields. Streams
compose by append on both sides, so a codec is checked field by field.
-/
import HexNet.Lib.LeBytes
import Mathlib.Data.Nat.ModEq

namespace BitFields

open LeBytes

/-- Total width of a list of fields. -/
def width : List (Nat × Nat) → Nat
  | [] => 0
  | f :: fs => f.1 + width fs

/-- The fields packed, the first in the lowest bits, each cut to its width. -/
def pack : List (Nat × Nat) → Nat
  | [] => 0
  | f :: fs => f.2 % 2 ^ f.1 + 2 ^ f.1 * pack fs

@[simp] theorem width_nil : width [] = 0 := rfl
@[simp] theorem pack_nil : pack [] = 0 := rfl

@[simp] theorem width_cons (f : Nat × Nat) (fs : List (Nat × Nat)) : width (f :: fs) = f.1 + width fs := rfl

@[simp] theorem width_append (fs gs : List (Nat × Nat)) : width (fs ++ gs) = width fs + width gs := by
  induction fs with
  | nil => simp
  | cons f fs ih => simp only [List.cons_append, width_cons, ih]; omega

theorem pack_append (fs gs : List (Nat × Nat)) : pack (fs ++ gs) = pack fs + 2 ^ width fs * pack gs := by
  induction fs with
  | nil => simp
  | cons f fs ih =>
    simp only [List.cons_append, pack, ih, width_cons, Nat.pow_add]
    ring

theorem pack_one (n v : Nat) : pack [(n, v)] = v % 2 ^ n := by simp [pack]

theorem pack_lt (fs : List (Nat × Nat)) : pack fs < 2 ^ width fs := by
  induction fs with
  | nil => simp
  | cons f fs ih =>
    have h₁ : f.2 % 2 ^ f.1 < 2 ^ f.1 := Nat.mod_lt _ (Nat.two_pow_pos _)
    have h₂ : 2 ^ f.1 * (pack fs + 1) ≤ 2 ^ f.1 * 2 ^ width fs := Nat.mul_le_mul_left _ ih
    rw [pack, width_cons, Nat.pow_add]
    rw [Nat.mul_add] at h₂
    omega

/-- A stream cut at any bit, as two fields. -/
def cut (fs : List (Nat × Nat)) (at_ : Nat) : List (Nat × Nat) :=
  [(at_, pack fs), (width fs - at_, pack fs / 2 ^ at_)]

theorem width_cut {fs : List (Nat × Nat)} {at_ : Nat} (h : at_ ≤ width fs) : width (cut fs at_) = width fs := by
  simp only [cut, width_cons, width_nil]
  omega

theorem pack_cut {fs : List (Nat × Nat)} {at_ : Nat} (h : at_ ≤ width fs) : pack (cut fs at_) = pack fs := by
  have hhigh : pack fs / 2 ^ at_ < 2 ^ (width fs - at_) := by
    apply Nat.div_lt_of_lt_mul
    rw [← Nat.pow_add, Nat.add_sub_cancel' h]
    exact pack_lt fs
  simp only [cut, pack, Nat.mul_zero, Nat.add_zero]
  rw [Nat.mod_eq_of_lt hhigh, Nat.mod_add_div]

/-- Bytes as fields. -/
def bytes (bs : List UInt8) : List (Nat × Nat) := bs.map fun b => (8, b.toNat)

@[simp] theorem bytes_append (as bs : List UInt8) : bytes (as ++ bs) = bytes as ++ bytes bs := by
  simp [bytes]

@[simp] theorem width_bytes (bs : List UInt8) : width (bytes bs) = 8 * bs.length := by
  induction bs with
  | nil => rfl
  | cons b bs ih =>
    simp only [bytes, List.map_cons, width_cons, List.length_cons] at ih ⊢
    omega

theorem pow_256 (n : Nat) : 256 ^ n = 2 ^ (8 * n) := by
  rw [show 256 = 2 ^ 8 by decide, ← Nat.pow_mul]

theorem pack_bytes (bs : List UInt8) : pack (bytes bs) = leNat bs := by
  induction bs with
  | nil => rfl
  | cons b bs ih =>
    have hb := b.toNat_lt
    simp only [bytes, List.map_cons, pack, leNat] at ih ⊢
    rw [ih, Nat.mod_eq_of_lt hb]
    norm_num

/-- A quotient of the low bits is some of the quotient's low bits. -/
theorem mod_div_pow (x : Nat) {a b : Nat} (h : b ≤ a) : x % 2 ^ a / 2 ^ b = x / 2 ^ b % 2 ^ (a - b) := by
  rw [← Nat.mod_mul_right_div_self, ← Nat.pow_add, Nat.add_sub_cancel' h]

/-! ## Reading -/

/-- `t`, read from bit `p` on, starts with the fields `fs`. -/
def Begins (t p : Nat) (fs : List (Nat × Nat)) : Prop := t / 2 ^ p % 2 ^ width fs = pack fs

theorem begins_append {t p : Nat} {fs gs : List (Nat × Nat)} :
    Begins t p (fs ++ gs) ↔ Begins t p fs ∧ Begins t (p + width fs) gs := by
  have hlt := pack_lt fs
  have hpos : 0 < 2 ^ width fs := Nat.two_pow_pos _
  have hsplit : t / 2 ^ p % 2 ^ width (fs ++ gs) =
      t / 2 ^ p % 2 ^ width fs + 2 ^ width fs * (t / 2 ^ (p + width fs) % 2 ^ width gs) := by
    rw [width_append, Nat.pow_add, Nat.mod_mul, Nat.div_div_eq_div_mul, ← Nat.pow_add]
  unfold Begins
  rw [hsplit, pack_append]
  constructor
  · intro h
    have hmod : t / 2 ^ p % 2 ^ width fs < 2 ^ width fs := Nat.mod_lt _ hpos
    have h₁ := congrArg (· % 2 ^ width fs) h
    have h₂ := congrArg (· / 2 ^ width fs) h
    simp only [Nat.add_mul_mod_self_left, Nat.mod_eq_of_lt hmod, Nat.mod_eq_of_lt hlt] at h₁
    simp only [Nat.add_mul_div_left _ _ hpos, Nat.div_eq_of_lt hmod, Nat.div_eq_of_lt hlt,
      Nat.zero_add] at h₂
    exact ⟨h₁, h₂⟩
  · rintro ⟨h₁, h₂⟩
    rw [h₁, h₂]

theorem begins_cons {t p n v : Nat} {fs : List (Nat × Nat)} :
    Begins t p ((n, v) :: fs) ↔ t / 2 ^ p % 2 ^ n = v % 2 ^ n ∧ Begins t (p + n) fs := by
  rw [show (n, v) :: fs = [(n, v)] ++ fs from rfl, begins_append]
  simp only [Begins, width_cons, width_nil, Nat.add_zero, pack_one]

/-- A stream's own number starts with it, and so does any number that agrees
with it that far. -/
theorem begins_of_mod {t : Nat} {fs : List (Nat × Nat)} (h : t % 2 ^ width fs = pack fs) : Begins t 0 fs := by
  simpa [Begins] using h

/-- Whole bytes read at a byte position. -/
theorem begins_bytes {buf bs : List UInt8} {k : Nat} (hlen : k + bs.length ≤ buf.length)
    (h : Begins (leNat buf) (8 * k) (bytes bs)) : (buf.drop k).take bs.length = bs := by
  unfold Begins at h
  rw [width_bytes, pack_bytes, ← pow_256, ← pow_256, ← leNat_drop, ← leNat_take] at h
  exact leNat_inj (by simp; omega) h

end BitFields
