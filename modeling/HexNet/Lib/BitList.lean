/-
Bytes as lists of bits, the least significant bit of each byte first. What a
run of them is worth is a quotient and a remainder of the number the bytes are
(`value_window`); on byte boundaries it is some of the bytes (`toBytes_window`).
-/
import HexNet.Lib.BitFields

namespace BitList

open LeBytes BitFields

/-- The number some bits are, the first the lowest. -/
def value : List Bool → Nat
  | [] => 0
  | b :: bits => b.toNat + 2 * value bits

def ofByte (b : UInt8) : List Bool := (List.range 8).map b.toNat.testBit

def ofBytes (bytes : List UInt8) : List Bool := bytes.flatMap ofByte

/-- The whole bytes some bits are. -/
def toBytes (bits : List Bool) : List UInt8 := leBytes (value bits) (bits.length / 8)

theorem value_append (as bs : List Bool) : value (as ++ bs) = value as + 2 ^ as.length * value bs := by
  induction as with
  | nil => simp [value]
  | cons a as ih =>
    simp only [List.cons_append, value, ih, List.length_cons, Nat.pow_succ]
    ring

theorem value_take (bits : List Bool) (n : Nat) : value (bits.take n) = value bits % 2 ^ n := by
  induction n generalizing bits with
  | zero => simp [value, Nat.mod_one]
  | succ n ih =>
    cases bits with
    | nil => simp [value]
    | cons b bits =>
      have hb := b.toNat_lt
      have hmod : (b.toNat + 2 * value bits) % 2 = b.toNat := by omega
      have hdiv : (b.toNat + 2 * value bits) / 2 = value bits := by omega
      rw [List.take_succ_cons, value, value, ih, Nat.pow_succ', Nat.mod_mul, hmod, hdiv]

theorem value_drop (bits : List Bool) (n : Nat) : value (bits.drop n) = value bits / 2 ^ n := by
  induction n generalizing bits with
  | zero => simp
  | succ n ih =>
    cases bits with
    | nil => simp [value]
    | cons b bits =>
      have hb := b.toNat_lt
      have hdiv : (b.toNat + 2 * value bits) / 2 = value bits := by omega
      rw [List.drop_succ_cons, value, ih, Nat.pow_succ', ← Nat.div_div_eq_div_mul, hdiv]

/-- The low bits of a number, read off one by one. -/
theorem value_testBit (x n : Nat) : value ((List.range n).map x.testBit) = x % 2 ^ n := by
  induction n with
  | zero => simp [value, Nat.mod_one]
  | succ n ih =>
    rw [List.range_succ, List.map_append, value_append, ih, List.length_map, List.length_range, Nat.mod_pow_succ]
    simp only [List.map_cons, List.map_nil, value, Nat.toNat_testBit, Nat.mul_zero, Nat.add_zero]

@[simp] theorem length_ofByte (b : UInt8) : (ofByte b).length = 8 := by simp [ofByte]

theorem value_ofByte (b : UInt8) : value (ofByte b) = b.toNat := by
  rw [ofByte, value_testBit, Nat.mod_eq_of_lt b.toNat_lt]

@[simp] theorem length_ofBytes (bytes : List UInt8) : (ofBytes bytes).length = 8 * bytes.length := by
  induction bytes with
  | nil => rfl
  | cons b bytes ih =>
    simp only [ofBytes, List.flatMap_cons, List.length_append, List.length_cons] at ih ⊢
    rw [ih, length_ofByte]
    omega

theorem value_ofBytes (bytes : List UInt8) : value (ofBytes bytes) = leNat bytes := by
  induction bytes with
  | nil => rfl
  | cons b bytes ih =>
    have hcons : ofBytes (b :: bytes) = ofByte b ++ ofBytes bytes := rfl
    have hpow : 2 ^ (ofByte b).length = 256 := by rw [length_ofByte]; rfl
    rw [hcons, value_append, value_ofByte, ih, hpow, leNat]

/-- The bits at a position. -/
theorem value_window (bytes : List UInt8) (p n : Nat) :
    value (((ofBytes bytes).drop p).take n) = leNat bytes / 2 ^ p % 2 ^ n := by
  rw [value_take, value_drop, value_ofBytes]

/-- The bytes at a byte boundary. -/
theorem toBytes_window {bytes : List UInt8} {k len : Nat} (h : k + len ≤ bytes.length) :
    toBytes (((ofBytes bytes).drop (8 * k)).take (8 * len)) = (bytes.drop k).take len := by
  have hlen : (((ofBytes bytes).drop (8 * k)).take (8 * len)).length / 8 = ((bytes.drop k).take len).length := by
    simp only [List.length_take, List.length_drop, length_ofBytes]
    omega
  have hvalue : value (((ofBytes bytes).drop (8 * k)).take (8 * len)) = leNat ((bytes.drop k).take len) := by
    rw [value_window, leNat_take, leNat_drop, pow_256, pow_256]
  rw [toBytes, hlen, hvalue, leBytes_leNat]

end BitList
