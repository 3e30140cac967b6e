/-
Little-endian byte strings as numbers: the value of a byte list, its prefixes
and suffixes as remainders and quotients, and writes into the middle of a
list.
-/
import Mathlib.Tactic.Ring
import Mathlib.Algebra.Order.Ring.Nat

namespace LeBytes

/-- The number a byte list is, least significant byte first. -/
def leNat : List UInt8 → Nat
  | [] => 0
  | b :: bs => b.toNat + 256 * leNat bs

/-- The low `k` bytes of `n`, least significant first. -/
def leBytes (n : Nat) : Nat → List UInt8
  | 0 => []
  | k + 1 => UInt8.ofNat n :: leBytes (n / 256) k

@[simp] theorem leNat_nil : leNat [] = 0 := rfl

@[simp] theorem length_leBytes (n k : Nat) : (leBytes n k).length = k := by
  induction k generalizing n with
  | zero => rfl
  | succ k ih => simp [leBytes, ih]

theorem leNat_lt (bs : List UInt8) : leNat bs < 256 ^ bs.length := by
  induction bs with
  | nil => simp
  | cons b bs ih =>
    have hb := b.toNat_lt
    simp only [leNat, List.length_cons, Nat.pow_succ]
    omega

theorem leNat_append (as bs : List UInt8) : leNat (as ++ bs) = leNat as + 256 ^ as.length * leNat bs := by
  induction as with
  | nil => simp
  | cons a as ih =>
    simp only [List.cons_append, leNat, ih, List.length_cons, Nat.pow_succ]
    ring

theorem leNat_leBytes (n k : Nat) : leNat (leBytes n k) = n % 256 ^ k := by
  induction k generalizing n with
  | zero => simp [leBytes, Nat.mod_one]
  | succ k ih =>
    have hpow : 256 ^ (k + 1) = 256 * 256 ^ k := by ring
    simp only [leBytes, leNat, ih, UInt8.toNat_ofNat', hpow, Nat.mod_mul]

theorem leBytes_leNat (bs : List UInt8) : leBytes (leNat bs) bs.length = bs := by
  induction bs with
  | nil => rfl
  | cons b bs ih =>
    have hb := b.toNat_lt
    have hdiv : (b.toNat + 256 * leNat bs) / 256 = leNat bs := by omega
    simp only [List.length_cons, leBytes, leNat, hdiv, ih, List.cons.injEq, and_true]
    rw [← UInt8.toNat_inj, UInt8.toNat_ofNat']
    omega

/-- Byte lists of one length are told apart by their values. -/
theorem leNat_inj {as bs : List UInt8} (hlen : as.length = bs.length) (h : leNat as = leNat bs) : as = bs := by
  rw [← leBytes_leNat as, ← leBytes_leNat bs, hlen, h]

/-- The number splits at any place, as its bytes do. -/
theorem leNat_split (bs : List UInt8) (k : Nat) :
    leNat bs = leNat (bs.take k) + 256 ^ k * leNat (bs.drop k) ∧ leNat (bs.take k) < 256 ^ k := by
  refine ⟨?_, (leNat_lt _).trans_le (Nat.pow_le_pow_right (by decide) (List.length_take_le ..))⟩
  by_cases hk : k ≤ bs.length
  · conv_lhs => rw [← List.take_append_drop k bs, leNat_append, List.length_take, Nat.min_eq_left hk]
  · rw [List.take_of_length_le (by omega), List.drop_eq_nil_of_le (by omega)]
    rfl

theorem leNat_take (bs : List UInt8) (k : Nat) : leNat (bs.take k) = leNat bs % 256 ^ k := by
  obtain ⟨heq, hlt⟩ := leNat_split bs k
  rw [heq, Nat.add_mul_mod_self_left, Nat.mod_eq_of_lt hlt]

theorem leNat_drop (bs : List UInt8) (k : Nat) : leNat (bs.drop k) = leNat bs / 256 ^ k := by
  obtain ⟨heq, hlt⟩ := leNat_split bs k
  rw [heq, Nat.add_mul_div_left _ _ (Nat.pow_pos (by decide)), Nat.div_eq_of_lt hlt, Nat.zero_add]

/-! ## Parts of a list -/

/-- The `len` items from `start` on, where there are that many. -/
def slice {α : Type} (l : List α) (start len : Nat) : Option (List α) :=
  if start + len ≤ l.length then some ((l.drop start).take len) else none

theorem slice_append {α : Type} {pre mid post : List α} {start len : Nat} (hstart : pre.length = start)
    (hlen : mid.length = len) : slice (pre ++ (mid ++ post)) start len = some mid := by
  subst hstart hlen
  rw [slice, if_pos (by simp), List.drop_left, List.take_left]

theorem length_slice {α : Type} {l part : List α} {start len : Nat} (h : slice l start len = some part) :
    part.length = len := by
  unfold slice at h
  split at h
  · cases h
    rw [List.length_take, List.length_drop]
    omega
  · cases h

/-! ## Writes into a list -/

/-- `l` with `new` written from position `i` on. -/
def overwrite {α : Type} (l : List α) (i : Nat) (new : List α) : List α :=
  l.take i ++ new ++ l.drop (i + new.length)

theorem length_overwrite {α : Type} {l new : List α} {i : Nat} (h : i + new.length ≤ l.length) :
    (overwrite l i new).length = l.length := by
  simp only [overwrite, List.length_append, List.length_take, List.length_drop]
  omega

theorem take_overwrite {α : Type} {l new : List α} {i : Nat} (h : i ≤ l.length) :
    (overwrite l i new).take (i + new.length) = l.take i ++ new := by
  rw [overwrite, List.take_append_of_le_length (by simp; omega), List.take_of_length_le (by simp)]

theorem overwrite_append {α : Type} (pre post new : List α) :
    overwrite (pre ++ post) pre.length new = pre ++ (new ++ post.drop new.length) := by
  simp [overwrite, List.drop_append]

@[simp] theorem overwrite_nil {α : Type} (l : List α) (i : Nat) : overwrite l i [] = l := by
  rw [overwrite, List.append_nil, List.length_nil, Nat.add_zero, List.take_append_drop]

/-- A write within the first part. -/
theorem overwrite_append_left {α : Type} {xs new : List α} (ys : List α) {i : Nat} (h : i + new.length ≤ xs.length) :
    overwrite (xs ++ ys) i new = overwrite xs i new ++ ys := by
  rw [overwrite, overwrite, List.take_append_of_le_length (by omega), List.drop_append_of_le_length h,
    List.append_assoc, List.append_assoc, List.append_assoc]

/-- A write behind the first part. -/
theorem overwrite_append_right {α : Type} (xs ys new : List α) (i : Nat) :
    overwrite (xs ++ ys) (xs.length + i) new = xs ++ overwrite ys i new := by
  rw [overwrite, overwrite, List.take_length_add_append, Nat.add_assoc, List.drop_length_add_append,
    List.append_assoc, List.append_assoc, List.append_assoc]

/-- A write across the end of the first part. -/
theorem overwrite_append_across {α : Type} {xs bs : List α} (ys cs : List α) {i : Nat} (h : i + bs.length = xs.length) :
    overwrite (xs ++ ys) i (bs ++ cs) = overwrite xs i bs ++ overwrite ys 0 cs := by
  have hdrop : (xs ++ ys).drop (i + (bs ++ cs).length) = ys.drop cs.length := by
    rw [List.length_append, ← Nat.add_assoc, h, List.drop_length_add_append]
  rw [overwrite, overwrite, overwrite, hdrop, List.take_append_of_le_length (by omega), h, List.drop_length,
    List.take_zero, List.nil_append, Nat.zero_add, List.append_nil, List.append_assoc, List.append_assoc,
    List.append_assoc]

theorem overwrite_take {α : Type} {l new : List α} {i n : Nat} (hi : i ≤ l.length) (h : i + new.length ≤ n) :
    (overwrite l i new).take n = overwrite (l.take n) i new := by
  have htake : ((l.take i ++ new) ++ l.drop (i + new.length)).take n =
      (l.take i ++ new) ++ (l.drop (i + new.length)).take (n - (i + new.length)) := by
    rw [List.take_append, List.take_of_length_le (by simp; omega), List.length_append, List.length_take,
      Nat.min_eq_left hi]
  rw [overwrite, overwrite, htake, List.take_take, Nat.min_eq_left (by omega), List.drop_take]

/-- A write over all there is. -/
theorem overwrite_all {α : Type} {l new : List α} (h : new.length = l.length) : overwrite l 0 new = new := by
  rw [overwrite, List.take_zero, List.nil_append, Nat.zero_add, h, List.drop_length, List.append_nil]

/-- A part written over by one of its length. -/
theorem overwrite_part {α : Type} {pre old post new : List α} (h : new.length = old.length) :
    overwrite (pre ++ (old ++ post)) pre.length new = pre ++ (new ++ post) := by
  rw [overwrite_append, h, List.drop_left]

end LeBytes
