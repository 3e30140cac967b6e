/-
Time as a plain value (`time.rs`): an instant and a length, both nanoseconds
in a `u64`. Sums and products saturate rather than wrap, so each type carries
its bound and every operation answers within it.
-/
import Mathlib.Tactic.Common
import Mathlib.Algebra.Order.Ring.Nat

namespace HexNet

/-- A length of time, in nanoseconds. -/
@[ext] structure Span where
  nanos : Nat
  lt : nanos < 2 ^ 64
deriving DecidableEq, Repr

namespace Span

/-- The length nearest `n` nanoseconds: beyond the range, the longest expressible. -/
def saturated (n : Nat) : Span := ⟨min n (2 ^ 64 - 1), by omega⟩

@[simp] theorem saturated_nanos (n : Nat) : (saturated n).nanos = min n (2 ^ 64 - 1) := rfl

def zero : Span := ⟨0, by decide⟩

def fromMicros (micros : Nat) : Span := saturated (micros * 1000)
def fromMillis (millis : Nat) : Span := saturated (millis * 1000000)
def fromSecs (secs : Nat) : Span := saturated (secs * 1000000000)

@[simp] theorem zero_nanos : zero.nanos = 0 := rfl

instance : LE Span := ⟨fun a b => a.nanos ≤ b.nanos⟩
instance : LT Span := ⟨fun a b => a.nanos < b.nanos⟩
instance (a b : Span) : Decidable (a ≤ b) := inferInstanceAs (Decidable (a.nanos ≤ b.nanos))
instance (a b : Span) : Decidable (a < b) := inferInstanceAs (Decidable (a.nanos < b.nanos))

theorem le_iff {a b : Span} : a ≤ b ↔ a.nanos ≤ b.nanos := Iff.rfl
theorem lt_iff {a b : Span} : a < b ↔ a.nanos < b.nanos := Iff.rfl

def isZero (a : Span) : Bool := a.nanos == 0

def saturatingAdd (a b : Span) : Span := saturated (a.nanos + b.nanos)
def saturatingSub (a b : Span) : Span := ⟨a.nanos - b.nanos, by have := a.lt; omega⟩
def saturatingMul (a : Span) (factor : Nat) : Span := saturated (a.nanos * factor)

/-- `(a * num) / den`, the product saturating first. -/
def scaled (num den : Nat) (a : Span) : Span :=
  ⟨(a.saturatingMul num).nanos / den, Nat.lt_of_le_of_lt (Nat.div_le_self _ _) (Span.lt _)⟩

/-- How far `a` is from `b`, whichever is larger. -/
def absDiff (a b : Span) : Span :=
  ⟨a.nanos - b.nanos + (b.nanos - a.nanos), by have := a.lt; have := b.lt; omega⟩

def min (a b : Span) : Span := if a.nanos ≤ b.nanos then a else b
def max (a b : Span) : Span := if b.nanos ≤ a.nanos then a else b

@[simp] theorem saturatingAdd_nanos (a b : Span) :
    (a.saturatingAdd b).nanos = Min.min (a.nanos + b.nanos) (2 ^ 64 - 1) := rfl

@[simp] theorem saturatingSub_nanos (a b : Span) :
    (a.saturatingSub b).nanos = a.nanos - b.nanos := rfl

@[simp] theorem saturatingMul_nanos (a : Span) (k : Nat) :
    (a.saturatingMul k).nanos = Min.min (a.nanos * k) (2 ^ 64 - 1) := rfl

@[simp] theorem min_nanos (a b : Span) : (min a b).nanos = Min.min a.nanos b.nanos := by
  unfold min; split <;> omega

@[simp] theorem max_nanos (a b : Span) : (max a b).nanos = Max.max a.nanos b.nanos := by
  unfold max; split <;> omega

end Span

/-- An instant on a monotonic clock, in nanoseconds since its origin. -/
@[ext] structure Timestamp where
  nanos : Nat
  lt : nanos < 2 ^ 64
deriving DecidableEq, Repr

namespace Timestamp

def zero : Timestamp := ⟨0, by decide⟩

@[simp] theorem zero_nanos : zero.nanos = 0 := rfl

instance : LE Timestamp := ⟨fun a b => a.nanos ≤ b.nanos⟩
instance : LT Timestamp := ⟨fun a b => a.nanos < b.nanos⟩
instance (a b : Timestamp) : Decidable (a ≤ b) := inferInstanceAs (Decidable (a.nanos ≤ b.nanos))
instance (a b : Timestamp) : Decidable (a < b) := inferInstanceAs (Decidable (a.nanos < b.nanos))

theorem le_iff {a b : Timestamp} : a ≤ b ↔ a.nanos ≤ b.nanos := Iff.rfl
theorem lt_iff {a b : Timestamp} : a < b ↔ a.nanos < b.nanos := Iff.rfl

/-- How long ago `earlier` was, or zero if it is not earlier. -/
def since (now earlier : Timestamp) : Span := ⟨now.nanos - earlier.nanos, by have := now.lt; omega⟩

def saturatingAdd (t : Timestamp) (d : Span) : Timestamp :=
  ⟨Min.min (t.nanos + d.nanos) (2 ^ 64 - 1), by omega⟩

def min (a b : Timestamp) : Timestamp := if a.nanos ≤ b.nanos then a else b
def max (a b : Timestamp) : Timestamp := if b.nanos ≤ a.nanos then a else b

@[simp] theorem since_nanos (now earlier : Timestamp) :
    (now.since earlier).nanos = now.nanos - earlier.nanos := rfl

@[simp] theorem saturatingAdd_nanos (t : Timestamp) (d : Span) :
    (t.saturatingAdd d).nanos = Min.min (t.nanos + d.nanos) (2 ^ 64 - 1) := rfl

@[simp] theorem min_nanos (a b : Timestamp) : (min a b).nanos = Min.min a.nanos b.nanos := by
  unfold min; split <;> omega

@[simp] theorem max_nanos (a b : Timestamp) : (max a b).nanos = Max.max a.nanos b.nanos := by
  unfold max; split <;> omega

/-- The earlier of two optional instants, an absent one never the earlier. -/
def earliest : Option Timestamp → Option Timestamp → Option Timestamp
  | some a, some b => some (min a b)
  | some a, none => some a
  | none, b => b

theorem le_trans {a b c : Timestamp} (h : a ≤ b) (h' : b ≤ c) : a ≤ c := Nat.le_trans h h'

theorem saturatingAdd_mono {a b : Timestamp} (h : a ≤ b) (d : Span) : a.saturatingAdd d ≤ b.saturatingAdd d := by
  rw [le_iff, saturatingAdd_nanos, saturatingAdd_nanos]
  rw [le_iff] at h
  omega

theorem earliest_le_left {a : Timestamp} (b : Option Timestamp) : ∃ t, earliest (some a) b = some t ∧ t ≤ a := by
  cases b with
  | none => exact ⟨a, rfl, Nat.le_refl _⟩
  | some b =>
    refine ⟨a.min b, rfl, ?_⟩
    rw [le_iff, min_nanos]
    exact Nat.min_le_left ..

theorem earliest_le_right (a : Option Timestamp) {b : Timestamp} : ∃ t, earliest a (some b) = some t ∧ t ≤ b := by
  cases a with
  | none => exact ⟨b, rfl, Nat.le_refl _⟩
  | some a =>
    refine ⟨a.min b, rfl, ?_⟩
    rw [le_iff, min_nanos]
    exact Nat.min_le_right ..

end Timestamp

end HexNet
