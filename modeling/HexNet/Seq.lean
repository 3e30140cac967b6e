/-
Packet numbering (`seq.rs`): sequences, their sixteen wire bits, the window
of received sequences, and the ring keyed by sequence.

A sequence is a `NonZeroU64` in the source. Here it is a natural number, with
`0` what `Sequence::new` refuses; a counter that reached `2^64` would stop the
program (`next` panics), so nothing depends on the difference.
-/
import Mathlib.Tactic.Common
import Mathlib.Algebra.Order.Ring.Nat
import Mathlib.Logic.Function.Basic

namespace HexNet

/-- The sixteen bits of a counter carried in a packet. -/
abbrev WireSequence := UInt16

namespace Sequence

def first : Nat := 1

/-- `Sequence::new`: zero is no sequence. -/
def ofCounter (value : Nat) : Option Nat := if value = 0 then none else some value

def toWire (s : Nat) : WireSequence := UInt16.ofNat s

/-- The sequence `n` before `s`, or `none` when that would reach zero. -/
def checkedSub (s : Nat) (n : Nat) : Option Nat := ofCounter (s - n)

end Sequence

/-- Resolves sixteen wire bits to the full counter value nearest `reference`:
`none` when that would be negative, or past a `u64`. -/
def reconstruct (reference : Nat) (wire : WireSequence) : Option Nat :=
  -- `wire.wrapping_sub(reference as u16) as i16`
  let ahead := (wire - UInt16.ofNat reference).toNat
  let delta : Int := if ahead < 2 ^ 15 then ahead else ahead - 2 ^ 16
  let full := (reference : Int) + delta
  if 0 ≤ full ∧ full < 2 ^ 64 then some full.toNat else none

/-- Resolves against the newest sequence seen, or zero before any. -/
def Sequence.resolve (reference : Option Nat) (wire : WireSequence) : Option Nat :=
  (reconstruct (reference.getD 0) wire).bind Sequence.ofCounter

inductive WindowError
  | duplicate
  | tooOld
deriving DecidableEq, Repr

/-- The last 64 sequences received. Bit `i` of the mask is `newest - i`. -/
structure ReceiveWindow where
  newest : Option Nat
  mask : BitVec 64

namespace ReceiveWindow

def empty : ReceiveWindow := ⟨none, 0⟩

/-- Whether a sequence may be accepted. Commits nothing. -/
def check (w : ReceiveWindow) (seq : Nat) : Except WindowError Unit :=
  match w.newest with
  | none => .ok ()
  | some newest =>
    if newest < seq then .ok ()
    else if 64 ≤ newest - seq then .error .tooOld
    else if w.mask.getLsbD (newest - seq) then .error .duplicate
    else .ok ()

/-- Records a sequence. -/
def insert (w : ReceiveWindow) (seq : Nat) : ReceiveWindow :=
  match w.newest with
  | none => ⟨some seq, 1⟩
  | some newest =>
    if seq ≤ newest then
      if newest - seq < 64 then { w with mask := w.mask ||| 1 <<< (newest - seq) } else w
    else
      let shifted := if 64 ≤ seq - newest then 0 else w.mask <<< (seq - newest)
      ⟨some seq, shifted ||| 1⟩

/-- Bit `i` set means `newest - 1 - i` was received. -/
def ackBits (w : ReceiveWindow) : BitVec 32 := (w.mask >>> 1).setWidth 32

end ReceiveWindow

/-! ## The ring keyed by sequence -/

structure Entry (T : Type) where
  seq : Nat
  item : T

/-- Where a sequence sits in a ring of `N` slots: a mask against `N - 1`. -/
def ringSlot (N : Nat) [NeZero N] (seq : Nat) : Fin N :=
  ⟨seq &&& (N - 1), Nat.lt_of_le_of_lt Nat.and_le_right (Nat.sub_one_lt (NeZero.ne N))⟩

/-- A fixed ring keyed by sequence number. An occupied slot is its occupant's own. -/
structure SequenceBuffer (T : Type) (N : Nat) [NeZero N] where
  slots : Fin N → Option (Entry T)
  home : ∀ i e, slots i = some e → ringSlot N e.seq = i

namespace SequenceBuffer

variable {T : Type} {N : Nat} [NeZero N]

def empty : SequenceBuffer T N := ⟨fun _ => none, fun _ _ h => by cases h⟩

/-- The ring with `e` in its slot, whatever the slot held. -/
def put (b : SequenceBuffer T N) (e : Entry T) : SequenceBuffer T N where
  slots := Function.update b.slots (ringSlot N e.seq) (some e)
  home := by
    intro i e' h
    by_cases hi : i = ringSlot N e.seq
    · subst hi
      rw [Function.update_self, Option.some.injEq] at h
      rw [← h]
    · rw [Function.update_of_ne hi] at h
      exact b.home i e' h

/-- Stores `item` under `seq`, returning whatever the slot held before. -/
def insert (b : SequenceBuffer T N) (seq : Nat) (item : T) :
    SequenceBuffer T N × Option (Entry T) :=
  (b.put ⟨seq, item⟩, b.slots (ringSlot N seq))

def get (b : SequenceBuffer T N) (seq : Nat) : Option T :=
  match b.slots (ringSlot N seq) with
  | some e => if e.seq = seq then some e.item else none
  | none => none

/-- What a write through `get_mut` leaves: the item replaced if `seq` is there. -/
def set (b : SequenceBuffer T N) (seq : Nat) (item : T) : SequenceBuffer T N :=
  match b.get seq with
  | some _ => b.put ⟨seq, item⟩
  | none => b

@[simp] theorem get_empty (q : Nat) : (empty : SequenceBuffer T N).get q = none := rfl

theorem get_put (b : SequenceBuffer T N) (e : Entry T) (q : Nat) :
    (b.put e).get q =
      if q = e.seq then some e.item else if ringSlot N q = ringSlot N e.seq then none else b.get q := by
  unfold get put
  by_cases hs : ringSlot N q = ringSlot N e.seq
  · simp only [hs, Function.update_self, ite_true]
    by_cases hq : q = e.seq
    · simp [hq]
    · simp [hq, Ne.symm hq]
  · have hq : q ≠ e.seq := fun h => hs (by rw [h])
    simp only [Function.update_of_ne hs, hs, hq, ite_false]

/-- A write in place changes nothing under any other sequence. -/
theorem get_set {b : SequenceBuffer T N} {s : Nat} {old : T} (h : b.get s = some old) (item : T)
    (q : Nat) : (b.set s item).get q = if q = s then some item else b.get q := by
  simp only [set, h, get_put]
  by_cases hq : q = s
  · simp [hq]
  · simp only [hq, ite_false]
    split
    · next hs =>
      -- The slot is `s`'s, so nothing else is found there.
      unfold get at h ⊢
      rw [hs]
      cases he : b.slots (ringSlot N s) with
      | none => rfl
      | some e =>
        simp only [he] at h
        split at h
        · next hes => simp [hes, Ne.symm hq]
        · cases h
    · rfl

/-- The occupant of a slot is found under its own sequence. -/
theorem get_of_slot {b : SequenceBuffer T N} {i : Fin N} {e : Entry T} (h : b.slots i = some e) :
    b.get e.seq = some e.item := by
  simp [get, b.home i e h, h]

theorem slot_of_get {b : SequenceBuffer T N} {q : Nat} {t : T} (h : b.get q = some t) :
    b.slots (ringSlot N q) = some ⟨q, t⟩ := by
  unfold get at h
  split at h
  · next e he =>
    split at h
    · next hq =>
      cases h
      rw [he]
      cases e
      simp_all
    · cases h
  · cases h

theorem slots_set {b : SequenceBuffer T N} {s : Nat} {old : T} (h : b.get s = some old) (item : T) :
    (b.set s item).slots (ringSlot N s) = some ⟨s, item⟩ := by
  simp [set, h, put]

/-- A slot taken right after a write in it: the write is gone. -/
theorem put_set {b : SequenceBuffer T N} {s : Nat} {old item : T} {e : Entry T}
    (hs : ringSlot N s = ringSlot N e.seq) (h : b.get s = some old) : (b.set s item).put e = b.put e := by
  simp only [set, h, put, hs, Function.update_idem]

end SequenceBuffer

end HexNet
