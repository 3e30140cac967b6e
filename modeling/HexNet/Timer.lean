/-
Deadlines for a fixed set of slots, at most one each (`timer.rs`): an indexed
binary min-heap. Each slot's entry knows where it sits, so a deadline is moved
or cancelled in place.

The heap is the live part of the source's storage, `entries[..len]`.
-/
import HexNet.Time

namespace HexNet

structure TimerEntry where
  at_ : Timestamp
  slot : Nat
  deriving DecidableEq

namespace TimerEntry

/-- What `entries` holds where it holds nothing. -/
def vacant : TimerEntry := ⟨.zero, 2 ^ 32 - 1⟩

/-- Earliest first, ties broken by slot. -/
def precedes (a b : TimerEntry) : Bool := a.at_ < b.at_ ∨ a.at_ = b.at_ ∧ a.slot < b.slot

end TimerEntry

structure TimerHeap where
  entries : List TimerEntry
  /-- Indexed by slot: where that slot's entry is, if it has one. -/
  positions : List (Option Nat)
  deriving DecidableEq

namespace TimerHeap

/-- Room for one deadline for each of `slots` slots, numbered from zero. -/
def withSlots (slots : Nat) : TimerHeap := ⟨[], List.replicate slots none⟩

def entry (h : TimerHeap) (i : Nat) : TimerEntry := h.entries.getD i .vacant

def position (h : TimerHeap) (slot : Nat) : Option Nat := h.positions.getD slot none

def deadline (h : TimerHeap) (slot : Nat) : Option Timestamp := (h.position slot).map fun i => (h.entry i).at_

def peek (h : TimerHeap) : Option (Timestamp × Nat) := h.entries.head?.map fun e => (e.at_, e.slot)

/-- Writes `entry` at `position` and records where it is. -/
def place (h : TimerHeap) (position : Nat) (entry : TimerEntry) : TimerHeap :=
  ⟨h.entries.set position entry, h.positions.set entry.slot (some position)⟩

def parent (position : Nat) : Nat := (position - 1) / 2

/-- Moves the hole at `position` up to where `entry` belongs. A turn halves the
position, so `position` turns suffice. -/
def siftUpFrom (entry : TimerEntry) : (fuel position : Nat) → TimerHeap → TimerHeap
  | 0, position, h => h.place position entry
  | fuel + 1, position, h =>
    if 0 < position then
      let above := parent position
      if entry.precedes (h.entry above) then siftUpFrom entry fuel above (h.place position (h.entry above))
      else h.place position entry
    else h.place position entry

def siftUp (h : TimerHeap) (position : Nat) : TimerHeap := siftUpFrom (h.entry position) position position h

/-- The lesser of the two below `position`, the right one only where there is
one. -/
def lesserChild (h : TimerHeap) (position : Nat) : Nat :=
  let left := 2 * position + 1
  let right := left + 1
  if right < h.entries.length ∧ (h.entry right).precedes (h.entry left) then right else left

/-- Moves the hole at `position` down to where `entry` belongs. A turn moves it
further from the start, so as many turns as there are entries suffice. -/
def siftDownFrom (entry : TimerEntry) : (fuel position : Nat) → TimerHeap → TimerHeap
  | 0, position, h => h.place position entry
  | fuel + 1, position, h =>
    if h.entries.length ≤ 2 * position + 1 then h.place position entry
    else
      let child := h.lesserChild position
      if (h.entry child).precedes entry then siftDownFrom entry fuel child (h.place position (h.entry child))
      else h.place position entry

def siftDown (h : TimerHeap) (position : Nat) : TimerHeap :=
  siftDownFrom (h.entry position) h.entries.length position h

/-- Gives `slot` the deadline `at_`, replacing any it had, earlier or later. -/
def set (h : TimerHeap) (slot : Nat) (at_ : Timestamp) : TimerHeap :=
  match h.position slot with
  | none =>
    let position := h.entries.length
    siftUp ⟨h.entries ++ [⟨at_, slot⟩], h.positions.set slot (some position)⟩ position
  | some position =>
    let earlier := at_ < (h.entry position).at_
    let h := { h with entries := h.entries.modify position fun entry => { entry with at_ } }
    if earlier then h.siftUp position else h.siftDown position

/-- Takes out the entry at `position`. The last one fills the hole, then moves
whichever way restores the order. -/
def removeAt (h : TimerHeap) (position : Nat) : TimerHeap :=
  let last := h.entry (h.entries.length - 1)
  let h : TimerHeap := ⟨h.entries.dropLast, h.positions.set (h.entry position).slot none⟩
  if position = h.entries.length then h
  else
    let h := h.place position last
    if 0 < position ∧ last.precedes (h.entry (parent position)) then h.siftUp position else h.siftDown position

def cancel (h : TimerHeap) (slot : Nat) : TimerHeap :=
  match h.position slot with
  | none => h
  | some position => h.removeAt position

/-- Removes and returns the earliest slot whose deadline is at or before `now`. -/
def popDue (h : TimerHeap) (now : Timestamp) : TimerHeap × Option Nat :=
  match h.peek with
  | none => (h, none)
  | some (at_, slot) => if now < at_ then (h, none) else (h.removeAt 0, some slot)

end TimerHeap
end HexNet
