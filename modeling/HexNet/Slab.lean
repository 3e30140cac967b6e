/-
Storage with stable handles and contiguous items (`slab.rs`). A slot's
generation is odd while it is occupied and advances on every transition, so a
handle names one occupancy of one slot.

Items are reached through `get` (`get`, and `get_mut` to read) and `modify`
(`get_mut` to write).
-/
import HexNet.Lib.Lists

namespace HexNet

/-- A reference into a slab. Every one made has an odd generation, that of an
occupied slot. -/
structure Handle where
  index : Nat
  generation : UInt32
  odd : generation.toNat % 2 = 1
  deriving DecidableEq

/-- A handle to whatever occupies `index`, if its generation says it is occupied. -/
def Handle.occupying (index : Nat) (generation : UInt32) : Option Handle :=
  if h : generation.toNat % 2 = 1 then some ⟨index, generation, h⟩ else none

structure Slot where
  /-- Odd while occupied, even while free. -/
  generation : UInt32
  /-- Occupied: index in `items`. Free: next free slot, or `Slab.absent`. -/
  indexOrFree : Nat
  deriving DecidableEq

/-- `NONE`. -/
def Slab.absent : Nat := 2 ^ 32 - 1

structure Slab (T : Type) where
  slots : List Slot
  items : List T
  /-- `owners[d]` is the slot owning `items[d]`. -/
  owners : List Nat
  freeHead : Nat
  capacity : Nat
  capacity_lt : capacity < Slab.absent

namespace Slab

variable {T : Type}

def withCapacity (capacity : Nat) (h : capacity < absent) : Slab T := ⟨[], [], [], absent, capacity, h⟩

/-- `slots[i]`. -/
def slot (s : Slab T) (i : Nat) : Slot := s.slots.getD i ⟨0, absent⟩

/-- Takes a free slot off the free list, or a fresh one while under capacity. -/
def claim (s : Slab T) : Option (Slab T × Nat) :=
  if s.freeHead ≠ absent then some ({ s with freeHead := (s.slot s.freeHead).indexOrFree }, s.freeHead)
  else if s.slots.length < s.capacity then some ({ s with slots := s.slots ++ [⟨0, absent⟩] }, s.slots.length)
  else none

/-- Occupies a slot `claim` returned. -/
def fill (s : Slab T) (index : Nat) (item : T) : Slab T :=
  { s with
    items := s.items ++ [item]
    owners := s.owners ++ [index]
    slots := s.slots.modify index fun slot => ⟨slot.generation + 1, s.items.length⟩ }

/-- Inserts the item `make` builds, handing it the handle it will have. A
claimed slot is free, so its generation is even, and the next one is a handle's. -/
def insertWith (s : Slab T) (make : Handle → T) : Slab T × Option Handle :=
  match s.claim with
  | none => (s, none)
  | some (s', index) =>
    match Handle.occupying index ((s'.slot index).generation + 1) with
    | none => (s, none)
    | some handle => (s'.fill index (make handle), some handle)

/-- Returns the item back when full. -/
def insert (s : Slab T) (item : T) : Slab T × Except T Handle :=
  match s.claim with
  | none => (s, .error item)
  | some (s', index) =>
    match Handle.occupying index ((s'.slot index).generation + 1) with
    | none => (s, .error item)
    | some handle => (s'.fill index item, .ok handle)

def denseIndex (s : Slab T) (h : Handle) : Option Nat :=
  s.slots[h.index]?.bind fun slot => if slot.generation = h.generation then some slot.indexOrFree else none

def get (s : Slab T) (h : Handle) : Option T := (s.denseIndex h).bind fun dense => s.items[dense]?

def contains (s : Slab T) (h : Handle) : Bool := (s.denseIndex h).isSome

/-- What `get_mut` reaches, changed. -/
def modify (s : Slab T) (h : Handle) (f : T → T) : Slab T :=
  match s.denseIndex h with
  | none => s
  | some dense => { s with items := s.items.modify dense f }

/-- Frees a slot, unless its generation wrapped to zero: that retires it for
good. -/
def vacate (s : Slab T) (index : Nat) : Slab T :=
  let generation := (s.slot index).generation + 1
  if generation ≠ 0 then
    { s with slots := s.slots.modify index fun _ => ⟨generation, s.freeHead⟩, freeHead := index }
  else { s with slots := s.slots.modify index fun slot => { slot with generation } }

/-- Takes the item at `dense` out. The last item fills the hole, and its slot
must point at the new position. -/
def takeOut (s : Slab T) (dense : Nat) : Slab T :=
  let items := s.items.swapRemove dense
  let owners := s.owners.swapRemove dense
  { s with
    items
    owners
    slots :=
      if dense < items.length then
        s.slots.modify (owners.getD dense absent) fun slot => { slot with indexOrFree := dense }
      else s.slots }

def remove (s : Slab T) (h : Handle) : Slab T × Option T :=
  match s.denseIndex h with
  | none => (s, none)
  | some dense => ((s.takeOut dense).vacate h.index, s.items[dense]?)

/-- The handle of whatever occupies slot `index`, if anything does. -/
def handleAt (s : Slab T) (index : Nat) : Option Handle :=
  s.slots[index]?.bind fun slot => Handle.occupying index slot.generation

def len (s : Slab T) : Nat := s.items.length

/-- The handles `iter` yields, in the order of the items. -/
def handles (s : Slab T) : List Handle := s.owners.filterMap s.handleAt

/-- An owner is occupied, so its slot has a handle. -/
def iter (s : Slab T) : List (Handle × T) :=
  (s.owners.zip s.items).filterMap fun entry => (s.handleAt entry.1).map (·, entry.2)

end Slab
end HexNet
