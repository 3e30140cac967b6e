/-
Block-allocated payload storage (`arena.rs`). A message is a chain of 64-byte
blocks threaded through `next`; the free blocks are one more chain. The two
arrays are functions of the block index, read only below the block count in a
state the operations build (`ArenaFacts`).
-/
import HexNet.Lib.LeBytes
import HexNet.Lib.Linked

namespace HexNet

open LeBytes

def blockLen : Nat := 64

/-- `NONE`: the end of a chain. -/
def noBlock : Nat := 65535

/-- A stored message: where its chain starts and how long it is. -/
structure ByteRef where
  start : Nat
  count : Nat
  deriving DecidableEq, Repr, Inhabited

namespace ByteRef

def isNone (r : ByteRef) : Bool := r.start == noBlock
def len (r : ByteRef) : Nat := r.count

end ByteRef

/-- A fixed pool of `N` blocks shared by every message in one direction. -/
structure Arena (N : Nat) where
  blocks : Nat → List UInt8
  /-- The next block of a message, or the next free block. -/
  next : Nat → Nat
  freeHead : Nat
  freeCount : Nat

namespace Arena

variable {N : Nat}

def new : Arena N where
  blocks := fun _ => List.replicate blockLen 0
  next := fun i => if i + 1 < N then i + 1 else noBlock
  freeHead := 0
  freeCount := N

/-- Blocks a payload of this length occupies: one even for a zero length. -/
def blocksFor (len : Nat) : Nat := max ((len + (blockLen - 1)) / blockLen) 1

/-- The walk of `reserve`: `steps` blocks from `block` on are taken, the last
of them detached from the free list. -/
def detach (a : Arena N) : Nat → Nat → Arena N
  | 0, _ => a
  | 1, block => { a with next := Function.update a.next block noBlock, freeHead := a.next block }
  | steps + 2, block => detach a (steps + 1) (a.next block)

/-- Reserves space without writing; `none` when there is not enough room. -/
def reserve (a : Arena N) (len : Nat) : Option (Arena N × ByteRef) :=
  if 65535 < len then none
  else
    let needed := blocksFor len
    if a.freeCount < needed then none
    else
      let taken := a.detach needed a.freeHead
      some ({ taken with freeCount := a.freeCount - needed }, ⟨a.freeHead, len⟩)

def walk (a : Arena N) : Nat → Nat → Option Nat
  | 0, block => some block
  | steps + 1, block => if a.next block = noBlock then none else walk a steps (a.next block)

/-- The write loop, from `within` of `block` on. Every turn writes a byte at
least, so `bytes.length` turns suffice. -/
def writeLoop : Nat → Nat → Nat → List UInt8 → Arena N → Arena N × Bool
  | 0, _, _, bytes, a => (a, bytes.isEmpty)
  | fuel + 1, block, within, bytes, a =>
    if bytes.isEmpty then (a, true)
    else if block = noBlock then (a, false)
    else
      let take := min (blockLen - within) bytes.length
      let written := overwrite (a.blocks block) within (bytes.take take)
      writeLoop fuel (a.next block) 0 (bytes.drop take) { a with blocks := Function.update a.blocks block written }

/-- Writes into a reserved message at `offset`; false when the write would run
past its length. -/
def writeAt (a : Arena N) (message : ByteRef) (offset : Nat) (bytes : List UInt8) : Arena N × Bool :=
  if message.isNone || decide (message.len < offset + bytes.length) then (a, false)
  else if bytes.isEmpty then (a, true)
  else
    match a.walk (offset / blockLen) message.start with
    | none => (a, false)
    | some block => a.writeLoop bytes.length block (offset % blockLen) bytes

/-- The loop of `release`, pushing blocks on the free list until the chain
ends. A chain has at most `N` blocks. -/
def releaseLoop : Nat → Nat → Arena N → Arena N
  | 0, _, a => a
  | fuel + 1, block, a =>
    let following := a.next block
    let a := { a with
      next := Function.update a.next block a.freeHead
      freeHead := block
      freeCount := a.freeCount + 1 }
    if following = noBlock then a else releaseLoop fuel following a

def release (a : Arena N) (message : ByteRef) : Arena N :=
  if message.isNone then a else a.releaseLoop N message.start

def store (a : Arena N) (payload : List UInt8) : Arena N × Option ByteRef :=
  match a.reserve payload.length with
  | none => (a, none)
  | some (reserved, message) =>
    let r := reserved.writeAt message 0 payload
    if r.2 then (r.1, some message) else (r.1.release message, none)

def loadLoop (a : Arena N) : Nat → Nat → Nat → Option (List UInt8)
  | 0, _, remaining => if remaining = 0 then some [] else none
  | fuel + 1, block, remaining =>
    if remaining = 0 then some []
    else if block = noBlock then none
    else
      let take := min remaining blockLen
      (loadLoop a fuel (a.next block) (remaining - take)).map ((a.blocks block).take take ++ ·)

/-- A stored message's bytes, `none` when `room` is too small for them. -/
def load (a : Arena N) (message : ByteRef) (room : Nat) : Option (List UInt8) :=
  if message.isNone || decide (room < message.len) then none
  else a.loadLoop message.len message.start message.len

/-- The iterator `Chunks`: what is left of a chain, block by block. -/
def chunksFrom (a : Arena N) : Nat → Nat → Nat → List (List UInt8)
  | 0, _, _ => []
  | fuel + 1, block, remaining =>
    if remaining = 0 ∨ block = noBlock then []
    else
      let take := min remaining blockLen
      (a.blocks block).take take :: chunksFrom a fuel (a.next block) (remaining - take)

def chunks (a : Arena N) (message : ByteRef) : List (List UInt8) :=
  a.chunksFrom message.len message.start (if message.isNone then 0 else message.len)

end Arena
end HexNet
