/-
The bit-level serializer (`bits.rs`): a writer packing values into a borrowed
buffer through a 64-bit scratch word, and the reader of what it wrote. Both
are state machines in `EStateM`, since a call that fails half way leaves the
state where it got to.

Machine words are natural numbers here: `scratch` never reaches `2 ^ 64`
(`BitsFacts` keeps it under its bit count), and a `u32` argument is any number,
of which only the low bits are looked at.
-/
import HexNet.Lib.LeBytes
import HexNet.Config

namespace HexNet

open LeBytes

inductive WriteError where
  /-- Not enough space left in the buffer. -/
  | overflow
  /-- The value lies outside the range it was declared with. -/
  | outOfRange
  deriving DecidableEq, Repr

inductive ReadError where
  /-- Fewer bits remain than the read requires. -/
  | eof
  /-- The decoded value lies outside its declared range. -/
  | outOfRange
  deriving DecidableEq, Repr

/-! ## Writing -/

structure BitWriter where
  buf : List UInt8
  /-- Bits not yet flushed, the low `scratchBits` of it. -/
  scratch : Nat
  scratchBits : Nat
  /-- Byte offset the pending word will flush to. -/
  wordIndex : Nat
  bitsWritten : Nat
  deriving DecidableEq, Repr

abbrev Write := EStateM WriteError BitWriter

namespace BitWriter

def new (buf : List UInt8) : BitWriter := ⟨buf, 0, 0, 0, 0⟩

def bitsRemaining (w : BitWriter) : Nat := w.buf.length * 8 - w.bitsWritten

/-- Flushes the pending word once it is complete. -/
def flushWord (w : BitWriter) : BitWriter :=
  if 32 ≤ w.scratchBits then
    { w with
      buf := overwrite w.buf w.wordIndex (leBytes w.scratch 4)
      scratch := w.scratch >>> 32
      scratchBits := w.scratchBits - 32
      wordIndex := w.wordIndex + 4 }
  else w

/-- Writes the low `bits` of `value`. -/
def writeBits (value bits : Nat) : Write Unit := fun w =>
  if w.bitsRemaining < bits then .error .overflow w
  else
    .ok () (flushWord
      { w with
        scratch := w.scratch ||| (value &&& (2 ^ bits - 1)) <<< w.scratchBits
        scratchBits := w.scratchBits + bits
        bitsWritten := w.bitsWritten + bits })

def writeBool (value : Bool) : Write Unit := writeBits value.toNat 1

def writeU64 (value : Nat) : Write Unit := do
  writeBits (value % 2 ^ 32) 32
  writeBits (value / 2 ^ 32) 32

/-- Writes `value` as an offset from `min`, as wide as the range. The
subtraction wraps, so one comparison covers both bounds. -/
def writeRange (value min max : Nat) : Write Unit :=
  let range := max - min
  let offset := (value + 2 ^ 32 - min) % 2 ^ 32
  if range < offset then throw .outOfRange else writeBits offset (bitsRequired range)

/-- Signed form of `writeRange`: the same arithmetic, with both bounds read as
unsigned. -/
def writeRangeI32 (value min max : Int32) : Write Unit :=
  let range := (max.toUInt32 - min.toUInt32).toNat
  let offset := (value.toUInt32 - min.toUInt32).toNat
  if range < offset then throw .outOfRange else writeBits offset (bitsRequired range)

/-- Pads with zeros to the next byte boundary. -/
def align : Write Unit := fun w => writeBits 0 ((8 - w.bitsWritten % 8) % 8) w

/-- Writes the pending partial word without consuming the writer. -/
def flushPartial (w : BitWriter) : BitWriter :=
  let tailBytes := (w.scratchBits + 7) / 8
  if tailBytes = 0 then w
  else { w with buf := overwrite w.buf w.wordIndex ((leBytes w.scratch 4).take tailBytes) }

/-- The word at a byte offset, zero beyond the buffer's end. -/
def wordAt (buf : List UInt8) (at_ : Nat) : Nat := leNat ((buf.drop at_).take 4)

/-- Copies whole bytes at the current position, which must be byte-aligned:
the pending word is committed, the run written past it, and a run ending
mid-word pulled back into scratch. -/
def writeBytes (bytes : List UInt8) : Write Unit := fun w =>
  if w.bitsRemaining < bytes.length * 8 then .error .overflow w
  else if bytes.isEmpty then .ok () w
  else
    let flushed := w.flushPartial
    let buf := overwrite flushed.buf (w.bitsWritten / 8) bytes
    let bitsWritten := w.bitsWritten + bytes.length * 8
    let wordIndex := bitsWritten / 32 * 4
    let scratchBits := bitsWritten % 32
    .ok ()
      { buf, bitsWritten, wordIndex, scratchBits
        scratch := if scratchBits ≠ 0 then wordAt buf wordIndex &&& (2 ^ scratchBits - 1) else 0 }

/-- A checkpoint is the bit position. -/
def checkpoint (w : BitWriter) : Nat := w.bitsWritten

/-- Discards everything written after the checkpoint `pos`: a word flushed
since is read back from the buffer. -/
def rollback (pos : Nat) (w : BitWriter) : BitWriter :=
  let wordIndex := pos / 32 * 4
  let scratchBits := pos % 32
  let scratch := if wordIndex < w.wordIndex then wordAt w.buf wordIndex else w.scratch
  { w with scratch := scratch &&& (2 ^ scratchBits - 1), scratchBits, wordIndex, bitsWritten := pos }

/-- Flushes the trailing partial word: the buffer, and the length in bytes. -/
def finish (w : BitWriter) : List UInt8 × Nat := (w.flushPartial.buf, (w.bitsWritten + 7) / 8)

end BitWriter

/-! ## Reading -/

structure BitReader where
  buffer : List UInt8
  scratch : Nat
  scratchBits : Nat
  byteIndex : Nat
  bitsRead : Nat
  deriving DecidableEq, Repr

abbrev Read := EStateM ReadError BitReader

namespace BitReader

def new (buffer : List UInt8) : BitReader := ⟨buffer, 0, 0, 0, 0⟩

def bitsRemaining (r : BitReader) : Nat := r.buffer.length * 8 - r.bitsRead

/-- Takes a word into scratch, or near the end of the buffer a byte. -/
def load (r : BitReader) : BitReader :=
  let take := if r.byteIndex + 4 ≤ r.buffer.length then 4 else 1
  { r with
    scratch := r.scratch ||| leNat ((r.buffer.drop r.byteIndex).take take) <<< r.scratchBits
    scratchBits := r.scratchBits + 8 * take
    byteIndex := r.byteIndex + take }

/-- The loop filling scratch with `bits` bits. Each turn adds eight at least,
so `fuel` turns suffice for `8 * fuel` bits. -/
def refill (bits : Nat) : Nat → BitReader → BitReader
  | 0, r => r
  | fuel + 1, r => if r.scratchBits < bits then refill bits fuel r.load else r

/-- Drops `bits` bits off scratch. -/
def consume (bits : Nat) (r : BitReader) : BitReader :=
  { r with
    scratch := r.scratch >>> bits
    scratchBits := r.scratchBits - bits
    bitsRead := r.bitsRead + bits }

def readBits (bits : Nat) : Read Nat := fun r =>
  if r.bitsRemaining < bits then .error .eof r
  else
    let r := refill bits 4 r
    .ok (r.scratch &&& (2 ^ bits - 1)) (r.consume bits)

def readBool : Read Bool := do return (← readBits 1) != 0

def readU64 : Read Nat := do
  let lo ← readBits 32
  let hi ← readBits 32
  return lo ||| hi <<< 32

/-- Reads a value written by `writeRange`. A field's width can encode values
above its range, so the offset is checked. -/
def readRange (min max : Nat) : Read Nat := do
  let range := max - min
  let offset ← readBits (bitsRequired range)
  if range < offset then throw .outOfRange
  return min + offset

def readRangeI32 (min max : Int32) : Read Int32 := do
  let range := (max.toUInt32 - min.toUInt32).toNat
  let offset ← readBits (bitsRequired range)
  if range < offset then throw .outOfRange
  return (min.toUInt32 + UInt32.ofNat offset).toInt32

def align : Read Unit := fun r => (do let _ ← readBits ((8 - r.bitsRead % 8) % 8)) r

/-- The next `len` bytes, at a byte-aligned position with that many left. -/
def peekBytes (len : Nat) (r : BitReader) : Option (List UInt8) :=
  if r.bitsRead % 8 ≠ 0 then none
  else
    let start := r.bitsRead / 8
    if start + len ≤ r.buffer.length then some ((r.buffer.drop start).take len) else none

/-- `peekBytes`, or `Eof` where it gives nothing. -/
def peek (len : Nat) : Read (List UInt8) := fun r =>
  match r.peekBytes len with
  | some bytes => .ok bytes r
  | none => .error .eof r

/-- Advances past bytes taken with `peekBytes`. -/
def skipBytes (len : Nat) : Read Unit := fun r =>
  if r.bitsRemaining < len * 8 then .error .eof r
  else
    let bitsRead := r.bitsRead + len * 8
    .ok () { r with bitsRead, byteIndex := bitsRead / 8, scratch := 0, scratchBits := 0 }

end BitReader

end HexNet
