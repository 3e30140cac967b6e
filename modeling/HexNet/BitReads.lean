/-
Runs of the bit reader (`bits.rs`) on any bytes at all: single reads in any
order, each going on from where the one before it ended, answered or failed.

What a reader is for is said over the bits of its bytes, a list, with a
position in it (`Cursor`). The reader gets there by prefetching words, near the
end bytes, and by starting over at a byte boundary when it skips. It simulates
the list (`perform_follows`), with an index out of range as an outcome of its
own: no run has it.
-/
import HexNet.Codecs
import HexNet.Lib.BitList
import HexNet.Lib.Lts
import HexNet.Lib.Simulation

namespace HexNet

open LeBytes BitList Simulation

/-! ## Reads of a list of bits -/

/-- Reads over a list of bits: the state is the position. -/
abbrev Cursor := EStateM ReadError Nat

namespace Cursor

variable (bits : List Bool)

/-- The next `n` bits. Fewer are not taken. -/
def take (n : Nat) : Cursor Nat := fun pos =>
  if bits.length < pos + n then .error .eof pos else .ok (value ((bits.drop pos).take n)) (pos + n)

def readBool : Cursor Bool := do return (← take bits 1) != 0

/-- The two halves are taken one after the other: the second may be missing. -/
def readU64 : Cursor Nat := do
  let lo ← take bits 32
  let hi ← take bits 32
  return lo + 2 ^ 32 * hi

def readRange (min max : Nat) : Cursor Nat := do
  let offset ← take bits (bitsRequired (max - min))
  if max < min + offset then throw .outOfRange
  return min + offset

def readRangeI32 (min max : Int32) : Cursor Int32 := do
  let offset ← take bits (bitsRequired (max.toInt - min.toInt).toNat)
  if max.toInt < min.toInt + offset then throw .outOfRange
  return Int32.ofInt (min.toInt + offset)

def align : Cursor Unit := fun pos => (do let _ ← take bits ((8 - pos % 8) % 8)) pos

def peekBytes (len : Nat) : Cursor (Option (List UInt8)) := fun pos =>
  .ok (if pos % 8 = 0 ∧ pos + 8 * len ≤ bits.length then some (toBytes ((bits.drop pos).take (8 * len))) else none) pos

def skipBytes (len : Nat) : Cursor Unit := do let _ ← take bits (8 * len)

end Cursor

/-! ## Reads of bytes -/

/-- A single read. -/
inductive ReadOp
  | readBits (bits : Nat)
  | readBool
  | readU64
  | readRange (min max : UInt32)
  | readRangeI32 (min max : Int32)
  | align
  | peekBytes (len : Nat)
  | skipBytes (len : Nat)

namespace ReadOp

/-- What the read answers with. -/
abbrev Answer : ReadOp → Type
  | .readBits _ | .readU64 | .readRange _ _ => Nat
  | .readBool => Bool
  | .readRangeI32 _ _ => Int32
  | .align | .skipBytes _ => Unit
  | .peekBytes _ => Option (List UInt8)

def perform : (op : ReadOp) → Indexed op.Answer
  | .readBits bits => Indexed.readBits bits
  | .readBool => Indexed.readBool
  | .readU64 => Indexed.readU64
  | .readRange min max => Indexed.readRange min.toNat max.toNat
  | .readRangeI32 min max => Indexed.readRangeI32 min max
  | .align => Indexed.align
  | .peekBytes len => fun r => .ok (r.peekBytes len) r
  | .skipBytes len => Indexed.plain (BitReader.skipBytes len)

/-- What the read asks of its arguments and the reader. Byte counts come from
the wire as 32 bits, and bytes are skipped after they were peeked at. -/
def Allowed (r : BitReader) : ReadOp → Prop
  | .readBits bits => bits ≤ 32
  | .readRange min max => min ≤ max
  | .readRangeI32 min max => min ≤ max
  | .peekBytes len => len < 2 ^ 32
  | .skipBytes len => len < 2 ^ 32 ∧ r.bitsRead % 8 = 0
  | .readBool | .readU64 | .align => True

/-- The read, of the bits of the bytes. -/
def meaning (bits : List Bool) : (op : ReadOp) → Cursor op.Answer
  | .readBits n => Cursor.take bits n
  | .readBool => Cursor.readBool bits
  | .readU64 => Cursor.readU64 bits
  | .readRange min max => Cursor.readRange bits min.toNat max.toNat
  | .readRangeI32 min max => Cursor.readRangeI32 bits min max
  | .align => Cursor.align bits
  | .peekBytes len => Cursor.peekBytes bits len
  | .skipBytes len => Cursor.skipBytes bits len

/-- The bounds a range is read with. -/
def Within : (op : ReadOp) → op.Answer → Prop
  | .readRange min max, value => min.toNat ≤ value ∧ value ≤ max.toNat
  | .readRangeI32 min max, value => min ≤ value ∧ value ≤ max
  | _, _ => True

end ReadOp

namespace BitReader

/-- The runs of a reader of `bytes`. A panic ends them. -/
def sys (bytes : List UInt8) : Lts.Sys BitReader ReadOp where
  start r := r = .new bytes
  step r op r' := op.Allowed r ∧ ((∃ a, op.perform.run r = .ok a r') ∨ ∃ e, op.perform.run r = .error (.failed e) r')

/-- How a read ends, and where; none if it panics. -/
def seen {α : Type} : EStateM.Result Fault BitReader α → Option (EStateM.Result ReadError Nat α)
  | .ok a r => some (.ok a r.bitsRead)
  | .error (.failed e) r => some (.error e r.bitsRead)
  | .error .panicked _ => none

/-! ## Scratch stays a word -/

theorem load_scratchBits_le (r : BitReader) : r.load.scratchBits ≤ r.scratchBits + 32 := by
  dsimp only [load]
  split <;> omega

/-- A word is loaded only while less than one is pending. -/
theorem refill_scratchBits_lt {bits : Nat} (hbits : bits ≤ 32) (fuel : Nat) {r : BitReader} (h : r.scratchBits < 64) :
    (refill bits fuel r).scratchBits < 64 := by
  induction fuel generalizing r with
  | zero => exact h
  | succ fuel ih =>
    rw [refill]
    split
    next hlt =>
      have hload := r.load_scratchBits_le
      exact ih (by omega)
    · exact h

theorem readBits_scratchBits_lt {bits : Nat} (hbits : bits ≤ 32) {r r' : BitReader} {v : Nat} (h : r.scratchBits < 64)
    (hrun : (readBits bits).run r = .ok v r') : r'.scratchBits < 64 := by
  rw [run_readBits] at hrun
  split at hrun
  · cases hrun
  · cases hrun
    have hlt := refill_scratchBits_lt hbits 4 h
    simp only [consume]
    omega

/-! ## The reader simulates the list -/

variable {bytes : List UInt8} {r : BitReader} {pos : Nat}

/-- A reader of `bytes`, at a position of their bits. -/
structure At (bytes : List UInt8) (r : BitReader) (pos : Nat) : Prop extends Ready r where
  bytes_eq : r.buffer = bytes
  position : r.bitsRead = pos
  word : r.scratchBits < 64

theorem new_at (bytes : List UInt8) : At bytes (.new bytes) 0 where
  toReady := new_ready bytes
  bytes_eq := rfl
  position := rfl
  word := show 0 < 64 by decide

theorem At.le (h : At bytes r pos) : pos ≤ 8 * bytes.length := by
  have hindex := h.index
  have hroom := h.room
  rw [h.position] at hindex
  rw [h.bytes_eq] at hroom
  omega

theorem At.scratch_lt (h : At bytes r pos) : r.scratch < 2 ^ 64 := by
  rw [h.pending]
  exact Nat.lt_of_lt_of_le (Nat.mod_lt _ (Nat.two_pow_pos _)) (Nat.pow_le_pow_right (by decide) (Nat.le_of_lt h.word))

/-- The read does what the list's does, and fails as it fails: it never panics. -/
abbrev Follows {α : Type} (bytes : List UInt8) (m : Indexed α) (c : Cursor α) : Prop :=
  Simulates (At bytes) (fun f e => f = .failed e) m c

theorem readBits_follows {n : Nat} (hn : n ≤ 32) :
    Follows bytes (Indexed.readBits n) (Cursor.take (ofBytes bytes) n) := by
  intro r pos h
  have hlen : (ofBytes bytes).length = 8 * r.buffer.length := by rw [length_ofBytes, h.bytes_eq]
  have hpos := h.position
  have hle := h.le
  rw [← h.bytes_eq] at hle
  by_cases hleft : 8 * r.buffer.length < pos + n
  · have hrun : (Indexed.readBits n).run r = .error (.failed .eof) r := if_pos (by rw [bitsRemaining]; omega)
    have htake : (Cursor.take (ofBytes bytes) n).run pos = .error .eof pos := if_pos (by rwa [hlen])
    rw [hrun, htake]
    exact ⟨rfl, h⟩
  · obtain ⟨r', hread, hready, hpos', hbuf⟩ := readBits_ready h.toReady hn (by omega)
    have hrun : (Indexed.readBits n).run r = .ok (leNat bytes / 2 ^ pos % 2 ^ n) r' := by
      rw [(Agree.readBits hn r h.toReady).1, Indexed.run_plain, hread, h.bytes_eq, hpos]
    have htake : (Cursor.take (ofBytes bytes) n).run pos = .ok (leNat bytes / 2 ^ pos % 2 ^ n) (pos + n) := by
      rw [← value_window]
      exact if_neg (by rwa [hlen])
    rw [hrun, htake]
    exact ⟨rfl, hready, by rw [hbuf, h.bytes_eq], by rw [hpos', hpos], readBits_scratchBits_lt hn h.word hread⟩

theorem take_lt {bits : List Bool} {n v pos' : Nat} (h : (Cursor.take bits n).run pos = .ok v pos') : v < 2 ^ n := by
  change (if bits.length < pos + n then _ else _) = EStateM.Result.ok v pos' at h
  split at h
  · cases h
  · cases h
    rw [value_take]
    exact Nat.mod_lt _ (Nat.two_pow_pos n)

theorem readBool_follows : Follows bytes Indexed.readBool (Cursor.readBool (ofBytes bytes)) :=
  (readBits_follows (by decide)).bind fun _ => .pure _

theorem readU64_follows : Follows bytes Indexed.readU64 (Cursor.readU64 (ofBytes bytes)) := by
  refine (readBits_follows (le_refl 32)).bind_answers fun lo _ _ hlo => ?_
  refine (readBits_follows (le_refl 32)).bind fun hi => ?_
  rw [or_shift hi (take_lt hlo)]
  exact .pure _

/-- Bounds checked before the answer. -/
theorem checked_follows {α : Type} {p q : Prop} [Decidable p] [Decidable q] (hpq : p ↔ q) (v : α) :
    Follows bytes
      (do
        if p then throw (.failed .outOfRange)
        return v)
      (do
        if q then throw .outOfRange
        return v) := by
  by_cases hp : p
  · rw [if_pos hp, if_pos (hpq.1 hp)]
    exact fun _ _ h => ⟨rfl, h⟩
  · rw [if_neg hp, if_neg (mt hpq.2 hp)]
    exact .pure v

theorem readRange_follows {min max : Nat} (hle : min ≤ max) (hmax : max < 2 ^ 32) :
    Follows bytes (Indexed.readRange min max) (Cursor.readRange (ofBytes bytes) min max) := by
  refine (readBits_follows (BitWriter.bitsRequired_le (by omega))).bind fun offset => ?_
  exact checked_follows (by omega) _

/-- Wrapped round, the width of a signed range is what it is without. -/
theorem range_toNat {min max : Int32} (h : min ≤ max) :
    (max.toUInt32 - min.toUInt32).toNat = (max.toInt - min.toInt).toNat := by
  have hint := Int32.le_iff_toInt_le.1 h
  have hmin : min.toInt = min.toUInt32.toBitVec.toInt := rfl
  have hmax : max.toInt = max.toUInt32.toBitVec.toInt := rfl
  rw [BitVec.toInt_eq_toNat_cond] at hmin hmax
  have hltmin := min.toUInt32.toNat_lt
  have hltmax := max.toUInt32.toNat_lt
  rw [UInt32.toNat_sub]
  simp only [UInt32.toNat_toBitVec] at hmin hmax
  split at hmin <;> split at hmax <;> omega

theorem offset_toInt32 (min : Int32) (offset : Nat) :
    (min.toUInt32 + UInt32.ofNat offset).toInt32 = Int32.ofInt (min.toInt + offset) := by
  rw [UInt32.toInt32_add, Int32.toInt32_toUInt32, Int32.ofInt_add, Int32.ofInt_toInt]
  rfl

theorem readRangeI32_follows {min max : Int32} (hle : min ≤ max) :
    Follows bytes (Indexed.readRangeI32 min max) (Cursor.readRangeI32 (ofBytes bytes) min max) := by
  have hrange := range_toNat hle
  have hint := Int32.le_iff_toInt_le.1 hle
  unfold Cursor.readRangeI32
  rw [← hrange]
  refine (readBits_follows (BitWriter.bitsRequired_le (UInt32.toNat_lt _))).bind fun offset => ?_
  rw [offset_toInt32]
  exact checked_follows (by omega) _

theorem align_follows : Follows bytes Indexed.align (Cursor.align (ofBytes bytes)) := by
  intro r pos h
  have hpad : Follows bytes (do let _ ← Indexed.readBits ((8 - pos % 8) % 8))
      (do let _ ← Cursor.take (ofBytes bytes) ((8 - pos % 8) % 8)) :=
    (readBits_follows (by omega)).bind fun _ => .pure ()
  have halign : Indexed.align.run r = (do let _ ← Indexed.readBits ((8 - pos % 8) % 8) : Indexed Unit).run r := by
    rw [← h.position]
    rfl
  rw [halign]
  exact hpad r pos h

/-- Peeking moves nothing, and gives the bytes that are next. -/
theorem peekBytes_eq (h : At bytes r pos) (len : Nat) :
    r.peekBytes len = if pos % 8 = 0 ∧ pos + 8 * len ≤ (ofBytes bytes).length then
      some (toBytes (((ofBytes bytes).drop pos).take (8 * len))) else none := by
  rw [length_ofBytes, peekBytes, h.position, h.bytes_eq]
  by_cases hpos : pos % 8 = 0
  · rw [if_neg (not_not.2 hpos)]
    dsimp only
    by_cases hin : pos / 8 + len ≤ bytes.length
    · rw [if_pos hin, if_pos ⟨hpos, by omega⟩, ← toBytes_window hin, Nat.mul_div_cancel' (Nat.dvd_of_mod_eq_zero hpos)]
    · rw [if_neg hin, if_neg (by omega)]
  · rw [if_pos hpos, if_neg (by omega)]

/-- Skipping whole bytes starts over at a byte boundary. -/
theorem skipBytes_follows (h : At bytes r pos) (hpos : pos % 8 = 0) (len : Nat) :
    Related (At bytes) (fun f e => f = .failed e) ((Indexed.plain (skipBytes len)).run r)
      ((Cursor.skipBytes (ofBytes bytes) len).run pos) := by
  have hle := h.le
  have hread := h.position
  have hlen : (ofBytes bytes).length = 8 * r.buffer.length := by rw [length_ofBytes, h.bytes_eq]
  rw [← h.bytes_eq] at hle
  rw [Indexed.run_plain, Cursor.skipBytes, EStateM.run_bind]
  by_cases hleft : r.bitsRemaining < len * 8
  · have hskip : (skipBytes len).run r = .error .eof r := if_pos hleft
    have htake : (Cursor.take (ofBytes bytes) (8 * len)).run pos = .error .eof pos := by
      rw [bitsRemaining] at hleft
      exact if_pos (by omega)
    rw [hskip, htake]
    exact ⟨rfl, h⟩
  · have hskip : (skipBytes len).run r = .ok () _ := if_neg hleft
    rw [bitsRemaining] at hleft
    have htake : (Cursor.take (ofBytes bytes) (8 * len)).run pos = .ok _ (pos + 8 * len) := if_neg (by omega)
    rw [hskip, htake]
    refine ⟨rfl, ⟨?_, ?_, ?_⟩, h.bytes_eq, ?_, show 0 < 64 by decide⟩
    · simp [Nat.mod_one]
    · show 8 * ((r.bitsRead + len * 8) / 8) = r.bitsRead + len * 8 + 0
      omega
    · show (r.bitsRead + len * 8) / 8 ≤ r.buffer.length
      omega
    · show r.bitsRead + len * 8 = pos + 8 * len
      omega

/-- **Every read is the list's read**, at the position the reader is at. -/
theorem perform_follows (h : At bytes r pos) {op : ReadOp} (hop : op.Allowed r) :
    Related (At bytes) (fun f e => f = .failed e) (op.perform.run r) ((op.meaning (ofBytes bytes)).run pos) := by
  cases op with
  | readBits n => exact readBits_follows hop r pos h
  | readBool => exact readBool_follows r pos h
  | readU64 => exact readU64_follows r pos h
  | readRange min max => exact readRange_follows (UInt32.le_iff_toNat_le.1 hop) max.toNat_lt r pos h
  | readRangeI32 min max => exact readRangeI32_follows hop r pos h
  | align => exact align_follows r pos h
  | peekBytes len => exact ⟨peekBytes_eq h len, h⟩
  | skipBytes len => exact skipBytes_follows h (h.position ▸ hop.2) len

/-! ## Runs on any bytes -/

theorem at_of_reachable (h : Lts.Reachable (sys bytes) r) : At bytes r r.bitsRead := by
  refine Lts.Reach.invariant (P := fun r => At bytes r r.bitsRead) ?_ ?_ h
  · intro r hstart
    rw [hstart]
    exact new_at bytes
  · intro r op r' _ hr _ hstep
    have hrel := perform_follows hr hstep.1
    rcases hstep.2 with ⟨a, hrun⟩ | ⟨e, hrun⟩ <;> rw [hrun] at hrel <;>
      cases hmeaning : (op.meaning (ofBytes bytes)).run r.bitsRead <;> rw [hmeaning] at hrel
    · exact hrel.2.position ▸ hrel.2
    · exact hrel.elim
    · exact hrel.elim
    · exact hrel.2.position ▸ hrel.2

theorem seen_of_related {α : Type} {res : EStateM.Result Fault BitReader α} {res' : EStateM.Result ReadError Nat α}
    (h : Related (At bytes) (fun f e => f = .failed e) res res') : seen res = some res' := by
  cases res <;> cases res'
  · obtain ⟨rfl, hat⟩ := h
    rw [seen, hat.position]
  · exact h.elim
  · exact h.elim
  · obtain ⟨rfl, hat⟩ := h
    rw [seen, hat.position]

theorem checked_ok {α : Type} {p : Prop} [Decidable p] {v a : α} {pos' : Nat}
    (h : (do
        if p then throw .outOfRange
        return v : Cursor α).run pos = .ok a pos') : ¬ p ∧ a = v := by
  split at h
  · cases h
  next hp =>
    cases h
    exact ⟨hp, rfl⟩

/-- What the list answers a range with lies within it. -/
theorem meaning_within {bits : List Bool} {op : ReadOp} {a : op.Answer} {pos' : Nat}
    (h : (op.meaning bits).run pos = .ok a pos') : op.Within a := by
  cases op with
  | readRange min max =>
    obtain ⟨offset, _, -, hchecked⟩ := run_bind_ok h
    obtain ⟨hle, rfl⟩ := checked_ok hchecked
    exact ⟨Nat.le_add_right _ _, Nat.le_of_not_lt hle⟩
  | readRangeI32 min max =>
    obtain ⟨offset, _, -, hchecked⟩ := run_bind_ok h
    obtain ⟨hle, rfl⟩ := checked_ok hchecked
    have hlow := min.le_toInt
    have hhigh := max.toInt_lt
    have hvalue : (Int32.ofInt (min.toInt + offset)).toInt = min.toInt + offset :=
      Int32.toInt_ofInt_of_le (by omega) (by omega)
    refine ⟨Int32.le_iff_toInt_le.2 ?_, Int32.le_iff_toInt_le.2 ?_⟩ <;> rw [hvalue] <;> omega
  | _ => trivial

/-- **On any bytes the reader is the list of their bits.** No run leaves the
bytes or the scratch word, and every read of it is the list's read at the
reader's position: the bits there, or a failure that says why. A range is
answered within its bounds. -/
theorem reader_is_bit_list (hr : Lts.Reachable (sys bytes) r) :
    r.bitsRead ≤ 8 * bytes.length ∧ r.scratch < 2 ^ 64 ∧ ∀ op : ReadOp, op.Allowed r →
      seen (op.perform.run r) = some ((op.meaning (ofBytes bytes)).run r.bitsRead) ∧
        ∀ a r', op.perform.run r = .ok a r' → op.Within a := by
  have hat := at_of_reachable hr
  refine ⟨hat.le, hat.scratch_lt, fun op hop => ?_⟩
  have hseen := seen_of_related (perform_follows hat hop)
  refine ⟨hseen, fun a r' hrun => ?_⟩
  rw [hrun] at hseen
  exact meaning_within (Option.some.inj hseen).symm

/-- Three bits into two bytes, a signed range. -/
theorem reader_is_bit_list_signed :
    ∃ r r', Lts.Reachable (sys [0xff, 0x01]) r ∧ r.bitsRead = 3 ∧
      (ReadOp.readRangeI32 (-5) 2).perform.run r = .ok 2 r' ∧
      seen ((ReadOp.readRangeI32 (-5) 2).perform.run r) =
        some (((ReadOp.readRangeI32 (-5) 2).meaning (ofBytes [0xff, 0x01])).run 3) ∧
      (ReadOp.readRangeI32 (-5) 2).Within 2 := by
  have hstep : (sys [0xff, 0x01]).step (.new [0xff, 0x01]) (.readBits 3) ⟨[0xff, 0x01], 0x1f, 5, 1, 3⟩ :=
    ⟨show 3 ≤ 32 by decide, .inl ⟨7, rfl⟩⟩
  have hstart : Lts.Reachable (sys [0xff, 0x01]) (.new [0xff, 0x01]) := .start rfl
  have hreach : Lts.Reachable (sys [0xff, 0x01]) _ := hstart.step trivial hstep
  have hop : (ReadOp.readRangeI32 (-5) 2).Allowed ⟨[0xff, 0x01], 0x1f, 5, 1, 3⟩ := show (-5 : Int32) ≤ 2 by decide
  have hrun : (ReadOp.readRangeI32 (-5) 2).perform.run ⟨[0xff, 0x01], 0x1f, 5, 1, 3⟩ =
      .ok 2 ⟨[0xff, 0x01], 0x3, 2, 1, 6⟩ := rfl
  obtain ⟨hseen, hwithin⟩ := (reader_is_bit_list hreach).2.2 _ hop
  exact ⟨_, _, hreach, rfl, hrun, hseen, hwithin _ _ hrun⟩

end BitReader

end HexNet
