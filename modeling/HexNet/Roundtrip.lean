/-
Any use of a bit writer, read back: every write, checkpoint and rollback in
any order over any buffer.

A session is a writer together with the operations that stand: those that
succeeded and were not taken back. The invariant gives each of them the block
of bit fields it left in the stream, and each checkpoint the number of blocks
before it, so a rollback cuts the operations and the stream at one place
(`Kept.step`). A `write_u64` that fails may leave its first half behind; it
stands as an operation that cannot be read, until it is rolled back.
-/
import HexNet.BitRuns

namespace HexNet

open BitFields

/-! ## Operations and sessions -/

/-- What a reader is told of a write. -/
inductive Shape where
  | bits (width : Nat)
  | bool
  | u64
  | range (min max : UInt32)
  | rangeI32 (min max : Int32)
  | align
  | bytes (len : Nat)
  deriving DecidableEq, Repr

/-- What a read gives. -/
inductive FieldValue where
  | word (value : Nat)
  | bool (value : Bool)
  | int (value : Int32)
  | unit
  | bytes (run : List UInt8)
  deriving DecidableEq, Repr

/-- The matching reader operation. -/
def Shape.read : Shape → Read FieldValue
  | .bits width => do return .word (← BitReader.readBits width)
  | .bool => do return .bool (← BitReader.readBool)
  | .u64 => do return .word (← BitReader.readU64)
  | .range min max => do return .word (← BitReader.readRange min.toNat max.toNat)
  | .rangeI32 min max => do return .int (← BitReader.readRangeI32 min max)
  | .align => do BitReader.align; return .unit
  | .bytes len => do
    let run ← BitReader.peek len
    BitReader.skipBytes len
    return .bytes run

def readAll : List Shape → Read (List FieldValue)
  | [] => return []
  | s :: rest => do
    let v ← s.read
    let vs ← readAll rest
    return v :: vs

namespace WriteOp

def shape : WriteOp → Shape
  | .writeBits _ bits => .bits bits
  | .writeBool _ => .bool
  | .writeU64 _ => .u64
  | .writeRange _ min max => .range min max
  | .writeRangeI32 _ min max => .rangeI32 min max
  | .align => .align
  | .writeBytes bytes => .bytes bytes.length

/-- The value written, reduced to its width. -/
def value : WriteOp → FieldValue
  | .writeBits value bits => .word (value.toNat % 2 ^ bits)
  | .writeBool value => .bool value
  | .writeU64 value => .word value.toNat
  | .writeRange value _ _ => .word value.toNat
  | .writeRangeI32 value _ _ => .int value
  | .align => .unit
  | .writeBytes bytes => .bytes bytes

/-- The bits it takes at bit position `p`. -/
def size (p : Nat) : WriteOp → Nat
  | .writeBits _ bits => bits
  | .writeBool _ => 1
  | .writeU64 _ => 64
  | .writeRange _ min max => bitsRequired (max.toNat - min.toNat)
  | .writeRangeI32 _ min max => bitsRequired (max.toUInt32 - min.toUInt32).toNat
  | .align => (8 - p % 8) % 8
  | .writeBytes bytes => 8 * bytes.length

/-- The bits a sequence of writes takes. -/
def extent (ops : List WriteOp) : Nat := ops.foldl (fun p op => p + op.size p) 0

end WriteOp

inductive BitOp where
  | write (op : WriteOp)
  | checkpoint
  /-- To the checkpoint at this place among those that stand. -/
  | rollback (mark : Nat)
  deriving DecidableEq, Repr

/-- A writer in use. -/
structure BitSession where
  writer : BitWriter
  /-- The writes that stand, `none` for a `write_u64` that failed. -/
  kept : List (Option WriteOp)
  /-- The checkpoints that stand, each with the number of writes before it. -/
  marks : List (Nat × Nat)
  deriving DecidableEq, Repr

namespace BitSession

def new (buf : List UInt8) : BitSession := ⟨.new buf, [], []⟩

/-- A failed write consumes nothing, except that `write_u64` is two writes. -/
def apply (s : BitSession) : BitOp → Option BitSession
  | .write op =>
    match op.perform.run s.writer, op with
    | .ok _ w, _ => some { s with writer := w, kept := s.kept ++ [some op] }
    | .error _ w, .writeU64 _ => some { s with writer := w, kept := s.kept ++ [none] }
    | .error _ w, _ => some { s with writer := w }
  | .checkpoint => some { s with marks := s.marks ++ [(s.writer.checkpoint, s.kept.length)] }
  | .rollback mark =>
    match s.marks[mark]? with
    | some (pos, count) =>
      some
        { writer := s.writer.rollback pos
          kept := s.kept.take count
          marks := s.marks.take (mark + 1) }
    | none => none

def sys (buf : List UInt8) : Lts.Sys BitSession BitOp := .ofNext (new buf) apply

/-- The calls the writer's assertions allow. -/
def Allowed (s : BitSession) : BitOp → Prop
  | .write op => op.Allowed s.writer
  | _ => True

instance (s : BitSession) (op : BitOp) : Decidable (s.Allowed op) := by
  cases op <;> unfold Allowed <;> infer_instance

end BitSession

/-! ## What a write leaves in the stream -/

namespace WriteOp

/-- The bit fields of a write at position `p`. -/
def fields (p : Nat) : WriteOp → List (Nat × Nat)
  | .writeBits value bits => [(bits, value.toNat)]
  | .writeBool value => [(1, value.toNat)]
  | .writeU64 value => [(32, value.toNat % 2 ^ 32), (32, value.toNat / 2 ^ 32)]
  | .writeRange value min max => [(bitsRequired (max.toNat - min.toNat), value.toNat - min.toNat)]
  | .writeRangeI32 value min max =>
    [(bitsRequired (max.toUInt32 - min.toUInt32).toNat, (value.toUInt32 - min.toUInt32).toNat)]
  | .align => [((8 - p % 8) % 8, 0)]
  | .writeBytes bytes => BitFields.bytes bytes

theorem width_fields (p : Nat) (op : WriteOp) : width (op.fields p) = op.size p := by
  cases op <;> simp [fields, size]

/-- A write that succeeded left its fields, and the matching read finds its
value in them. -/
theorem perform_ok {op : WriteOp} {w w' : BitWriter} {gs : List (Nat × Nat)} (hop : op.Allowed w) (hw : w.Holds gs)
    (hrun : op.perform.run w = .ok () w') :
    w'.Holds (gs ++ op.fields (width gs)) ∧
      BitReader.Parses (width gs) op.shape.read (op.fields (width gs)) op.value := by
  cases op with
  | writeBits value bits =>
    exact ⟨((BitWriter.writeBits_emits _ _ hop).ok hw rfl hrun).1, (BitReader.readBits_parses_mod _ _ hop).map _⟩
  | writeBool value =>
    exact ⟨((BitWriter.writeBits_emits _ _ (by decide)).ok hw rfl hrun).1, (BitReader.readBool_parses _ value).map _⟩
  | writeU64 value =>
    exact ⟨((BitWriter.writeU64_emits _ _).ok hw rfl hrun).1, (BitReader.readU64_parses _ value.toNat_lt).map _⟩
  | writeRange value min max =>
    have hmin := UInt32.le_iff_toNat_le.1 (show min ≤ max from hop)
    have hlt := max.toNat_lt
    have hvalue := value.toNat_lt
    have hbounds : min.toNat ≤ value.toNat ∧ value.toNat ≤ max.toNat := by
      dsimp only [perform, BitWriter.writeRange] at hrun
      split at hrun
      · cases hrun
      · omega
    exact ⟨((BitWriter.writeRange_emits _ hbounds.1 hbounds.2 hlt).ok hw rfl hrun).1,
      (BitReader.readRange_parses _ hbounds.1 hbounds.2 hlt).map _⟩
  | writeRangeI32 value min max =>
    have hrange := (max.toUInt32 - min.toUInt32).toNat_lt
    dsimp only [perform, BitWriter.writeRangeI32] at hrun
    split at hrun
    · cases hrun
    next hle =>
      exact ⟨((BitWriter.writeBits_emits _ _ (BitWriter.bitsRequired_le hrange)).ok hw rfl hrun).1,
        (BitReader.readRangeI32_parses _ (by omega)).map _⟩
  | align => exact ⟨((BitWriter.align_emits _).ok hw rfl hrun).1, (BitReader.align_parses _).map fun _ => FieldValue.unit⟩
  | writeBytes bytes =>
    have haligned : width gs % 8 = 0 := by rw [← hw.written]; exact hop
    exact ⟨((BitWriter.writeBytes_emits haligned bytes).ok hw rfl hrun).1,
      BitReader.peek_skip_parses haligned bytes FieldValue.bytes⟩

end WriteOp

/-! ## The stream as blocks -/

/-- From bit position `p` on, each write that stands left its block, and every
one but a torn `write_u64` can be read back from it. -/
inductive Encodes : Nat → List (Option WriteOp) → List (List (Nat × Nat)) → Prop
  | nil (p : Nat) : Encodes p [] []
  | field {p : Nat} {op : WriteOp} {es : List (Option WriteOp)} {bs : List (List (Nat × Nat))}
      (reads : BitReader.Parses p op.shape.read (op.fields p) op.value) (rest : Encodes (p + width (op.fields p)) es bs) :
      Encodes p (some op :: es) (op.fields p :: bs)
  | torn {p : Nat} {b : List (Nat × Nat)} {es : List (Option WriteOp)} {bs : List (List (Nat × Nat))}
      (rest : Encodes (p + width b) es bs) : Encodes p (none :: es) (b :: bs)

namespace Encodes

theorem length_eq {p : Nat} {es : List (Option WriteOp)} {bs : List (List (Nat × Nat))} (h : Encodes p es bs) :
    bs.length = es.length := by
  induction h with
  | nil => rfl
  | field _ _ ih => simp [ih]
  | torn _ ih => simp [ih]

theorem append {p : Nat} {es es' : List (Option WriteOp)} {bs bs' : List (List (Nat × Nat))} (h : Encodes p es bs)
    (h' : Encodes (p + width bs.flatten) es' bs') : Encodes p (es ++ es') (bs ++ bs') := by
  induction h with
  | nil => simpa using h'
  | field reads _ ih =>
    refine .field reads (ih ?_)
    rwa [List.flatten_cons, width_append, ← Nat.add_assoc] at h'
  | torn _ ih =>
    refine .torn (ih ?_)
    rwa [List.flatten_cons, width_append, ← Nat.add_assoc] at h'

theorem take {p : Nat} {es : List (Option WriteOp)} {bs : List (List (Nat × Nat))} (h : Encodes p es bs) (n : Nat) :
    Encodes p (es.take n) (bs.take n) := by
  induction h generalizing n with
  | nil => simpa using Encodes.nil _
  | field reads _ ih =>
    cases n with
    | zero => exact .nil _
    | succ n => exact .field reads (ih n)
  | torn _ ih =>
    cases n with
    | zero => exact .nil _
    | succ n => exact .torn (ih n)

/-- With nothing torn, the blocks are as long as the writes say and the reads
give their values. -/
theorem readAll {p : Nat} {ops : List WriteOp} {bs : List (List (Nat × Nat))} (h : Encodes p (ops.map some) bs) :
    p + width bs.flatten = ops.foldl (fun p op => p + op.size p) p ∧
      BitReader.Parses p (HexNet.readAll (ops.map WriteOp.shape)) bs.flatten (ops.map WriteOp.value) := by
  induction ops generalizing p bs with
  | nil =>
    cases h
    exact ⟨rfl, .pure p []⟩
  | cons op ops ih =>
    cases h with
    | field reads rest =>
      obtain ⟨hwidth, hreads⟩ := ih rest
      rw [WriteOp.width_fields] at hwidth
      refine ⟨?_, reads.bind (hreads.map (op.value :: ·))⟩
      rw [List.flatten_cons, width_append, WriteOp.width_fields, ← Nat.add_assoc, List.foldl_cons, hwidth]

end Encodes

/-! ## Runs -/

/-- The writer holds the blocks of the writes that stand, and a checkpoint is
the position between two of them. -/
structure BitSession.Laid (s : BitSession) (blocks : List (List (Nat × Nat))) : Prop where
  holds : s.writer.Holds blocks.flatten
  encodes : Encodes 0 s.kept blocks
  marks : ∀ m ∈ s.marks, m.2 ≤ s.kept.length ∧ m.1 = width (blocks.take m.2).flatten
  ordered : s.marks.Pairwise (·.2 ≤ ·.2)

namespace BitSession

/-- A block written at the end. -/
theorem Laid.push {s : BitSession} {blocks : List (List (Nat × Nat))} (h : s.Laid blocks) {w : BitWriter}
    {b : List (Nat × Nat)} {e : Option WriteOp} (hw : w.Holds (blocks.flatten ++ b))
    (he : Encodes (0 + width blocks.flatten) [e] [b]) :
    Laid { s with writer := w, kept := s.kept ++ [e] } (blocks ++ [b]) where
  holds := by simpa using hw
  encodes := h.encodes.append he
  marks m hm := by
    obtain ⟨hle, hpos⟩ := h.marks m hm
    have hlen := h.encodes.length_eq
    refine ⟨?_, ?_⟩
    · rw [List.length_append]
      exact Nat.le_add_right_of_le hle
    · rw [List.take_append_of_le_length (by omega)]
      exact hpos
  ordered := h.ordered

/-- The blocks before a checkpoint, and the checkpoints up to it. -/
theorem Laid.cut {s : BitSession} {blocks : List (List (Nat × Nat))} (h : s.Laid blocks) {mark pos count : Nat}
    (hmark : s.marks[mark]? = some (pos, count)) :
    Laid { writer := s.writer.rollback pos, kept := s.kept.take count, marks := s.marks.take (mark + 1) }
      (blocks.take count) where
  holds := by
    have hpos : pos = width (blocks.take count).flatten := (h.marks _ (List.mem_of_getElem? hmark)).2
    have hold := h.holds
    rw [← List.take_append_drop count blocks, List.flatten_append] at hold
    rw [hpos]
    exact (BitWriter.rollback_holds hold).1
  encodes := h.encodes.take count
  marks m hm := by
    obtain ⟨hle, hpos⟩ := h.marks m (List.mem_of_mem_take hm)
    have hcount : m.2 ≤ count := by
      obtain ⟨i, hi, rfl⟩ := List.mem_take_iff_getElem.1 hm
      obtain ⟨hlt, hget⟩ := List.getElem?_eq_some_iff.1 hmark
      rcases Nat.lt_or_ge i mark with hi' | hi'
      · have hle := List.pairwise_iff_getElem.1 h.ordered i mark (by omega) hlt hi'
        rwa [hget] at hle
      · obtain rfl : i = mark := by omega
        rw [hget]
    refine ⟨?_, ?_⟩
    · rw [List.length_take]
      omega
    · rw [List.take_take, Nat.min_eq_left hcount]
      exact hpos
  ordered := h.ordered.sublist (List.take_sublist _ _)

theorem Laid.step {s s' : BitSession} {blocks : List (List (Nat × Nat))} (h : s.Laid blocks) {op : BitOp}
    (hop : s.Allowed op) (hs : s.apply op = some s') : ∃ blocks', s'.Laid blocks' := by
  cases op with
  | write op =>
    simp only [apply] at hs
    split at hs
    next hrun =>
      cases hs
      obtain ⟨hold, hreads⟩ := WriteOp.perform_ok hop h.holds hrun
      refine ⟨_, h.push hold ?_⟩
      rw [Nat.zero_add]
      exact .field hreads (.nil _)
    next v hrun =>
      cases hs
      obtain ⟨b, hold, -⟩ := (BitWriter.writeU64_emits _ _).wrote h.holds rfl (.inl ⟨_, hrun⟩)
      exact ⟨_, h.push hold (.torn (.nil _))⟩
    next hu64 hrun =>
      cases hs
      obtain rfl := BitWriter.perform_error hu64 hrun
      exact ⟨blocks, h⟩
  | checkpoint =>
    cases hs
    have hlen := h.encodes.length_eq
    refine ⟨blocks, h.holds, h.encodes, fun m hm => ?_, ?_⟩
    · rcases List.mem_append.1 hm with hm | hm
      · exact h.marks m hm
      · obtain rfl := List.mem_singleton.1 hm
        refine ⟨le_rfl, ?_⟩
        rw [List.take_of_length_le (by omega)]
        exact h.holds.written
    · refine List.pairwise_append.2 ⟨h.ordered, List.pairwise_singleton _ _, fun m hm n hn => ?_⟩
      obtain rfl := List.mem_singleton.1 hn
      exact (h.marks m hm).1
  | rollback mark =>
    rw [apply] at hs
    split at hs
    next pos count hmark =>
      cases hs
      exact ⟨_, h.cut hmark⟩
    · cases hs

theorem reach_laid {buf : List UInt8} {s : BitSession} (h : Lts.Reach (sys buf) Allowed s) :
    ∃ blocks, s.Laid blocks := by
  refine Lts.Reach.invariant (P := fun s => ∃ blocks, s.Laid blocks) ?_ ?_ h
  · rintro s rfl
    exact ⟨[], BitWriter.new_holds buf, .nil 0, by simp [new], .nil⟩
  · rintro s op s' - ⟨blocks, hlaid⟩ hop hs
    exact hlaid.step hop hs

/-- **What stands is what is read.** Over any buffer and after any writes,
checkpoints and rollbacks, if every `write_u64` that failed has been rolled
back, the finished bytes are as many as the standing writes' bits need, and
the matching reads give their values in order, with less than a byte left. -/
theorem session_reads_back {buf : List UInt8} {s : BitSession} {ops : List WriteOp}
    (h : Lts.Reach (sys buf) Allowed s) (hkept : s.kept = ops.map some) :
    s.writer.finish.2 = (WriteOp.extent ops + 7) / 8 ∧
      ∃ r, (readAll (ops.map WriteOp.shape)).run (.new (s.writer.finish.1.take s.writer.finish.2)) =
          .ok (ops.map WriteOp.value) r ∧ r.bitsRemaining < 8 := by
  obtain ⟨blocks, hlaid⟩ := reach_laid h
  have hencodes := hlaid.encodes
  rw [hkept] at hencodes
  obtain ⟨hwidth, hparse⟩ := hencodes.readAll
  rw [Nat.zero_add] at hwidth
  obtain ⟨-, hlen, -, -⟩ := BitWriter.finish_bytes hlaid.holds
  obtain ⟨hsees, hbytes⟩ := BitReader.new_sees hlaid.holds
  rw [← List.append_nil blocks.flatten] at hsees
  obtain ⟨r, hrun, -, hread, hbuf⟩ := hparse _ [] hsees rfl
  refine ⟨by rw [hlen, hwidth]; rfl, r, hrun, ?_⟩
  have hleft : r.buffer.length = (width blocks.flatten + 7) / 8 := by rw [hbuf]; exact hbytes
  rw [BitReader.bitsRemaining, hread, hleft]
  omega

/-- A `write_u64` cut off by the end of the buffer, taken back, and other
writes in its place. -/
theorem session_reads_back_torn :
    ∃ s, Lts.Reach (sys (List.replicate 8 0xff)) Allowed s ∧
      s.kept = [.writeBits 13 3, .align, .writeBytes [1, 2], .writeRangeI32 (-3) (-5) 5].map some ∧
      ∃ r, (readAll [.bits 3, .align, .bytes 2, .rangeI32 (-5) 5]).run
          (.new (s.writer.finish.1.take s.writer.finish.2)) =
        .ok [.word 5, .unit, .bytes [1, 2], .int (-3)] r ∧ r.bitsRemaining < 8 := by
  have hrun : ∃ s, Lts.Reach (sys (List.replicate 8 0xff)) Allowed s ∧
      s.kept = [.writeBits 13 3, .align, .writeBytes [1, 2], .writeRangeI32 (-3) (-5) 5].map some :=
    Lts.Reach.ofRun Allowed
      [.write (.writeBits 13 3), .checkpoint, .write (.writeU64 7), .rollback 0, .write .align, .write (.writeBytes [1, 2]),
        .write (.writeRangeI32 (-3) (-5) 5)]
      (fun s => s.kept = [.writeBits 13 3, .align, .writeBytes [1, 2], .writeRangeI32 (-3) (-5) 5].map some)
      (by decide +kernel)
  obtain ⟨s, hreach, hkept⟩ := hrun
  exact ⟨s, hreach, hkept, (session_reads_back hreach hkept).2⟩

end BitSession
end HexNet
