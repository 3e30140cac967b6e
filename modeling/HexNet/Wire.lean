/-
Packet layout (`wire.rs`): the cleartext header of a payload packet, and what
kinds of frames the encrypted payload holds.
-/
import HexNet.Bits
import HexNet.Seq

namespace HexNet

/-- Contents of an encrypted payload. -/
inductive FrameKind
  | padding
  | control
  | timeSync
  | message
  | fragment
  | replication
  deriving DecidableEq, Repr

namespace FrameKind

/-- The discriminant. -/
def bits : FrameKind → Nat
  | padding => 0
  | control => 1
  | timeSync => 2
  | message => 3
  | fragment => 4
  | replication => 5

def fromBits : Nat → Option FrameKind
  | 0 => some padding
  | 1 => some control
  | 2 => some timeSync
  | 3 => some message
  | 4 => some fragment
  | 5 => some replication
  | _ => none

def write (kind : FrameKind) : Write Unit := BitWriter.writeBits kind.bits frameKindBits

def read : Read FrameKind := do
  match fromBits (← BitReader.readBits frameKindBits) with
  | some kind => return kind
  | none => throw .outOfRange

theorem fromBits_bits (kind : FrameKind) : fromBits kind.bits = some kind := by cases kind <;> rfl

end FrameKind

/-- Ends a packet's frames, where there is room for the marker. -/
def writePadding (w : BitWriter) : BitWriter :=
  match FrameKind.padding.write.run w with
  | .ok _ w => w
  | .error _ w => w

/-- Contents of a control frame, one numbering for both directions. -/
inductive ControlKind
  | ping
  | close
  | pathChallenge
  | pathResponse
  | resumeTicket
  | accepted
  deriving DecidableEq, Repr

namespace ControlKind

/-- The discriminant. -/
def bits : ControlKind → Nat
  | ping => 0
  | close => 1
  | pathChallenge => 2
  | pathResponse => 3
  | resumeTicket => 4
  | accepted => 5

def fromBits : Nat → Option ControlKind
  | 0 => some ping
  | 1 => some close
  | 2 => some pathChallenge
  | 3 => some pathResponse
  | 4 => some resumeTicket
  | 5 => some accepted
  | _ => none

def write (kind : ControlKind) : Write Unit := BitWriter.writeBits kind.bits controlKindBits

def read : Read ControlKind := do
  match fromBits (← BitReader.readBits controlKindBits) with
  | some kind => return kind
  | none => throw .outOfRange

theorem fromBits_bits (kind : ControlKind) : fromBits kind.bits = some kind := by cases kind <;> rfl

end ControlKind

/-! ## The header -/

inductive PacketKind
  | payload
  | request
  | challenge
  | response
  deriving DecidableEq, Repr

namespace PacketKind

/-- The discriminant. -/
def bits : PacketKind → UInt8
  | payload => 0
  | request => 1
  | challenge => 2
  | response => 3

def fromBits (bits : UInt8) : Option PacketKind :=
  if bits = 0 then some payload
  else if bits = 1 then some request
  else if bits = 2 then some challenge
  else if bits = 3 then some response
  else none

end PacketKind

/-- Server-assigned, naming one live connection of one endpoint. -/
abbrev ConnectionId := UInt32

namespace Flags

def kindMask : UInt8 := 0b00000011
def ack : UInt8 := 0b00000100
def ackBits : UInt8 := 0b00001000
/-- Must be zero. -/
def reserved : UInt8 := 0b11110000

end Flags

/-- Cleartext header of a payload packet. -/
structure Header where
  kind : PacketKind
  connId : ConnectionId
  sequence : WireSequence
  /-- Newest sequence received from the peer. -/
  ack : Option WireSequence
  /-- How long the peer held this acknowledgement, in 250us units. -/
  ackDelay : UInt8
  /-- Bit i set means (ack - 1 - i) was received. -/
  ackBits : BitVec 32
  deriving DecidableEq

namespace Header

open LeBytes

/-- What `encode` sets in the first byte. -/
def flags (h : Header) : UInt8 :=
  h.kind.bits ||| (if h.ack.isSome then Flags.ack else 0) |||
    (if h.ack.isSome ∧ h.ackBits ≠ 0 then Flags.ackBits else 0)

/-- The acknowledgement's bytes, where there is one. -/
def ackBytes (h : Header) : List UInt8 :=
  match h.ack with
  | none => []
  | some ack =>
    leBytes ack.toNat 2 ++ h.ackDelay :: (if h.ackBits ≠ 0 then leBytes h.ackBits.toNat 4 else [])

/-- The header's bytes, which become the associated data. -/
def bytes (h : Header) : List UInt8 :=
  h.flags :: (leBytes h.connId.toNat 4 ++ leBytes h.sequence.toNat 2 ++ h.ackBytes)

/-- Writes the header at the buffer's start: the buffer, and the length used. -/
def encode (h : Header) (out : List UInt8) : List UInt8 × Nat := (overwrite out 0 h.bytes, h.bytes.length)

/-- The little-endian number in `n` bytes at `at_`. -/
def readArray (n : Nat) (input : List UInt8) (at_ : Nat) : Except ReadError Nat :=
  if input.length < at_ + n then .error .eof else .ok (leNat ((input.drop at_).take n))

/-- The history bits, where the flags say there are some, and where they end. -/
def decodeBits (first : UInt8) (input : List UInt8) : Except ReadError (BitVec 32 × Nat) :=
  if first &&& Flags.ackBits ≠ 0 then do return (BitVec.ofNat 32 (← readArray 4 input 10), 14)
  else .ok (0, 10)

/-- The acknowledgement, its delay and history, and where they end. History
without an acknowledgement has no meaning. -/
def decodeAck (first : UInt8) (input : List UInt8) :
    Except ReadError (Option WireSequence × UInt8 × BitVec 32 × Nat) :=
  if first &&& Flags.ack ≠ 0 then do
    let ack ← readArray 2 input 7
    let delay ← readArray 1 input 9
    let rest ← decodeBits first input
    return (some (UInt16.ofNat ack), UInt8.ofNat delay, rest.1, rest.2)
  else if first &&& Flags.ackBits ≠ 0 then .error .outOfRange
  else .ok (none, 0, 0, 7)

/-- Parses a header from untrusted bytes: the header, and its length. -/
def decode (input : List UInt8) : Except ReadError (Header × Nat) :=
  match input.head? with
  | none => .error .eof
  | some first =>
    if first &&& Flags.reserved ≠ 0 then .error .outOfRange
    else
      match PacketKind.fromBits (first &&& Flags.kindMask) with
      | none => .error .outOfRange
      | some kind => do
        let connId ← readArray 4 input 1
        let sequence ← readArray 2 input 5
        let ack ← decodeAck first input
        return (⟨kind, UInt32.ofNat connId, UInt16.ofNat sequence, ack.1, ack.2.1, ack.2.2.1⟩, ack.2.2.2)

/-- What a header without an acknowledgement cannot carry is absent. -/
def Plain (h : Header) : Prop := h.ack = none → h.ackDelay = 0 ∧ h.ackBits = 0

theorem length_bytes_le (h : Header) : h.bytes.length ≤ headerMaxLen := by
  simp only [bytes, ackBytes, List.length_cons, List.length_append, length_leBytes, headerMaxLen]
  split
  · simp
  · split <;> simp

theorem flags_spec (h : Header) :
    h.flags &&& Flags.reserved = 0 ∧ PacketKind.fromBits (h.flags &&& Flags.kindMask) = some h.kind ∧
      (h.flags &&& Flags.ack ≠ 0 ↔ h.ack.isSome) ∧
      (h.flags &&& Flags.ackBits ≠ 0 ↔ h.ack.isSome ∧ h.ackBits ≠ 0) := by
  have hflags : ∀ (kind : PacketKind) (a b : Bool),
      let f := kind.bits ||| (if a then Flags.ack else 0) ||| (if a ∧ b then Flags.ackBits else 0)
      f &&& Flags.reserved = 0 ∧ PacketKind.fromBits (f &&& Flags.kindMask) = some kind ∧
        (f &&& Flags.ack ≠ 0 ↔ a) ∧ (f &&& Flags.ackBits ≠ 0 ↔ a ∧ b) := by
    intro kind a b
    cases kind <;> cases a <;> cases b <;> decide
  have h := hflags h.kind h.ack.isSome (decide (h.ackBits ≠ 0))
  simpa [flags] using h

theorem readArray_append {n at_ value : Nat} {pre post : List UInt8} (hpre : pre.length = at_) (hlt : value < 256 ^ n) :
    readArray n (pre ++ (leBytes value n ++ post)) at_ = .ok value := by
  subst hpre
  have hdrop : (pre ++ (leBytes value n ++ post)).drop pre.length = leBytes value n ++ post := List.drop_left
  have htake : (leBytes value n ++ post).take n = leBytes value n := List.take_left' (length_leBytes _ _)
  rw [readArray, if_neg (by simp), hdrop, htake, leNat_leBytes, Nat.mod_eq_of_lt hlt]

/-- The fixed part of a header. -/
def fixedBytes (h : Header) : List UInt8 := h.flags :: (leBytes h.connId.toNat 4 ++ leBytes h.sequence.toNat 2)

theorem bytes_eq (h : Header) : h.bytes = h.fixedBytes ++ h.ackBytes := by simp [bytes, fixedBytes]

theorem length_fixedBytes (h : Header) : h.fixedBytes.length = 7 := by simp [fixedBytes]

theorem decodeAck_bytes {h : Header} (hplain : h.Plain) (post : List UInt8) :
    decodeAck h.flags (h.bytes ++ post) = .ok (h.ack, h.ackDelay, h.ackBits, h.bytes.length) := by
  obtain ⟨-, -, hack, hbits⟩ := h.flags_spec
  have hfixed := h.length_fixedBytes
  rw [bytes_eq, List.append_assoc, List.length_append, hfixed]
  cases hcase : h.ack with
  | none =>
    rw [hcase] at hack hbits
    obtain ⟨hdelay, hnone⟩ := hplain hcase
    rw [decodeAck, if_neg (by simpa using hack), if_neg (by simpa using hbits), hdelay, hnone]
    simp [ackBytes, hcase]
  | some ack =>
    rw [hcase] at hack hbits
    have hsplit : h.ackBytes ++ post = leBytes ack.toNat 2 ++ (leBytes h.ackDelay.toNat 1 ++
        ((if h.ackBits ≠ 0 then leBytes h.ackBits.toNat 4 else []) ++ post)) := by
      simp [ackBytes, hcase, leBytes]
    have hack' : readArray 2 (h.fixedBytes ++ (h.ackBytes ++ post)) 7 = .ok ack.toNat := by
      rw [hsplit]
      exact readArray_append hfixed ack.toNat_lt
    have hdelay : readArray 1 (h.fixedBytes ++ (h.ackBytes ++ post)) 9 = .ok h.ackDelay.toNat := by
      rw [hsplit, ← List.append_assoc]
      exact readArray_append (by simp [hfixed]) h.ackDelay.toNat_lt
    have hlast : decodeBits h.flags (h.fixedBytes ++ (h.ackBytes ++ post)) =
        .ok (h.ackBits, 7 + h.ackBytes.length) := by
      by_cases hzero : h.ackBits = 0
      · have hno : ¬ h.flags &&& Flags.ackBits ≠ 0 := by simpa [hzero] using hbits
        rw [decodeBits, if_neg hno]
        simp [ackBytes, hcase, hzero]
      · have hyes : h.flags &&& Flags.ackBits ≠ 0 := hbits.2 ⟨rfl, hzero⟩
        have hread : readArray 4 (h.fixedBytes ++ (h.ackBytes ++ post)) 10 = .ok h.ackBits.toNat := by
          rw [hsplit, if_pos hzero, ← List.append_assoc, ← List.append_assoc]
          exact readArray_append (by simp [hfixed]) h.ackBits.isLt
        have hlen : h.ackBytes.length = 7 := by
          rw [ackBytes, hcase]
          dsimp only
          rw [if_pos hzero]
          simp
        rw [decodeBits, if_pos hyes, hread, hlen]
        simp [bind, Except.bind, pure, Except.pure]
    rw [decodeAck, if_pos (hack.2 rfl), hack', hdelay, hlast]
    simp [bind, Except.bind, pure, Except.pure]

/-- **A header is read back as it was written**, whatever follows it. -/
theorem decode_bytes {h : Header} (hplain : h.Plain) (post : List UInt8) :
    decode (h.bytes ++ post) = .ok (h, h.bytes.length) := by
  obtain ⟨hres, hkind, -, -⟩ := h.flags_spec
  have hsplit : h.bytes ++ post = [h.flags] ++ (leBytes h.connId.toNat 4 ++
      (leBytes h.sequence.toNat 2 ++ (h.ackBytes ++ post))) := by simp [bytes]
  have hconn : readArray 4 (h.bytes ++ post) 1 = .ok h.connId.toNat := by
    rw [hsplit]
    exact readArray_append rfl h.connId.toNat_lt
  have hseq : readArray 2 (h.bytes ++ post) 5 = .ok h.sequence.toNat := by
    rw [hsplit, ← List.append_assoc]
    exact readArray_append (by simp) h.sequence.toNat_lt
  have hhead : (h.bytes ++ post).head? = some h.flags := rfl
  rw [decode, hhead]
  dsimp only
  rw [if_neg (by simpa using hres), hkind, hconn, hseq, decodeAck_bytes hplain]
  simp [bind, Except.bind, pure, Except.pure]

end Header
end HexNet
