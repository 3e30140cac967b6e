/-
What the transport is tuned by (`config.rs`), with the sizes its bounds are
built from: the wire's (`wire.rs`, `crypto.rs`) and a message frame's
(`channel.rs`). Each configuration is a structure carrying what its
constructor checks, so a value the constructor refuses cannot be written down.
-/
import HexNet.Time

namespace HexNet

/-! ## Sizes -/

def maxDatagram : Nat := 1200

/-- Handshake packets are padded to this length. -/
def handshakeLen : Nat := 1200

def tagLen : Nat := 16
def nonceLen : Nat := 12

/-- Largest encrypted blob handled. -/
def maxBlob : Nat := 512

/-- `Header::MAX_LEN`. -/
def headerMaxLen : Nat := 14

/-- Bits needed for any value from 0 to `range`: `32 - range.leading_zeros()`. -/
def bitsRequired (range : Nat) : Nat := if range = 0 then 0 else range.log2 + 1

def maxMessage : Nat := 1024
def maxChannels : Nat := 8
def messageIdBits : Nat := 16

/-- `FrameKind::BITS` and `ControlKind::BITS`. -/
def frameKindBits : Nat := 3
def controlKindBits : Nat := 3

/-- Bits in a message frame's fields: kind, channel, id, and length. -/
def messageFrameBits : Nat :=
  frameKindBits + bitsRequired (maxChannels - 1) + messageIdBits + bitsRequired maxMessage

/-- Worst-case bytes a message frame adds to its payload: its fields and up to
seven bits of alignment. -/
def messageFrameOverhead : Nat := (messageFrameBits + 7 + 7) / 8

/-- Wire resolution of the acknowledgement delay field. -/
def ackDelayUnit : Span := Span.fromMicros 250

/-- Slowest send rate offered, in bytes a second. -/
def minRate : Nat := 2000

/-- Smallest packet size a connection may be capped at. -/
def minPacket : Nat := headerMaxLen + tagLen + messageFrameOverhead + maxMessage

/-! ## The three configurations -/

/-- One side's send allowance: a `u32` rate and the largest datagram built. -/
structure BudgetConfig where
  rate : Nat
  maxPacket : Nat
  rate_lt : rate < 2 ^ 32
  rate_ge : minRate ≤ rate
  packet_ge : minPacket ≤ maxPacket
  packet_le : maxPacket ≤ maxDatagram

/-- `BudgetConfig::new`: `none` for a rate or a cap outside its bounds. -/
def BudgetConfig.new (rate maxPacket : Nat) : Option BudgetConfig :=
  if h : rate < 2 ^ 32 ∧ minRate ≤ rate ∧ minPacket ≤ maxPacket ∧ maxPacket ≤ maxDatagram then
    some ⟨rate, maxPacket, h.1, h.2.1, h.2.2.1, h.2.2.2⟩
  else none

/-- Longest a receiver holds an acknowledgement: what the header can report. -/
structure MaxAckDelay where
  get : Span
  le : get.nanos ≤ ackDelayUnit.nanos * (255 - 1)

def MaxAckDelay.new (delay : Span) : Option MaxAckDelay :=
  if h : delay.nanos ≤ ackDelayUnit.nanos * (255 - 1) then some ⟨delay, h⟩ else none

/-- How long silence may last, and how often it is broken: a keepalive is
nonzero and fits twice in the timeout it defends against. -/
structure Liveness where
  idleTimeout : Span
  keepalive : Span
  keepalive_pos : 0 < keepalive.nanos
  twice_le : (keepalive.saturatingMul 2).nanos ≤ idleTimeout.nanos

def Liveness.new (idleTimeout keepalive : Span) : Option Liveness :=
  if h : 0 < keepalive.nanos ∧ (keepalive.saturatingMul 2).nanos ≤ idleTimeout.nanos then
    some ⟨idleTimeout, keepalive, h.1, h.2⟩
  else none

structure TransportConfig where
  budget : BudgetConfig
  maxAckDelay : MaxAckDelay
  liveness : Liveness

theorem minPacket_le_maxDatagram : minPacket ≤ maxDatagram := by decide

def BudgetConfig.default : BudgetConfig :=
  ⟨8000, maxDatagram, by decide, by decide, by decide, by decide⟩

def MaxAckDelay.default : MaxAckDelay := ⟨Span.fromMillis 25, by decide⟩

def Liveness.default : Liveness := ⟨Span.fromSecs 10, Span.fromSecs 1, by decide, by decide⟩

def TransportConfig.default : TransportConfig := ⟨.default, .default, .default⟩

/-- Every default passes its own check. -/
theorem defaults_admitted :
    BudgetConfig.new 8000 maxDatagram = some .default ∧
      MaxAckDelay.new (Span.fromMillis 25) = some .default ∧
      Liveness.new (Span.fromSecs 10) (Span.fromSecs 1) = some .default := by
  refine ⟨?_, ?_, ?_⟩
  · exact dif_pos (by decide)
  · exact dif_pos (by decide)
  · exact dif_pos (by decide)

theorem messageFrameOverhead_eq : messageFrameOverhead = 5 := by decide

end HexNet
