/-
The cryptographic and sequencing layer of a connection (`packet.rs`): both
ciphers, the send counter, and the two receive windows.

A datagram is the bytes of it that arrived, `buf[..len]`; decrypting answers
the plaintext, which the source leaves in that buffer.
-/
import HexNet.Crypto
import HexNet.Time
import HexNet.Wire

namespace HexNet

structure Packet where
  bytes : List UInt8
  len : bytes.length = maxDatagram

/-- What the outgoing header reports about received traffic. -/
structure AckState where
  newest : Nat
  bits : BitVec 32
  receivedAt : Timestamp

inductive DecryptError
  /-- The header did not parse, or was not a payload packet. -/
  | malformed
  | replay (e : WindowError)
  | unauthenticated
  deriving DecidableEq

structure Decrypted where
  sequence : Nat
  header : Header
  body : List UInt8
  /-- Whether this is the one after the newest authenticated so far. -/
  inOrder : Bool

structure PacketCrypto where
  tx : Cipher
  rx : Cipher
  nextSequence : Nat
  /-- Every received sequence. -/
  replay : ReceiveWindow
  /-- Received sequences that should be acknowledged. -/
  acked : ReceiveWindow
  /-- When `acked`'s newest entry arrived. -/
  newestAckedAt : Timestamp

namespace PacketCrypto

def new (connId : ConnectionId) (tx rx : Aead) : PacketCrypto where
  tx := ⟨tx, connId⟩
  rx := ⟨rx, connId⟩
  nextSequence := Sequence.first
  replay := .empty
  acked := .empty
  newestAckedAt := .zero

def ackState (c : PacketCrypto) : Option AckState :=
  c.acked.newest.map fun newest => ⟨newest, c.acked.ackBits, c.newestAckedAt⟩

def recordEliciting (c : PacketCrypto) (sequence : Nat) (now : Timestamp) : PacketCrypto :=
  { c with
    newestAckedAt := if c.acked.newest.all fun newest => newest < sequence then now else c.newestAckedAt
    acked := c.acked.insert sequence }

/-- Parses, checks and decrypts one datagram. The sequence reaches the replay
window only once the packet has authenticated. -/
def decrypt (c : PacketCrypto) (datagram : List UInt8) : Except DecryptError (PacketCrypto × Decrypted) :=
  match Header.decode datagram with
  | .error _ => .error .malformed
  | .ok (header, headerLen) =>
    if header.kind ≠ .payload then .error .malformed
    else
      match Sequence.resolve c.replay.newest header.sequence with
      | none => .error .malformed
      | some sequence =>
        match c.replay.check sequence with
        | .error e => .error (.replay e)
        | .ok () =>
          let inOrder := c.replay.newest.all fun newest => sequence == newest + 1
          match c.rx.decrypt sequence datagram headerLen with
          | none => .error .unauthenticated
          | some body => .ok ({ c with replay := c.replay.insert sequence }, ⟨sequence, header, body, inOrder⟩)

/-- Encrypts the body in place and appends the tag, consuming the sequence:
the datagram. -/
def encrypt (c : PacketCrypto) (buf : List UInt8) (headerLen bodyEnd : Nat) : Option (PacketCrypto × List UInt8) :=
  (c.tx.encrypt c.nextSequence buf headerLen bodyEnd).map fun sealed =>
    ({ c with nextSequence := c.nextSequence + 1 }, sealed.1.take sealed.2)

/-- Resolves a peer's acknowledgement, rejecting anything ahead of our own
counter. -/
def resolveAck (c : PacketCrypto) (wire : WireSequence) : Option Nat :=
  (Sequence.checkedSub c.nextSequence 1).bind fun newestSent =>
    (Sequence.resolve (some newestSent) wire).filter fun ack => ack ≤ newestSent

/-- What opens is authentic, and opening it only remembers its sequence. -/
theorem decrypt_ok {c c' : PacketCrypto} {datagram : List UInt8} {opened : Decrypted}
    (h : c.decrypt datagram = .ok (c', opened)) :
    c' = { c with replay := c.replay.insert opened.sequence } ∧
      ∃ headerLen, Header.decode datagram = .ok (opened.header, headerLen) ∧
        c.rx.decrypt opened.sequence datagram headerLen = some opened.body := by
  unfold decrypt at h
  split at h
  · cases h
  next header headerLen hheader =>
    split at h
    · cases h
    · split at h
      · cases h
      · split at h
        · cases h
        · dsimp only at h
          split at h
          · cases h
          next body hbody =>
            cases h
            exact ⟨rfl, headerLen, hheader, hbody⟩

theorem decrypt_replay {c c' : PacketCrypto} {datagram : List UInt8} {opened : Decrypted}
    (h : c.decrypt datagram = .ok (c', opened)) : c' = { c with replay := c.replay.insert opened.sequence } :=
  (decrypt_ok h).1

/-- Opening a datagram leaves the sending half as it was. -/
theorem decrypt_tx {c c' : PacketCrypto} {datagram : List UInt8} {opened : Decrypted}
    (h : c.decrypt datagram = .ok (c', opened)) : c'.nextSequence = c.nextSequence ∧ c'.tx = c.tx := by
  rw [decrypt_replay h]
  exact ⟨rfl, rfl⟩

theorem decrypt_rx {c c' : PacketCrypto} {datagram : List UInt8} {opened : Decrypted}
    (h : c.decrypt datagram = .ok (c', opened)) : c'.rx = c.rx := by rw [decrypt_replay h]

/-! ## What sealing gives -/

open LeBytes in
/-- A body with room behind it for its tag is sealed in place: the datagram is
the header, the ciphertext and the tag. -/
theorem encrypt_spec (c : PacketCrypto) (header : List UInt8) {body rest : List UInt8} (hrest : tagLen ≤ rest.length)
    (hlen : body.length < 2 ^ 32) :
    ∃ sealed, c.tx.inner.encrypt (c.tx.nonce c.nextSequence) header body = some sealed ∧
      c.encrypt (header ++ (body ++ rest)) header.length (header.length + body.length) =
        some ({ c with nextSequence := c.nextSequence + 1 }, header ++ (sealed.1 ++ sealed.2)) := by
  obtain ⟨sealed, hsealed⟩ := Option.isSome_iff_exists.1
    (c.tx.inner.encrypt_isSome (c.tx.nonce c.nextSequence) header body hlen)
  obtain ⟨hbody, htag⟩ := c.tx.inner.encrypt_len _ _ _ _ hsealed
  have hat : header.length + body.length = (header ++ sealed.1).length := by rw [List.length_append, hbody]
  have htotal : header.length + body.length + tagLen = (header ++ sealed.1 ++ sealed.2).length := by
    simp only [List.length_append, hbody, htag]
  have hpart : ((header ++ (body ++ rest)).drop header.length).take (header.length + body.length - header.length) =
      body := by
    rw [List.drop_left, Nat.add_sub_cancel_left, List.take_left]
  have hroom : ¬ (header.length + body.length < header.length ∨
      (header ++ (body ++ rest)).length < header.length + body.length + tagLen) := by
    simp only [List.length_append]
    omega
  refine ⟨sealed, hsealed, ?_⟩
  rw [encrypt, Cipher.encrypt, if_neg hroom]
  dsimp only
  rw [List.take_left, hpart, hsealed, Option.map_some, Option.map_some]
  dsimp only
  rw [overwrite_part hbody, ← List.append_assoc, htotal, hat, overwrite_append, ← List.append_assoc, List.take_left,
    List.append_assoc]

end PacketCrypto
end HexNet
