/-
AEAD over an implementation we do not look into (`crypto.rs`): the rules
here are about using one correctly.

`Aead` is what the source gets from `ChaCha20Poly1305::new(key)`, with what
that crate documents of it as fields. Nothing here says that a forgery is
hard to find; where a result needs that, it says so.
-/
import HexNet.Lib.LeBytes
import HexNet.Config

namespace HexNet

open LeBytes

structure Key where
  bytes : List UInt8
  len : bytes.length = 32
  deriving DecidableEq

/-- One key's AEAD, with a detached tag. -/
structure Aead where
  encrypt : (nonce aad body : List UInt8) → Option (List UInt8 × List UInt8)
  decrypt : (nonce aad body tag : List UInt8) → Option (List UInt8)
  /-- Only a message beyond the cipher's limit is refused. -/
  encrypt_isSome : ∀ nonce aad body, body.length < 2 ^ 32 → (encrypt nonce aad body).isSome
  /-- In place, with a tag of sixteen bytes. -/
  encrypt_len : ∀ nonce aad body r, encrypt nonce aad body = some r → r.1.length = body.length ∧ r.2.length = tagLen
  decrypt_encrypt : ∀ nonce aad body r, encrypt nonce aad body = some r → decrypt nonce aad r.1 r.2 = some body

/-- A cipher that hides nothing and whose tag is the nonce: what the model runs
on where a run has to be computed. -/
def Aead.clear : Aead where
  encrypt nonce _ body := some (body, (nonce ++ List.replicate tagLen 0).take tagLen)
  decrypt nonce _ body tag := if tag = (nonce ++ List.replicate tagLen 0).take tagLen then some body else none
  encrypt_isSome _ _ _ _ := rfl
  encrypt_len nonce aad body r h := by
    cases h
    exact ⟨rfl, by simp⟩
  decrypt_encrypt nonce aad body r h := by
    cases h
    exact if_pos rfl

structure Cipher where
  inner : Aead
  connId : UInt32

namespace Cipher

/-- nonce = conn_id || sequence. -/
def nonce (c : Cipher) (sequence : Nat) : List UInt8 := leBytes c.connId.toNat 4 ++ leBytes sequence 8

/-- Encrypts `buf[headerLen..bodyEnd]` in place and appends the tag, the header
being associated data: the buffer, and the total packet length. -/
def encrypt (c : Cipher) (sequence : Nat) (buf : List UInt8) (headerLen bodyEnd : Nat) : Option (List UInt8 × Nat) :=
  if bodyEnd < headerLen ∨ buf.length < bodyEnd + tagLen then none
  else
    let header := buf.take headerLen
    let body := (buf.drop headerLen).take (bodyEnd - headerLen)
    (c.inner.encrypt (c.nonce sequence) header body).map fun sealed =>
      (overwrite (overwrite buf headerLen sealed.1) bodyEnd sealed.2, bodyEnd + tagLen)

/-- Verifies and decrypts a packet: the plaintext. -/
def decrypt (c : Cipher) (seq : Nat) (packet : List UInt8) (headerLen : Nat) : Option (List UInt8) :=
  if packet.length < headerLen + tagLen then none
  else
    let bodyLen := packet.length - headerLen - tagLen
    let rest := packet.drop headerLen
    c.inner.decrypt (c.nonce seq) (packet.take headerLen) (rest.take bodyLen) (rest.drop bodyLen)

end Cipher
end HexNet
