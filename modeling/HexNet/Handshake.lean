/-
Tickets and cookies (`handshake.rs`), and the blobs that seal them
(`crypto.rs`).

`Suite` is what `ChaCha20Poly1305::new` makes of a key. Random draws are
arguments: `none` for a sealing nonce is a generator that failed.
-/
import HexNet.BitsFacts
import HexNet.Connection
import HexNet.Framing

namespace HexNet

open LeBytes

/-! ## Blobs -/

/-- `ChaCha20Poly1305::new`. -/
abbrev Suite := Key → Aead

abbrev BlobNonce := TicketId

/-- Encrypts into a buffer of `room` bytes: nonce || ciphertext || tag. -/
def encryptBlob (aead : Aead) (draw : Option BlobNonce) (blob aad : List UInt8) (room : Nat) : Option (List UInt8) :=
  if room < nonceLen + blob.length + tagLen then none
  else
    draw.bind fun nonce =>
      (aead.encrypt nonce.nonce aad blob).map fun sealed => nonce.nonce ++ (sealed.1 ++ sealed.2)

/-- Verifies and decrypts into a buffer of `room` bytes. -/
def decryptBlob (aead : Aead) (blob aad : List UInt8) (room : Nat) : Option (List UInt8) :=
  if blob.length < nonceLen + tagLen then none
  else
    let rest := blob.drop nonceLen
    let ciphertext := rest.take (rest.length - tagLen)
    if room < ciphertext.length then none
    else aead.decrypt (blob.take nonceLen) aad ciphertext (rest.drop (rest.length - tagLen))

/-! ## Keys -/

/-- Both directions' keys for one session, as the backend issued them. -/
structure Keys where
  clientToServer : Key
  serverToClient : Key
  deriving DecidableEq

structure ConnectionKeys where
  keys : Keys
  deriving DecidableEq

/-- The first 32 bytes of the keystream under `key` at `iv`: what encrypting
zeros yields. -/
def keystream (suite : Suite) (key : Key) (iv : List UInt8) : Key :=
  match h : (suite key).encrypt iv [] (List.replicate 32 0) with
  | some r => ⟨r.1, by rw [((suite key).encrypt_len _ _ _ _ h).1, List.length_replicate]⟩
  | none => key

/-- A subkey, in two steps of the same pseudorandom function: at
`id || client`, then at `server || 0`. -/
def derive (suite : Suite) (key : Key) (id : ConnectionId) (client : ClientNonce) (server : ServerNonce) : Key :=
  keystream suite (keystream suite key (leBytes id.toNat 4 ++ leBytes client.toNat 8))
    (leBytes server.toNat 8 ++ List.replicate 4 0)

/-- The keys one connection encrypts with, bound to its id and to the nonces of
the handshake that created it. -/
def Keys.forConnection (suite : Suite) (k : Keys) (id : ConnectionId) (client : ClientNonce) (server : ServerNonce) :
    ConnectionKeys :=
  ⟨derive suite k.clientToServer id client server, derive suite k.serverToClient id client server⟩

/-! ## Tickets -/

def protocolId : Nat := 0x4E45544C49420001

def cookieLifetime : Span := Span.fromSecs 10

def resumeGrace : Span := Span.fromSecs 45

def resumeTicketLifetime : Span := Span.fromSecs 180

def maxUserData : Nat := 256

def maxTicket : Nat := maxUserData + 128
def maxCookie : Nat := maxTicket + 56

abbrev UserData := FixedVec UInt8 maxUserData

/-- The session numbered `sequence` among those `shard` creates. -/
def SessionId.new (sequence : Nat) (shard : ShardId) : SessionId :=
  BitVec.ofNat 64 sequence <<< shardBits ||| BitVec.ofNat 64 shard.toNat

def SessionId.shard (session : SessionId) : ShardId := UInt8.ofNat (session.toNat % 2 ^ shardBits)

/-- The nonce a request's ticket was sealed under. -/
def TicketId.ofRequest (packet : List UInt8) : Option TicketId :=
  (handshakeBlob packet).bind fun blob =>
    if h : nonceLen ≤ blob.length then some ⟨blob.take nonceLen, List.length_take_of_le h⟩ else none

structure Ticket where
  expiresAt : Timestamp
  clientId : BitVec 64
  /-- `none` for a new player; otherwise the session being resumed. -/
  session : Option SessionId
  keys : Keys
  userData : UserData

inductive HandshakeError
  | undersized
  /-- Failed authentication, or was not a ticket at all. -/
  | badAuth
  | expired
  | addressMismatch
  | noSession
  | spent
  | malformed
  deriving DecidableEq, Repr

namespace Ticket

/-- The part of ticket policy any shard can judge. -/
def checkExpiry (t : Ticket) (now : Timestamp) : Except HandshakeError Unit :=
  if t.expiresAt < now then .error .expired else .ok ()

def writeKey (key : Key) : Write Unit := key.bytes.forM fun byte => BitWriter.writeBits byte.toNat 8

def write (t : Ticket) : Write Unit := do
  BitWriter.writeU64 t.expiresAt.nanos
  BitWriter.writeU64 t.clientId.toNat
  BitWriter.writeBool t.session.isSome
  BitWriter.writeU64 (t.session.getD 0).toNat
  writeKey t.keys.clientToServer
  writeKey t.keys.serverToClient
  BitWriter.writeRange t.userData.items.length 0 maxUserData
  BitWriter.align
  BitWriter.writeBytes t.userData.items

/-- `encode_ticket`: the buffer written, and the length used. -/
def encodeInto (t : Ticket) (out : List UInt8) : Option (List UInt8 × Nat) :=
  match t.write.run (.new out) with
  | .error _ _ => none
  | .ok _ w => some w.finish

/-- `encode_ticket`, into a zeroed buffer. -/
def encode (t : Ticket) : Option (List UInt8) :=
  (t.encodeInto (List.replicate maxTicket 0)).map fun out => out.1.take out.2

def readKeyBytes : (n : Nat) → Read { bytes : List UInt8 // bytes.length = n }
  | 0 => pure ⟨[], rfl⟩
  | n + 1 => do
    let byte ← BitReader.readBits 8
    let rest ← readKeyBytes n
    return ⟨UInt8.ofNat byte :: rest.1, by rw [List.length_cons, rest.2]⟩

def readKey : Read Key := do
  let bytes ← readKeyBytes 32
  return ⟨bytes.1, bytes.2⟩

def readUserData : Read UserData := do
  let n ← BitReader.readRange 0 maxUserData
  BitReader.align
  let payload ← BitReader.peek n
  BitReader.skipBytes n
  match FixedVec.fromSlice payload with
  | some userData => return userData
  | none => throw .outOfRange

def read : Read Ticket := do
  let expiresAt ← BitReader.readU64
  let clientId ← BitReader.readU64
  let hasSession ← BitReader.readBool
  let session ← BitReader.readU64
  let clientToServer ← readKey
  let serverToClient ← readKey
  let userData ← readUserData
  return {
    expiresAt := ⟨expiresAt % 2 ^ 64, Nat.mod_lt _ (by decide)⟩
    clientId := BitVec.ofNat 64 clientId
    session := if hasSession then some (BitVec.ofNat 64 session) else none
    keys := ⟨clientToServer, serverToClient⟩
    userData }

def decode (bytes : List UInt8) : Except HandshakeError Ticket :=
  match read.run (.new bytes) with
  | .ok ticket _ => .ok ticket
  | .error _ _ => .error .malformed

end Ticket

def ticketAad : List UInt8 := leBytes protocolId 8

/-- Seals a ticket. The backend calls this after authenticating a player. -/
def encryptTicket (aead : Aead) (draw : Option BlobNonce) (ticket : Ticket) (room : Nat) : Option (List UInt8) :=
  ticket.encode.bind fun plain => encryptBlob aead draw plain ticketAad room

/-! ## Cookies -/

inductive IpAddr
  | v4 (bits : BitVec 32)
  | v6 (bits : BitVec 128)
  deriving DecidableEq

namespace SocketAddr

def ip : SocketAddr → IpAddr
  | v4 ip _ => .v4 ip
  | v6 ip _ _ _ => .v6 ip

def port : SocketAddr → UInt16
  | v4 _ port => port
  | v6 _ port _ _ => port

def new : IpAddr → UInt16 → SocketAddr
  | .v4 ip, port => v4 ip port
  | .v6 ip, port => v6 ip port 0 0

end SocketAddr

structure Cookie where
  /-- The shard that must complete this handshake. -/
  home : ShardId
  issuedAt : Timestamp
  addr : SocketAddr
  nonce : ClientNonce
  /-- The nonce the server chose for the challenge carrying this cookie. -/
  serverNonce : ServerNonce
  ticketId : TicketId
  ticket : Ticket

namespace Cookie

/-- An address with its family tag, most significant octet first. -/
def ipBytes : IpAddr → List UInt8
  | .v4 ip => 4 :: (leBytes ip.toNat 4).reverse
  | .v6 ip => 6 :: (leBytes ip.toNat 16).reverse

/-- `encode_cookie`: issue time, address family, address, port, both nonces,
the ticket's identity, the ticket. -/
def encode (now : Timestamp) (addr : SocketAddr) (nonce : ClientNonce) (serverNonce : ServerNonce)
    (ticketId : TicketId) (ticket : Ticket) : Option (List UInt8) :=
  ticket.encode.map fun ticket =>
    leBytes now.nanos 8 ++ (ipBytes addr.ip ++ (leBytes addr.port.toNat 2 ++ (leBytes nonce.toNat 8 ++
      (leBytes serverNonce.toNat 8 ++ (ticketId.nonce ++ ticket)))))

def decodeIp (bytes : List UInt8) : Option (IpAddr × Nat) :=
  match bytes[8]? with
  | none => none
  | some family =>
    if family = 4 then (slice bytes 9 4).map fun octets => (.v4 (BitVec.ofNat 32 (leNat octets.reverse)), 13)
    else if family = 6 then (slice bytes 9 16).map fun octets => (.v6 (BitVec.ofNat 128 (leNat octets.reverse)), 25)
    else none

def decodeNat (bytes : List UInt8) (at_ len : Nat) : Option Nat := (slice bytes at_ len).map leNat

def decodeTicketId (bytes : List UInt8) (at_ : Nat) : Option TicketId :=
  match h : slice bytes at_ nonceLen with
  | some nonce => some ⟨nonce, length_slice h⟩
  | none => none

/-- The fields ahead of the ticket, and where they end. -/
def decodeFields (bytes : List UInt8) :
    Option (Timestamp × SocketAddr × ClientNonce × ServerNonce × TicketId × Nat) := do
  let issued ← decodeNat bytes 0 8
  let (ip, at_) ← decodeIp bytes
  let port ← decodeNat bytes at_ 2
  let nonce ← decodeNat bytes (at_ + 2) 8
  let serverNonce ← decodeNat bytes (at_ + 10) 8
  let ticketId ← decodeTicketId bytes (at_ + 18)
  return (⟨issued % 2 ^ 64, Nat.mod_lt _ (by decide)⟩, .new ip (UInt16.ofNat port), BitVec.ofNat 64 nonce,
    BitVec.ofNat 64 serverNonce, ticketId, at_ + 18 + nonceLen)

def decode (home : ShardId) (bytes : List UInt8) : Except HandshakeError Cookie :=
  match decodeFields bytes with
  | none => .error .malformed
  | some (issuedAt, addr, nonce, serverNonce, ticketId, at_) =>
    match Ticket.decode (bytes.drop at_) with
    | .error e => .error e
    | .ok ticket => .ok { home, issuedAt, addr, nonce, serverNonce, ticketId, ticket }

end Cookie

/-- Associated data for a sealed cookie: the protocol, and the shard it is
addressed to. -/
def cookieAad (home : ShardId) : List UInt8 := leBytes protocolId 8 ++ [home]

/-! ## The acceptor -/

/-- The shard that completes a handshake presenting this ticket, or `none` for
a session no shard in a group this size can hold. -/
def ShardCount.home (count : ShardCount) (session : Option SessionId) (ticket : TicketId) : Option ShardId :=
  match session with
  | some session => if count.contains session.shard then some session.shard else none
  | none => some (UInt8.ofNat (leNat (ticket.nonce.take 4) % count.get))

/-- Sealing and opening of tickets and cookies: stateless apart from two keys
and the size of the group it serves. -/
structure Acceptor where
  /-- Shared with the backend that issues tickets for new players. -/
  backendKey : Key
  /-- Known only to this server's shards. -/
  serverKey : Key
  shards : ShardCount

namespace Acceptor

variable (suite : Suite)

def home (a : Acceptor) (ticket : Ticket) (ticketId : TicketId) : Option ShardId := a.shards.home ticket.session ticketId

/-- Decrypts a ticket from a connection request, encrypted by either the
backend or this server. -/
def decryptTicket (a : Acceptor) (packet : List UInt8) : Except HandshakeError Ticket :=
  if packet.length < handshakeLen then .error .undersized
  else
    match handshakeBlob packet with
    | none => .error .malformed
    | some blob =>
      match (decryptBlob (suite a.backendKey) blob ticketAad maxTicket).or
          (decryptBlob (suite a.serverKey) blob ticketAad maxTicket) with
      | none => .error .badAuth
      | some plain => Ticket.decode plain

/-- Seals a cookie binding a ticket to the address that presented it, behind
the byte naming the shard that must open it. -/
def encryptCookie (a : Acceptor) (now : Timestamp) (addr : SocketAddr) (nonce : ClientNonce) (serverNonce : ServerNonce)
    (ticketId : TicketId) (ticket : Ticket) (draw : Option BlobNonce) : Except HandshakeError (List UInt8) :=
  match a.home ticket ticketId with
  | none => .error .noSession
  | some home =>
    match Cookie.encode now addr nonce serverNonce ticketId ticket with
    | none => .error .malformed
    | some plain =>
      match encryptBlob (suite a.serverKey) draw plain (cookieAad home) (maxBlob - 1) with
      | none => .error .malformed
      | some sealed => .ok (home :: sealed)

def decryptCookie (a : Acceptor) (packet : List UInt8) : Except HandshakeError Cookie :=
  if packet.length < handshakeLen then .error .undersized
  else
    match handshakeBlob packet with
    | none | some [] => .error .malformed
    | some (home :: sealed) =>
      match decryptBlob (suite a.serverKey) sealed (cookieAad home) maxCookie with
      | none => .error .badAuth
      | some plain => Cookie.decode home plain

def encryptResumeTicket (a : Acceptor) (now : Timestamp) (ticket : Ticket) (draw : Option BlobNonce) :
    Option (List UInt8) :=
  encryptTicket (suite a.serverKey) draw { ticket with expiresAt := now.saturatingAdd resumeTicketLifetime } maxBlob

end Acceptor
end HexNet
