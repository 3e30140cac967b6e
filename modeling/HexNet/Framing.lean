/-
Shards, connection ids and the framing of handshake packets (`shard.rs`,
`wire.rs`): what can be read off a datagram before anything is decrypted.
-/
import HexNet.Packet

namespace HexNet

open LeBytes

/-! ## Shards -/

/-- Bits of a connection or session id that name the shard owning it. -/
def shardBits : Nat := 8

abbrev ShardId := UInt8

/-- How many endpoints share an address. -/
structure ShardCount where
  get : Nat
  pos : 0 < get
  le : get ≤ 2 ^ shardBits

def ShardCount.contains (count : ShardCount) (shard : ShardId) : Bool := shard.toNat < count.get

/-! ## Connection ids -/

/-- Bits of a connection id naming its slot on the issuing shard. -/
def slotBits : Nat := 14

/-- Bits of a connection id counting its slot's occupancies. -/
def generationBits : Nat := 32 - shardBits - slotBits

namespace ConnectionId

def slots : Nat := 2 ^ slotBits

/-- The id of the connection in `slot` on `shard`, in the slot's
`generation`-th occupancy. Only the low bits of each that fit are used. -/
def new (slot generation : Nat) (shard : ShardId) : ConnectionId :=
  UInt32.ofNat ((generation % 2 ^ generationBits) <<< (shardBits + slotBits) |||
    (slot % 2 ^ slotBits) <<< shardBits ||| shard.toNat)

def shard (id : ConnectionId) : ShardId := UInt8.ofNat (id.toNat % 2 ^ shardBits)

def slot (id : ConnectionId) : Nat := id.toNat >>> shardBits % 2 ^ slotBits

end ConnectionId

/-! ## Handshake packets -/

/-- Chosen at random by the server for each challenge. -/
abbrev ServerNonce := BitVec 64

/-- Chosen at random by a client for each connection attempt. -/
abbrev ClientNonce := BitVec 64

/-- Offset of the blob inside a handshake packet: kind and length. -/
def handshakeBodyOffset : Nat := 3

/-- What a request or challenge carries after its blob: one side's nonce. -/
def trailerLen : Nat := 8

def PacketKind.fromByte (byte : UInt8) : Option PacketKind := PacketKind.fromBits (byte &&& Flags.kindMask)

/-- Builds a handshake packet: kind, length, blob, zero padding. -/
def encodeHandshake (kind : PacketKind) (blob : List UInt8) : Option (List UInt8) :=
  if handshakeLen < handshakeBodyOffset + blob.length then none
  else
    some ([kind.bits] ++ (leBytes blob.length 2 ++ (blob ++
      List.replicate (handshakeLen - (handshakeBodyOffset + blob.length)) 0)))

def handshakeBlob (packet : List UInt8) : Option (List UInt8) :=
  (slice packet 1 2).bind fun len => slice packet handshakeBodyOffset (leNat len)

/-- A handshake packet whose blob is followed by a nonce. -/
def encodeWithTrailer (kind : PacketKind) (blob tail : List UInt8) : Option (List UInt8) :=
  let at_ := handshakeBodyOffset + blob.length
  if handshakeLen < at_ + trailerLen then none else (encodeHandshake kind blob).map fun out => overwrite out at_ tail

/-- The nonce after a handshake packet's blob. -/
def trailer (packet : List UInt8) : Option (List UInt8) :=
  (handshakeBlob packet).bind fun blob => slice packet (handshakeBodyOffset + blob.length) trailerLen

/-- Frames a request (ticket, the attempt's nonce, padding). -/
def encodeRequest (ticket : List UInt8) (nonce : ClientNonce) : Option (List UInt8) :=
  encodeWithTrailer .request ticket (leBytes nonce.toNat trailerLen)

def requestNonce (packet : List UInt8) : Option ClientNonce :=
  (trailer packet).map fun bytes => BitVec.ofNat 64 (leNat bytes)

/-- Frames a challenge (cookie, the server's nonce, padding). -/
def encodeChallenge (cookie : List UInt8) (nonce : ServerNonce) : Option (List UInt8) :=
  encodeWithTrailer .challenge cookie (leBytes nonce.toNat trailerLen)

def challengeNonce (packet : List UInt8) : Option ServerNonce :=
  (trailer packet).map fun bytes => BitVec.ofNat 64 (leNat bytes)

/-! ## Routing -/

/-- The shortest payload packet: flags, connection id, and sequence. -/
def minPayloadHeader : Nat := 7

/-- The shard a datagram must be handled by, read from cleartext alone, or
`none` when any shard may handle it. -/
def ownerShard (packet : List UInt8) : Option ShardId :=
  match packet.head?.bind PacketKind.fromByte with
  | some .payload => if minPayloadHeader ≤ packet.length then packet[1]? else none
  | some .response => if handshakeLen ≤ packet.length then (handshakeBlob packet).bind (·.head?) else none
  | some .request | some .challenge | none => none

/-- The kind of a datagram. Handshake packets shorter than their padding are
rejected, since a reply to one would amplify. -/
def peekKind (packet : List UInt8) : Option PacketKind :=
  match packet.head?.bind PacketKind.fromByte with
  | none => none
  | some .payload => some .payload
  | some kind => if handshakeLen ≤ packet.length then some kind else none

/-! ## What framing gives -/

section

variable {kind : PacketKind} {blob tail packet : List UInt8}

theorem PacketKind.fromByte_bits (kind : PacketKind) : fromByte kind.bits = some kind := by cases kind <;> rfl

theorem handshakeBlob_append (kind : PacketKind) (hblob : blob.length < 2 ^ 16) (post : List UInt8) :
    handshakeBlob ([kind.bits] ++ (leBytes blob.length 2 ++ (blob ++ post))) = some blob := by
  have hlen : slice ([kind.bits] ++ (leBytes blob.length 2 ++ (blob ++ post))) 1 2 = some (leBytes blob.length 2) :=
    slice_append rfl (length_leBytes ..)
  have hbody : slice ([kind.bits] ++ (leBytes blob.length 2 ++ (blob ++ post))) handshakeBodyOffset blob.length =
      some blob := by
    rw [← List.append_assoc]
    exact slice_append (by simp [handshakeBodyOffset]) rfl
  rw [handshakeBlob, hlen, Option.bind_some, leNat_leBytes, Nat.mod_eq_of_lt (show blob.length < 256 ^ 2 from hblob), hbody]

/-- **A handshake packet is its length, its kind and its blob.** -/
theorem encodeHandshake_spec (h : encodeHandshake kind blob = some packet) :
    packet.length = handshakeLen ∧ packet.head? = some kind.bits ∧ handshakeBlob packet = some blob := by
  unfold encodeHandshake at h
  split at h
  · cases h
  next hfit =>
    cases h
    have hfit : handshakeBodyOffset + blob.length ≤ 1200 := Nat.not_lt.1 hfit
    refine ⟨?_, rfl, handshakeBlob_append kind (by omega) _⟩
    simp only [List.length_append, List.length_cons, List.length_nil, length_leBytes, List.length_replicate,
      handshakeBodyOffset, handshakeLen] at hfit ⊢
    omega

theorem encodeWithTrailer_spec (htail : tail.length = trailerLen) (h : encodeWithTrailer kind blob tail = some packet) :
    packet.length = handshakeLen ∧ packet.head? = some kind.bits ∧ handshakeBlob packet = some blob ∧
      trailer packet = some tail := by
  unfold encodeWithTrailer at h
  dsimp only at h
  split at h
  · cases h
  next hfit =>
    have hfit : handshakeBodyOffset + blob.length + trailerLen ≤ 1200 := Nat.not_lt.1 hfit
    unfold encodeHandshake at h
    split at h
    · cases h
    · cases h
      have hpre : ([kind.bits] ++ (leBytes blob.length 2 ++ blob)).length = handshakeBodyOffset + blob.length := by
        simp only [List.length_append, List.length_cons, List.length_nil, length_leBytes, handshakeBodyOffset]
        omega
      obtain ⟨pad, hpad⟩ : ∃ pad, List.replicate (handshakeLen - (handshakeBodyOffset + blob.length)) (0 : UInt8) =
          List.replicate trailerLen 0 ++ pad ∧ handshakeBodyOffset + blob.length + trailerLen + pad.length =
            handshakeLen := by
        refine ⟨List.replicate (handshakeLen - (handshakeBodyOffset + blob.length) - trailerLen) 0, ?_, ?_⟩
        · rw [List.replicate_append_replicate]
          congr 1
          simp only [handshakeLen]
          omega
        · simp only [List.length_replicate, handshakeLen]
          omega
      -- the nonce replaces the first of the padding
      have hout : overwrite ([kind.bits] ++ (leBytes blob.length 2 ++ (blob ++
          List.replicate (handshakeLen - (handshakeBodyOffset + blob.length)) 0))) (handshakeBodyOffset + blob.length)
          tail = [kind.bits] ++ (leBytes blob.length 2 ++ (blob ++ (tail ++ pad))) := by
        have hsplit : [kind.bits] ++ (leBytes blob.length 2 ++ (blob ++ (List.replicate trailerLen 0 ++ pad))) =
            ([kind.bits] ++ (leBytes blob.length 2 ++ blob)) ++ (List.replicate trailerLen 0 ++ pad) := by
          simp only [List.append_assoc]
        rw [hpad.1, hsplit, ← hpre, overwrite_part (by simp [htail])]
        simp only [List.append_assoc]
      dsimp only
      rw [hout]
      have hblob := handshakeBlob_append kind (show blob.length < 2 ^ 16 by omega) (tail ++ pad)
      refine ⟨?_, rfl, hblob, ?_⟩
      · have := hpad.2
        simp only [List.length_append, List.length_cons, List.length_nil, length_leBytes, htail,
          handshakeBodyOffset] at this ⊢
        omega
      · rw [trailer, hblob, Option.bind_some]
        have hsplit : [kind.bits] ++ (leBytes blob.length 2 ++ (blob ++ (tail ++ pad))) =
            ([kind.bits] ++ (leBytes blob.length 2 ++ blob)) ++ (tail ++ pad) := by
          simp only [List.append_assoc]
        rw [hsplit]
        exact slice_append hpre htail

theorem ofNat_leBytes (nonce : BitVec 64) : BitVec.ofNat 64 (leNat (leBytes nonce.toNat trailerLen)) = nonce := by
  have hlt : nonce.toNat < 256 ^ trailerLen := nonce.isLt
  rw [leNat_leBytes, Nat.mod_eq_of_lt hlt, BitVec.ofNat_toNat, BitVec.setWidth_eq]

theorem encodeRequest_spec {ticket : List UInt8} {nonce : ClientNonce} (h : encodeRequest ticket nonce = some packet) :
    packet.length = handshakeLen ∧ packet.head? = some PacketKind.request.bits ∧ handshakeBlob packet = some ticket ∧
      requestNonce packet = some nonce := by
  obtain ⟨hlen, hkind, hblob, htrailer⟩ := encodeWithTrailer_spec (length_leBytes ..) h
  refine ⟨hlen, hkind, hblob, ?_⟩
  rw [requestNonce, htrailer, Option.map_some, ofNat_leBytes]

theorem encodeChallenge_spec {cookie : List UInt8} {nonce : ServerNonce}
    (h : encodeChallenge cookie nonce = some packet) :
    packet.length = handshakeLen ∧ packet.head? = some PacketKind.challenge.bits ∧
      handshakeBlob packet = some cookie ∧ challengeNonce packet = some nonce := by
  obtain ⟨hlen, hkind, hblob, htrailer⟩ := encodeWithTrailer_spec (length_leBytes ..) h
  refine ⟨hlen, hkind, hblob, ?_⟩
  rw [challengeNonce, htrailer, Option.map_some, ofNat_leBytes]

theorem handshakeLen_le (h : peekKind packet = some kind) (hkind : kind ≠ .payload) : handshakeLen ≤ packet.length := by
  unfold peekKind at h
  split at h
  · cases h
  · cases h
    exact (hkind rfl).elim
  · split at h
    · assumption
    · cases h

theorem ownerShard_response (h : peekKind packet = some .response) :
    ownerShard packet = (handshakeBlob packet).bind (·.head?) := by
  unfold peekKind at h
  unfold ownerShard
  generalize packet.head?.bind PacketKind.fromByte = kind at h ⊢
  cases kind with
  | none => cases h
  | some kind =>
    cases kind with
    | response =>
      dsimp only at h ⊢
      split at h
      next hlen => exact if_pos hlen
      · cases h
    | payload => cases h
    | request | challenge =>
      dsimp only at h
      split at h <;> cases h

end

/-! ## What an id names -/

namespace ConnectionId

theorem toNat_new (slot generation : Nat) (shard : ShardId) :
    (new slot generation shard).toNat =
      generation % 2 ^ 10 * 2 ^ 22 + slot % 2 ^ 14 * 2 ^ 8 + shard.toNat := by
  have hshard := shard.toNat_lt
  have hlow_lt : slot % 2 ^ 14 * 2 ^ 8 + shard.toNat < 2 ^ 22 := by omega
  have hlt : generation % 2 ^ 10 * 2 ^ 22 + (slot % 2 ^ 14 * 2 ^ 8 + shard.toNat) < 2 ^ 32 := by
    have hhigh : generation % 2 ^ 10 * 2 ^ 22 ≤ (2 ^ 10 - 1) * 2 ^ 22 :=
      Nat.mul_le_mul_right _ (Nat.le_sub_one_of_lt (Nat.mod_lt _ (by decide)))
    exact Nat.lt_of_lt_of_le (Nat.add_lt_add_of_le_of_lt hhigh hlow_lt) (by decide)
  have hlow : (slot % 2 ^ 14) <<< 8 ||| shard.toNat = slot % 2 ^ 14 * 2 ^ 8 + shard.toNat := by
    rw [← Nat.shiftLeft_add_eq_or_of_lt hshard, Nat.shiftLeft_eq]
  have hall : (generation % 2 ^ 10) <<< 22 ||| (slot % 2 ^ 14) <<< 8 ||| shard.toNat =
      generation % 2 ^ 10 * 2 ^ 22 + (slot % 2 ^ 14 * 2 ^ 8 + shard.toNat) := by
    rw [Nat.or_assoc, hlow, ← Nat.shiftLeft_add_eq_or_of_lt hlow_lt, Nat.shiftLeft_eq]
  have hnew : new slot generation shard =
      UInt32.ofNat ((generation % 2 ^ 10) <<< 22 ||| (slot % 2 ^ 14) <<< 8 ||| shard.toNat) := by
    simp only [new, generationBits, slotBits, shardBits]
  rw [hnew, hall, UInt32.toNat_ofNat', Nat.mod_eq_of_lt hlt, Nat.add_assoc]

/-- An id names the slot and the shard it was made from. -/
theorem slot_new {s : Nat} (h : s < slots) (generation : Nat) (shard : ShardId) : (new s generation shard).slot = s := by
  have hs : s < 2 ^ 14 := h
  have hshard := shard.toNat_lt
  rw [ConnectionId.slot, show slotBits = 14 from rfl, show shardBits = 8 from rfl, toNat_new, Nat.shiftRight_eq_div_pow]
  omega

end ConnectionId
end HexNet
