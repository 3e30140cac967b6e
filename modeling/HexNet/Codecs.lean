/-
What is written is read back: tickets, payload headers and handshake packets.

The ticket decoder runs on hostile bytes. Only `read_bits` indexes its buffer,
and whether it may is a matter of the state it is called in, so the decoder is
written out a second time with an index out of range as an outcome of its own.
That outcome is never met: a reader that is `Ready` has loaded no further than
its buffer, and every read leaves it so.
-/
import HexNet.HandshakeFacts

namespace HexNet

open LeBytes

/-! ## Reads that index -/

/-- How a read ends when it does not answer. -/
inductive Fault
  | failed (e : ReadError)
  /-- An index past the buffer's end. -/
  | panicked

abbrev Indexed := EStateM Fault BitReader

namespace Indexed

/-- A read that indexes nothing. -/
def plain {α : Type} (m : Read α) : Indexed α := fun r =>
  match m r with
  | .ok a r => .ok a r
  | .error e r => .error (.failed e) r

/-- A turn of the loop filling scratch. A word is taken only where there is
one, so what can be out of range is the single byte. -/
def load : Indexed Unit := fun r => if r.byteIndex < r.buffer.length then .ok () r.load else .error .panicked r

def refill (bits : Nat) : Nat → Indexed Unit
  | 0 => pure ()
  | fuel + 1 => fun r => if r.scratchBits < bits then (do load; refill bits fuel) r else .ok () r

def readBits (bits : Nat) : Indexed Nat := fun r =>
  if r.bitsRemaining < bits then .error (.failed .eof) r
  else
    match refill bits 4 r with
    | .ok _ r => .ok (r.scratch &&& (2 ^ bits - 1)) (r.consume bits)
    | .error e r => .error e r

def readBool : Indexed Bool := do return (← readBits 1) != 0

def readU64 : Indexed Nat := do
  let lo ← readBits 32
  let hi ← readBits 32
  return lo ||| hi <<< 32

def readRange (min max : Nat) : Indexed Nat := do
  let range := max - min
  let offset ← readBits (bitsRequired range)
  if range < offset then throw (.failed .outOfRange)
  return min + offset

def readRangeI32 (min max : Int32) : Indexed Int32 := do
  let range := (max.toUInt32 - min.toUInt32).toNat
  let offset ← readBits (bitsRequired range)
  if range < offset then throw (.failed .outOfRange)
  return (min.toUInt32 + UInt32.ofNat offset).toInt32

def align : Indexed Unit := fun r => (do let _ ← readBits ((8 - r.bitsRead % 8) % 8)) r

end Indexed

namespace Ticket

def readKeyBytesIndexed : (n : Nat) → Indexed { bytes : List UInt8 // bytes.length = n }
  | 0 => pure ⟨[], rfl⟩
  | n + 1 => do
    let byte ← Indexed.readBits 8
    let rest ← readKeyBytesIndexed n
    return ⟨UInt8.ofNat byte :: rest.1, by rw [List.length_cons, rest.2]⟩

theorem length_keyBytes (bytes : { bytes : List UInt8 // bytes.length = 32 }) : bytes.1.length = 32 := bytes.2

def readKeyIndexed : Indexed Key := do
  let bytes ← readKeyBytesIndexed 32
  return ⟨bytes.1, length_keyBytes bytes⟩

def readUserDataIndexed : Indexed UserData := do
  let n ← Indexed.readRange 0 maxUserData
  Indexed.align
  let payload ← Indexed.plain (BitReader.peek n)
  Indexed.plain (BitReader.skipBytes n)
  match FixedVec.fromSlice payload with
  | some userData => return userData
  | none => throw (.failed .outOfRange)

theorem expiresAt_lt (nanos : Nat) : nanos % 2 ^ 64 < 2 ^ 64 := Nat.mod_lt _ (by decide)

def readIndexed : Indexed Ticket := do
  let expiresAt ← Indexed.readU64
  let clientId ← Indexed.readU64
  let hasSession ← Indexed.readBool
  let session ← Indexed.readU64
  let clientToServer ← readKeyIndexed
  let serverToClient ← readKeyIndexed
  let userData ← readUserDataIndexed
  return {
    expiresAt := ⟨expiresAt % 2 ^ 64, expiresAt_lt expiresAt⟩
    clientId := BitVec.ofNat 64 clientId
    session := if hasSession then some (BitVec.ofNat 64 session) else none
    keys := ⟨clientToServer, serverToClient⟩
    userData }

/-- `decode_ticket`; `none` where it would index past the bytes. -/
def decodeIndexed (bytes : List UInt8) : Option (Except HandshakeError Ticket) :=
  match readIndexed (.new bytes) with
  | .ok ticket _ => some (.ok ticket)
  | .error (.failed _) _ => some (.error .malformed)
  | .error .panicked _ => none

end Ticket

/-! ## No index is out of range -/

theorem Indexed.run_plain {α : Type} (m : Read α) (r : BitReader) :
    (plain m).run r = match m.run r with
      | .ok a r => .ok a r
      | .error e r => .error (.failed e) r := rfl

theorem Indexed.run_refill (bits fuel : Nat) (r : BitReader) :
    (refill bits (fuel + 1)).run r =
      if r.scratchBits < bits then (do load; refill bits fuel : Indexed Unit).run r else .ok () r := rfl

/-- From a ready reader the two do the same, and leave it ready. -/
def Agree {α : Type} (m : Read α) (i : Indexed α) : Prop :=
  ∀ r : BitReader, r.Ready → i.run r = (Indexed.plain m).run r ∧ ∀ a r', m.run r = .ok a r' → r'.Ready

namespace Agree

variable {α β : Type}

theorem pure (a : α) : Agree (pure a) (pure a) := fun r h => ⟨rfl, by rintro _ _ ⟨⟩; exact h⟩

theorem throw (e : ReadError) : Agree (throw e : Read α) (throw (.failed e)) := fun r _ => ⟨rfl, by rintro _ _ ⟨⟩⟩

theorem bind {m : Read α} {i : Indexed α} {k : α → Read β} {j : α → Indexed β} (h : Agree m i)
    (hk : ∀ a, Agree (k a) (j a)) : Agree (m >>= k) (i >>= j) := by
  intro r hr
  obtain ⟨hsame, hready⟩ := h r hr
  rw [Indexed.run_plain, EStateM.run_bind, EStateM.run_bind, hsame, Indexed.run_plain]
  cases hrun : m.run r with
  | ok a r' => exact hk a r' (hready a r' hrun)
  | error e r' => exact ⟨rfl, fun _ _ h => nomatch h⟩

/-- A turn of the loop is taken only while there are bytes to load. -/
theorem refill {bits : Nat} (fuel : Nat) {r : BitReader} (h : r.Ready) (hleft : r.bitsRead + bits ≤ 8 * r.buffer.length) :
    (Indexed.refill bits fuel).run r = .ok () (BitReader.refill bits fuel r) := by
  induction fuel generalizing r with
  | zero => rfl
  | succ fuel ih =>
    rw [Indexed.run_refill, BitReader.refill]
    split
    next hlt =>
      have hindex := h.index
      have hin : r.byteIndex < r.buffer.length := by omega
      obtain ⟨hready, -, hread, hbuf⟩ := BitReader.load_ready h hin
      have hload : Indexed.load.run r = .ok () r.load := if_pos hin
      rw [EStateM.run_bind, hload]
      exact ih hready (by rw [hread, hbuf]; exact hleft)
    · rfl

theorem readBits {bits : Nat} (hbits : bits ≤ 32) : Agree (BitReader.readBits bits) (Indexed.readBits bits) := by
  intro r h
  rw [Indexed.run_plain]
  by_cases hleft : r.bitsRemaining < bits
  · rw [BitReader.run_readBits, if_pos hleft]
    exact ⟨if_pos hleft, fun _ _ h => nomatch h⟩
  · have hroom : r.bitsRead + bits ≤ 8 * r.buffer.length := by
      have hindex := h.index
      have hin := h.room
      rw [BitReader.bitsRemaining] at hleft
      omega
    obtain ⟨r', hrun, hready, -⟩ := BitReader.readBits_ready h hbits hroom
    refine ⟨?_, fun a r'' h => ?_⟩
    · have hindexed : (Indexed.readBits bits).run r = match (Indexed.refill bits 4).run r with
          | .ok _ r => .ok (r.scratch &&& (2 ^ bits - 1)) (r.consume bits)
          | .error e r => .error e r := if_neg hleft
      rw [hindexed, Agree.refill 4 h hroom, BitReader.run_readBits, if_neg hleft]
    · rw [hrun] at h
      cases h
      exact hready

theorem readBool : Agree BitReader.readBool Indexed.readBool := (readBits (by decide)).bind fun _ => .pure _

theorem readU64 : Agree BitReader.readU64 Indexed.readU64 :=
  (readBits (by decide)).bind fun _ => (readBits (by decide)).bind fun _ => .pure _

theorem readRange {min max : Nat} (h : max < 2 ^ 32) : Agree (BitReader.readRange min max) (Indexed.readRange min max) := by
  refine (readBits (BitWriter.bitsRequired_le (by omega))).bind fun offset => ?_
  split
  · exact (Agree.throw _).bind fun _ => .pure _
  · exact .pure _

theorem align : Agree BitReader.align Indexed.align := fun r h =>
  ((readBits (show (8 - r.bitsRead % 8) % 8 ≤ 32 by omega)).bind fun _ => .pure ()) r h

/-- Bytes are peeked at on a byte boundary, where skipping leaves nothing
loaded. -/
theorem peek_skip {n : Nat} {k : List UInt8 → Read α} {j : List UInt8 → Indexed α}
    (hk : ∀ bytes, Agree (k bytes) (j bytes)) :
    Agree (do let bytes ← BitReader.peek n; BitReader.skipBytes n; k bytes)
      (do let bytes ← Indexed.plain (BitReader.peek n); Indexed.plain (BitReader.skipBytes n); j bytes) := by
  intro r h
  rw [Indexed.run_plain, EStateM.run_bind, EStateM.run_bind, Indexed.run_plain]
  rw [BitReader.run_peek]
  unfold BitReader.peekBytes
  by_cases hunaligned : r.bitsRead % 8 ≠ 0
  · rw [if_pos hunaligned]
    exact ⟨rfl, fun _ _ h => by cases h⟩
  · rw [if_neg hunaligned]
    dsimp only
    by_cases hin : r.bitsRead / 8 + n ≤ r.buffer.length
    · rw [if_pos hin]
      have hskip : (BitReader.skipBytes n).run r = .ok () { r with
          bitsRead := r.bitsRead + n * 8
          byteIndex := (r.bitsRead + n * 8) / 8
          scratch := 0
          scratchBits := 0 } := by
        refine if_neg ?_
        rw [BitReader.bitsRemaining]
        omega
      dsimp only
      rw [EStateM.run_bind, EStateM.run_bind, Indexed.run_plain, hskip]
      refine hk _ _ ⟨?_, ?_, ?_⟩
      · simp [Nat.mod_one]
      · dsimp only
        omega
      · dsimp only
        omega
    · rw [if_neg hin]
      exact ⟨rfl, fun _ _ h => by cases h⟩

end Agree

namespace Ticket

theorem readKeyBytes_agree (n : Nat) : Agree (readKeyBytes n) (readKeyBytesIndexed n) := by
  induction n with
  | zero => exact .pure _
  | succ n ih => exact (Agree.readBits (by decide)).bind fun _ => ih.bind fun _ => .pure _

theorem readKey_agree : Agree readKey readKeyIndexed := (readKeyBytes_agree 32).bind fun _ => .pure _

theorem readUserData_agree : Agree readUserData readUserDataIndexed := by
  refine (Agree.readRange (by decide)).bind fun n => Agree.align.bind fun _ => Agree.peek_skip fun payload => ?_
  cases FixedVec.fromSlice payload with
  | some userData => exact .pure _
  | none => exact .throw _

theorem read_agree : Agree read readIndexed :=
  Agree.readU64.bind fun _ => Agree.readU64.bind fun _ => Agree.readBool.bind fun _ => Agree.readU64.bind fun _ =>
    readKey_agree.bind fun _ => readKey_agree.bind fun _ => readUserData_agree.bind fun _ => .pure _

theorem decodeIndexed_eq (bytes : List UInt8) : decodeIndexed bytes = some (decode bytes) := by
  obtain ⟨hsame, -⟩ := read_agree (.new bytes) (BitReader.new_ready bytes)
  have hrun : decodeIndexed bytes = match readIndexed.run (.new bytes) with
    | .ok ticket _ => some (.ok ticket)
    | .error (.failed _) _ => some (.error .malformed)
    | .error .panicked _ => none := rfl
  rw [hrun, hsame, Indexed.run_plain, decode]
  cases read.run (.new bytes) with
  | ok t r => rfl
  | error e r => rfl

/-- **Tickets round trip**, and whatever is decoded at all is a ticket that does. -/
theorem ticket_round_trip :
    (∀ (t : Ticket) (out : List UInt8), out.length = maxTicket →
      ∃ written len, t.encodeInto out = some (written, len) ∧ len ≤ maxTicket ∧ decode (written.take len) = .ok t) ∧
    ∀ bytes : List UInt8, decodeIndexed bytes = some (decode bytes) ∧
      (decode bytes = .error .malformed ∨ ∃ t, decode bytes = .ok t ∧ ∀ out : List UInt8, out.length = maxTicket →
        ∃ written len, t.encodeInto out = some (written, len) ∧ decode (written.take len) = .ok t) := by
  refine ⟨fun t out hlen => ?_, fun bytes => ⟨decodeIndexed_eq bytes, ?_⟩⟩
  · obtain ⟨written, hencode, -, hdecode⟩ := t.decode_encodeInto hlen
    have hle : t.userData.items.length ≤ 256 := t.userData.le
    exact ⟨written, _, hencode, show 90 + t.userData.items.length ≤ 384 by omega, hdecode⟩
  · cases hdecode : decode bytes with
    | ok t =>
      refine .inr ⟨t, rfl, fun out hlen => ?_⟩
      obtain ⟨written, hencode, -, hagain⟩ := t.decode_encodeInto hlen
      exact ⟨written, _, hencode, hagain⟩
    | error e =>
      left
      unfold decode at hdecode
      split at hdecode
      · cases hdecode
      · cases hdecode
        rfl

/-- A ticket with three bytes of user data, into a buffer of old bytes. -/
theorem ticket_round_trip_dirty :
    let t : Ticket := ⟨.zero, 7, some 9, ⟨⟨List.replicate 32 1, rfl⟩, ⟨List.replicate 32 2, rfl⟩⟩, ⟨[1, 2, 3], by decide⟩⟩
    ∃ written len, t.encodeInto (List.replicate maxTicket 255) = some (written, len) ∧ len ≤ maxTicket ∧
      decode (written.take len) = .ok t :=
  ticket_round_trip.1 _ _ List.length_replicate

end Ticket

/-! ## Headers -/

theorem except_bind_ok {ε α β : Type} {m : Except ε α} {k : α → Except ε β} {b : β} (h : (m >>= k) = .ok b) :
    ∃ a, m = .ok a ∧ k a = .ok b := by
  cases m with
  | error e => cases h
  | ok a => exact ⟨a, rfl, h⟩

namespace Header

theorem le_length_bytes (h : Header) : 7 ≤ h.bytes.length := by
  rw [bytes_eq, List.length_append, length_fixedBytes]
  exact Nat.le_add_right _ _

theorem take_encode (h : Header) (out : List UInt8) : (h.encode out).1.take (h.encode out).2 = h.bytes := by
  have htake : (overwrite out 0 h.bytes).take (0 + h.bytes.length) = out.take 0 ++ h.bytes :=
    take_overwrite (Nat.zero_le _)
  rwa [Nat.zero_add, List.take_zero, List.nil_append] at htake

theorem decodeAck_plain {first : UInt8} {input : List UInt8} {ack : Option WireSequence × UInt8 × BitVec 32 × Nat}
    (h : decodeAck first input = .ok ack) (hnone : ack.1 = none) : ack.2.1 = 0 ∧ ack.2.2.1 = 0 := by
  unfold decodeAck at h
  split at h
  · obtain ⟨_, -, h⟩ := except_bind_ok h
    obtain ⟨_, -, h⟩ := except_bind_ok h
    obtain ⟨_, -, h⟩ := except_bind_ok h
    cases h
    cases hnone
  · split at h
    · cases h
    · cases h
      exact ⟨rfl, rfl⟩

/-- An accepted header carries nothing it could not have been written with. -/
theorem decode_plain {input : List UInt8} {h : Header} {n : Nat} (hdecode : decode input = .ok (h, n)) : h.Plain := by
  unfold decode at hdecode
  split at hdecode
  · cases hdecode
  · split at hdecode
    · cases hdecode
    · split at hdecode
      · cases hdecode
      · obtain ⟨_, -, hdecode⟩ := except_bind_ok hdecode
        obtain ⟨_, -, hdecode⟩ := except_bind_ok hdecode
        obtain ⟨ack, hack, hdecode⟩ := except_bind_ok hdecode
        cases hdecode
        exact decodeAck_plain hack

end Header

/-! ## Handshake packets, as they are written out -/

/-- `encode_handshake`: the output after the call, and what it answers. -/
def encodeHandshakeInto (kind : PacketKind) (blob out : List UInt8) : List UInt8 × Except WriteError Nat :=
  let end_ := handshakeBodyOffset + blob.length
  if out.length < handshakeLen ∨ handshakeLen < end_ then (out, .error .overflow)
  else
    let out := overwrite out 0 [kind.bits]
    let out := overwrite out 1 (leBytes blob.length 2)
    let out := overwrite out handshakeBodyOffset blob
    let out := overwrite out end_ (List.replicate (handshakeLen - end_) 0)
    (out, .ok handshakeLen)

/-- `encode_with_trailer`. -/
def encodeWithTrailerInto (kind : PacketKind) (blob tail out : List UInt8) : List UInt8 × Except WriteError Nat :=
  let at_ := handshakeBodyOffset + blob.length
  if handshakeLen < at_ + trailerLen then (out, .error .overflow)
  else
    match encodeHandshakeInto kind blob out with
    | (out, .error e) => (out, .error e)
    | (out, .ok len) => (overwrite out at_ tail, .ok len)

/-- `encode_request`. -/
def encodeRequestInto (ticket : List UInt8) (nonce : ClientNonce) (out : List UInt8) : List UInt8 × Except WriteError Nat :=
  encodeWithTrailerInto .request ticket (leBytes nonce.toNat trailerLen) out

/-- `encode_challenge`. -/
def encodeChallengeInto (cookie : List UInt8) (nonce : ServerNonce) (out : List UInt8) :
    List UInt8 × Except WriteError Nat :=
  encodeWithTrailerInto .challenge cookie (leBytes nonce.toNat trailerLen) out

/-- What fits fills the packet's bytes of any output, and they carry what they
should; anything else is refused with the output as it was. -/
def Fills (encode : List UInt8 → List UInt8 × Except WriteError Nat) (fits : Prop) (carries : List UInt8 → Prop) : Prop :=
  ∀ out, (fits ∧ handshakeLen ≤ out.length → ∃ packet, encode out = (packet ++ out.drop handshakeLen, .ok handshakeLen) ∧
      packet.length = handshakeLen ∧ carries packet) ∧
    (¬ fits ∨ out.length < handshakeLen → encode out = (out, .error .overflow))

theorem encodeHandshakeInto_eq (kind : PacketKind) {blob out : List UInt8} (hout : handshakeLen ≤ out.length)
    (hfit : handshakeBodyOffset + blob.length ≤ handshakeLen) :
    ∃ packet, encodeHandshake kind blob = some packet ∧
      encodeHandshakeInto kind blob out = (packet ++ out.drop handshakeLen, .ok handshakeLen) := by
  refine ⟨_, if_neg (Nat.not_lt.2 hfit), ?_⟩
  unfold encodeHandshakeInto
  rw [if_neg (by omega)]
  refine Prod.ext ?_ rfl
  -- each write starts where the one before it ended
  have hkind : overwrite out 0 [kind.bits] = [kind.bits] ++ out.drop 1 := overwrite_append [] out _
  have hlen : overwrite ([kind.bits] ++ out.drop 1) 1 (leBytes blob.length 2) =
      [kind.bits] ++ (leBytes blob.length 2 ++ out.drop 3) := by
    rw [show 1 = [kind.bits].length from rfl, overwrite_append, length_leBytes, List.drop_drop]
    rfl
  have hbody : ([kind.bits] ++ leBytes blob.length 2).length = handshakeBodyOffset := by simp [handshakeBodyOffset]
  have hblob : overwrite ([kind.bits] ++ (leBytes blob.length 2 ++ out.drop 3)) handshakeBodyOffset blob =
      [kind.bits] ++ leBytes blob.length 2 ++ (blob ++ out.drop (handshakeBodyOffset + blob.length)) := by
    rw [← List.append_assoc, ← hbody, overwrite_append, List.drop_drop, hbody]
    rfl
  have hend : ([kind.bits] ++ leBytes blob.length 2 ++ blob).length = handshakeBodyOffset + blob.length := by
    rw [List.length_append, hbody]
  have hpad : handshakeBodyOffset + blob.length + (handshakeLen - (handshakeBodyOffset + blob.length)) = handshakeLen :=
    Nat.add_sub_cancel' hfit
  dsimp only
  rw [hkind, hlen, hblob, ← List.append_assoc, ← hend, overwrite_append, List.length_replicate, List.drop_drop, hend,
    hpad]
  simp only [List.append_assoc]

theorem encodeHandshakeInto_fills (kind : PacketKind) (blob : List UInt8) :
    Fills (encodeHandshakeInto kind blob) (handshakeBodyOffset + blob.length ≤ handshakeLen)
      fun packet => handshakeBlob packet = some blob := by
  intro out
  constructor
  · rintro ⟨hfit, hout⟩
    obtain ⟨packet, hpacket, hinto⟩ := encodeHandshakeInto_eq kind hout hfit
    obtain ⟨hlen, -, hblob⟩ := encodeHandshake_spec hpacket
    exact ⟨packet, hinto, hlen, hblob⟩
  · intro h
    exact if_pos (by omega)

theorem encodeWithTrailerInto_fills (kind : PacketKind) (blob : List UInt8) {tail : List UInt8}
    (htail : tail.length = trailerLen) :
    Fills (encodeWithTrailerInto kind blob tail) (handshakeBodyOffset + blob.length + trailerLen ≤ handshakeLen)
      fun packet => handshakeBlob packet = some blob ∧ trailer packet = some tail := by
  intro out
  constructor
  · rintro ⟨hfit, hout⟩
    obtain ⟨packet, hpacket, hinto⟩ := encodeHandshakeInto_eq kind hout (show handshakeBodyOffset + blob.length ≤ _ by omega)
    have hlen := (encodeHandshake_spec hpacket).1
    have hframed : encodeWithTrailer kind blob tail = some (overwrite packet (handshakeBodyOffset + blob.length) tail) := by
      unfold encodeWithTrailer
      rw [if_neg (by omega), hpacket]
      rfl
    obtain ⟨hlen', -, hblob, htrailer⟩ := encodeWithTrailer_spec htail hframed
    refine ⟨_, ?_, hlen', hblob, htrailer⟩
    unfold encodeWithTrailerInto
    rw [if_neg (by omega), hinto]
    exact Prod.ext (overwrite_append_left _ (by rw [htail, hlen]; exact hfit)) rfl
  · intro h
    by_cases hfit : handshakeLen < handshakeBodyOffset + blob.length + trailerLen
    · exact if_pos hfit
    · have hinto : encodeHandshakeInto kind blob out = (out, .error .overflow) := if_pos (by omega)
      unfold encodeWithTrailerInto
      rw [if_neg hfit, hinto]

theorem Fills.mono {encode : List UInt8 → List UInt8 × Except WriteError Nat} {fits : Prop}
    {carries carries' : List UInt8 → Prop}
    (h : Fills encode fits carries) (hc : ∀ packet, carries packet → carries' packet) : Fills encode fits carries' := by
  intro out
  refine ⟨fun hfit => ?_, (h out).2⟩
  obtain ⟨packet, hpacket, hlen, hcarries⟩ := (h out).1 hfit
  exact ⟨packet, hpacket, hlen, hc packet hcarries⟩

/-- **Headers and handshake packets round trip.** -/
theorem framing_round_trip :
    (∀ h : Header, h.Plain → ∀ out post : List UInt8, out.length = maxDatagram →
      Header.decode ((h.encode out).1.take (h.encode out).2 ++ post) = .ok (h, (h.encode out).2) ∧
      7 ≤ (h.encode out).2 ∧ (h.encode out).2 ≤ 14) ∧
    (∀ (input : List UInt8) (h : Header) (n : Nat), Header.decode input = .ok (h, n) →
      ∀ out post : List UInt8, out.length = maxDatagram →
        Header.decode ((h.encode out).1.take (h.encode out).2 ++ post) = .ok (h, (h.encode out).2)) ∧
    (∀ (kind : PacketKind) (blob : List UInt8), Fills (encodeHandshakeInto kind blob)
      (handshakeBodyOffset + blob.length ≤ handshakeLen) fun packet => handshakeBlob packet = some blob) ∧
    (∀ (ticket : List UInt8) (nonce : ClientNonce), Fills (encodeRequestInto ticket nonce)
      (handshakeBodyOffset + ticket.length + trailerLen ≤ handshakeLen)
      fun packet => handshakeBlob packet = some ticket ∧ requestNonce packet = some nonce) ∧
    ∀ (cookie : List UInt8) (nonce : ServerNonce), Fills (encodeChallengeInto cookie nonce)
      (handshakeBodyOffset + cookie.length + trailerLen ≤ handshakeLen)
      fun packet => handshakeBlob packet = some cookie ∧ challengeNonce packet = some nonce := by
  refine ⟨fun h hplain out post _ => ?_, fun input h n hdecode out post _ => ?_, encodeHandshakeInto_fills,
    fun ticket nonce => ?_, fun cookie nonce => ?_⟩
  · rw [Header.take_encode]
    exact ⟨Header.decode_bytes hplain post, h.le_length_bytes, h.length_bytes_le⟩
  · rw [Header.take_encode]
    exact Header.decode_bytes (Header.decode_plain hdecode) post
  · refine (encodeWithTrailerInto_fills .request ticket (length_leBytes ..)).mono ?_
    rintro packet ⟨hblob, htrailer⟩
    refine ⟨hblob, ?_⟩
    rw [requestNonce, htrailer, Option.map_some, ofNat_leBytes]
  · refine (encodeWithTrailerInto_fills .challenge cookie (length_leBytes ..)).mono ?_
    rintro packet ⟨hblob, htrailer⟩
    refine ⟨hblob, ?_⟩
    rw [challengeNonce, htrailer, Option.map_some, ofNat_leBytes]

/-- A header without an acknowledgement, its buffer full of old bytes, and a
request of two bytes. -/
theorem framing_round_trip_small :
    let h : Header := ⟨.payload, 1, 2, none, 0, 0⟩
    let out : List UInt8 := List.replicate maxDatagram 255
    Header.decode ((h.encode out).1.take (h.encode out).2 ++ [3]) = .ok (h, (h.encode out).2) ∧
      ∃ packet, encodeRequestInto [1, 2] 5 out = (packet ++ out.drop handshakeLen, .ok handshakeLen) ∧
        packet.length = handshakeLen ∧ handshakeBlob packet = some [1, 2] ∧ requestNonce packet = some 5 :=
  ⟨(framing_round_trip.1 _ (fun _ => ⟨rfl, rfl⟩) _ _ List.length_replicate).1,
    (framing_round_trip.2.2.2.1 [1, 2] 5 _).1 ⟨by decide, Nat.le_of_eq List.length_replicate.symm⟩⟩

end HexNet
