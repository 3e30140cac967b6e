/-
What each operation of a connection can do, said once: it leaves the sending
side alone (`Passive`), queues a message, reports the ledger's notices, or
polls for a packet (`Does`); and what a polled packet is (`buildPacket_builds`).
Every invariant over runs is read off these.

The two sides of a connection differ in their role's code. `LawfulRole` is all
that is used of it, and both roles are lawful.
-/
import HexNet.Control
import HexNet.Packing
import HexNet.Lib.Lts

namespace HexNet

open Ack (Delivery Notice Outgoing Resolved)
open BitFields LeBytes

/-- What the ledger keeps of the packets it tracks, its estimates apart. -/
def Ack.Delivery.flight {P : Type} {N : Nat} [NeZero N] (d : Delivery P N) :
    SequenceBuffer (Ack.Sent P) N × Option Nat × Nat × Option Nat × Timestamp × Nat :=
  (d.sent, d.largestSent, d.oldestUnresolved, d.largestAcked, d.lastEliciting, d.inFlight)

/-- A lifecycle once a packet has gone out. -/
def Lifecycle.noticed : Lifecycle → Lifecycle
  | .closing reason remaining => if remaining ≤ 1 then .closed else .closing reason (remaining - 1)
  | .open => .open
  | .closed => .closed

namespace Connection

variable {R : Type}

/-! ## What a role may touch -/

/-- What a role's own code may do to a connection: its state, its control
frames, its address and what depends on the path. -/
structure Touched (c c' : Connection R) : Prop where
  lifecycle_eq : c'.lifecycle = c.lifecycle
  crypto_eq : c'.crypto = c.crypto
  channels_eq : c'.channels = c.channels
  acks_eq : c'.acks = c.acks
  liveness_eq : c'.liveness = c.liveness
  received_eq : c'.lastReceived = c.lastReceived
  probes_eq : c'.pendingProbes = c.pendingProbes
  flight_eq : c'.delivery.flight = c.delivery.flight
  refill_eq : c'.budget.lastRefill = c.budget.lastRefill

theorem Touched.refl (c : Connection R) : c.Touched c := ⟨rfl, rfl, rfl, rfl, rfl, rfl, rfl, rfl, rfl⟩

/-- What is used of a role. -/
class LawfulRole (R : Type) [Role R] : Prop where
  readControl : ∀ {c c' : Connection R} {now : Timestamp} {kind : ControlKind} {r r' : BitReader},
    (Role.readControl c now kind).run r = .ok c' r' → c.Touched c'
  onAddressChange : ∀ (c : Connection R) now sender sequence, c.Touched (Role.onAddressChange c now sender sequence)
  onTimeout : ∀ (c : Connection R) now, c.Touched (Role.onTimeout c now)
  /-- The role's deadline is its own. -/
  nextDeadline : ∀ {c c' : Connection R}, c'.role = c.role → Role.nextDeadline c' = Role.nextDeadline c
  /-- Once its timer work is done at `now`, its deadline is later. -/
  deadline_later : ∀ (c : Connection R) {now : Timestamp}, now.nanos < 2 ^ 64 - 1 →
    ∀ t, Role.nextDeadline (Role.onTimeout c now) = some t → now < t

/-- How this side of a connection starts, and the operations only it has. -/
class OwnOps (R : Type) where
  /-- What is owed and the role's state at the start. -/
  Fresh : Owed → R → Prop
  Op : Type
  apply : Op → Connection R → Connection R
  touched : ∀ (op : Op) (c : Connection R), c.Touched (apply op c)

end Connection

open Connection

/-! ### The client -/

theorem Client.readControl_touched {c c' : Connection Client} {now : Timestamp} {kind : ControlKind} {r r' : BitReader}
    (h : (Client.readControl c now kind).run r = .ok c' r') : c.Touched c' := by
  cases kind with
  | pathChallenge =>
    obtain ⟨token, r₁, -, h⟩ := run_bind_ok h
    cases h
    exact ⟨rfl, rfl, rfl, rfl, rfl, rfl, rfl, rfl, rfl⟩
  | resumeTicket =>
    obtain ⟨received, r₁, -, h⟩ := run_bind_ok h
    cases h
    exact ⟨rfl, rfl, rfl, rfl, rfl, rfl, rfl, rfl, rfl⟩
  | accepted =>
    cases h
    exact .refl c
  | _ => cases h

instance : LawfulRole Client where
  readControl := Client.readControl_touched
  onAddressChange c _ _ _ := .refl c
  onTimeout c _ := .refl c
  nextDeadline _ := rfl
  deadline_later _ _ _ _ h := by cases h

instance : OwnOps Client where
  Fresh owed role := owed = .none ∧ role.ticket = .none
  Op := Unit
  apply _ c := c.takeResumeTicket.1
  touched _ c := by
    unfold takeResumeTicket
    split
    · exact ⟨rfl, rfl, rfl, rfl, rfl, rfl, rfl, rfl, rfl⟩
    · exact .refl c
    · exact .refl c

/-! ### The server -/

theorem Server.migrate_touched (c : Connection Server) (now : Timestamp) (pending : Probe) :
    c.Touched (Server.migrate c now pending) := ⟨rfl, rfl, rfl, rfl, rfl, rfl, rfl, rfl, rfl⟩

theorem Server.readControl_touched {c c' : Connection Server} {now : Timestamp} {kind : ControlKind} {r r' : BitReader}
    (h : (Server.readControl c now kind).run r = .ok c' r') : c.Touched c' := by
  cases kind with
  | pathResponse =>
    obtain ⟨token, r₁, -, h⟩ := run_bind_ok h
    cases h
    unfold Server.pathResponse
    split
    · exact .refl c
    · split
      · exact Server.migrate_touched c now _
      · exact .refl c
  | _ => cases h

theorem Server.onAddressChange_touched (c : Connection Server) (now : Timestamp) (sender : SocketAddr)
    (sequence : Nat) : c.Touched (Server.onAddressChange c now sender sequence) := by
  unfold Server.onAddressChange
  split
  · exact .refl c
  · exact ⟨rfl, rfl, rfl, rfl, rfl, rfl, rfl, rfl, rfl⟩

theorem Server.onTimeout_touched (c : Connection Server) (now : Timestamp) : c.Touched (Server.onTimeout c now) := by
  unfold Server.onTimeout
  split
  · exact ⟨rfl, rfl, rfl, rfl, rfl, rfl, rfl, rfl, rfl⟩
  · exact .refl c

/-- A path probe left standing has not timed out. -/
theorem Server.deadline_later (c : Connection Server) {now : Timestamp} (hend : now.nanos < 2 ^ 64 - 1) (t : Timestamp)
    (h : Server.nextDeadline (Server.onTimeout c now) = some t) : now < t := by
  unfold Server.onTimeout at h
  split at h
  · cases h
  next hwait =>
    obtain ⟨pending, hprobe, rfl⟩ := Option.map_eq_some_iff.1 h
    rw [hprobe] at hwait
    simp only [Option.any_some, decide_eq_true_eq, Span.le_iff, Timestamp.since_nanos, not_le] at hwait
    rw [Timestamp.lt_iff, Timestamp.saturatingAdd_nanos]
    omega

instance : LawfulRole Server where
  readControl := Server.readControl_touched
  onAddressChange := Server.onAddressChange_touched
  onTimeout := Server.onTimeout_touched
  nextDeadline h := by
    show Server.nextDeadline _ = Server.nextDeadline _
    rw [Server.nextDeadline, Server.nextDeadline, h]
  deadline_later := Server.deadline_later

/-- What the endpoint asks of a server's connection. -/
inductive ServerOp
  | resendAcceptance
  | sendResumeTicket (ticket : EncryptedTicket)

instance : OwnOps Server where
  Fresh owed role := owed = { Owed.none with accepted := true } ∧ role.probe = none
  Op := ServerOp
  apply
    | .resendAcceptance, c => c.resendAcceptance
    | .sendResumeTicket ticket, c => c.sendResumeTicket ticket
  touched op c := by cases op <;> exact ⟨rfl, rfl, rfl, rfl, rfl, rfl, rfl, rfl, rfl⟩

namespace Connection

variable {R : Type}

/-! ## Operations -/

/-- A call to a connection. -/
inductive Call (R : Type) [OwnOps R]
  | send (channel : Nat) (payload : List UInt8)
  | pollTransmit (now : Timestamp) (out : Packet)
  | handleDatagram (now : Timestamp) (sender : SocketAddr) (datagram : List UInt8)
  | handleTimeout (now : Timestamp)
  | close (reason : CloseReason)
  | pollEvent
  | own (op : OwnOps.Op R)

/-- The oldest event not yet polled. -/
def pollEvent (c : Connection R) : Connection R × Option Event :=
  let r := c.events.pop
  ({ c with events := r.2 }, r.1)

/-- What a call leaves. -/
def after [Role R] [OwnOps R] (c : Connection R) : Call R → Connection R
  | .send channel payload => (c.send channel payload).1
  | .pollTransmit now out => (c.pollTransmit now out).1
  | .handleDatagram now sender datagram => (c.handleDatagram now sender datagram).1
  | .handleTimeout now => c.handleTimeout now
  | .close reason => c.close reason
  | .pollEvent => c.pollEvent.1
  | .own op => OwnOps.apply op c

/-- The time a call is made at, where it is given one. -/
def Call.time [OwnOps R] : Call R → Option Timestamp
  | .pollTransmit now _ | .handleDatagram now _ _ | .handleTimeout now => some now
  | .send _ _ | .close _ | .pollEvent | .own _ => none

/-- The sending side is as it was. -/
structure Passive (c c' : Connection R) : Prop where
  sendSide_eq : c'.channels.sendSide = c.channels.sendSide
  sequence_eq : c'.crypto.nextSequence = c.crypto.nextSequence
  tx_eq : c'.crypto.tx = c.crypto.tx
  liveness_eq : c'.liveness = c.liveness
  flight_eq : c'.delivery.flight = c.delivery.flight
  refill_eq : c'.budget.lastRefill = c.budget.lastRefill

theorem Passive.refl (c : Connection R) : c.Passive c := ⟨rfl, rfl, rfl, rfl, rfl, rfl⟩

theorem Passive.trans {c₁ c₂ c₃ : Connection R} (h₁ : c₁.Passive c₂) (h₂ : c₂.Passive c₃) : c₁.Passive c₃ where
  sendSide_eq := h₂.sendSide_eq.trans h₁.sendSide_eq
  sequence_eq := h₂.sequence_eq.trans h₁.sequence_eq
  tx_eq := h₂.tx_eq.trans h₁.tx_eq
  liveness_eq := h₂.liveness_eq.trans h₁.liveness_eq
  flight_eq := h₂.flight_eq.trans h₁.flight_eq
  refill_eq := h₂.refill_eq.trans h₁.refill_eq

theorem Touched.passive {c c' : Connection R} (h : c.Touched c') : c.Passive c' where
  sendSide_eq := by rw [h.channels_eq]
  sequence_eq := by rw [h.crypto_eq]
  tx_eq := by rw [h.crypto_eq]
  liveness_eq := h.liveness_eq
  flight_eq := h.flight_eq
  refill_eq := h.refill_eq

theorem close_passive (c : Connection R) (reason : CloseReason) : c.Passive (c.close reason) := by
  unfold close
  split <;> exact ⟨rfl, rfl, rfl, rfl, rfl, rfl⟩

section

variable [Role R] [LawfulRole R]

/-! ### Reading -/

omit [LawfulRole R] in
/-- What a control frame can do: nothing, the peer's close, or its role's own. -/
theorem readControl_cases {c c' : Connection R} {now : Timestamp} {r r' : BitReader}
    (h : (c.readControl now).run r = .ok c' r') :
    c' = c ∨ (∃ reason, c' = c.peerClosed reason) ∨ ∃ kind r₁, (Role.readControl c now kind).run r₁ = .ok c' r' := by
  obtain ⟨kind, r₁, -, h⟩ := run_bind_ok h
  cases kind with
  | ping =>
    cases h
    exact .inl rfl
  | close =>
    obtain ⟨reason, r₂, -, h⟩ := run_bind_ok h
    cases h
    exact .inr (.inl ⟨reason, rfl⟩)
  | _ => exact .inr (.inr ⟨_, r₁, h⟩)

omit [LawfulRole R] in
/-- What holds from each frame to the next holds over all of them. -/
theorem readFrames_rel {P : Connection R → Connection R → Prop} {now : Timestamp} (hrefl : ∀ c, P c c)
    (htrans : ∀ {c₁ c₂ c₃}, P c₁ c₂ → P c₂ c₃ → P c₁ c₃)
    (hcontrol : ∀ {c c' : Connection R} {r r'}, (c.readControl now).run r = .ok c' r' → P c c')
    (hmessage : ∀ {c : Connection R} {r v r'}, c.channels.readMessage.run r = .ok v r' → P c { c with channels := v.1 })
    (fuel : Nat) (c : Connection R) (r : BitReader) (eliciting : Bool) : P c (readFrames now fuel c r eliciting).1 := by
  induction fuel generalizing c r eliciting with
  | zero => exact hrefl c
  | succ fuel ih =>
    rw [readFrames]
    split
    · exact hrefl c
    · split
      · exact hrefl c
      · exact hrefl c
      · split
        · exact hrefl c
        next c' _ hread => exact htrans (hcontrol hread) (ih _ _ _)
      · split
        · exact hrefl c
        next v _ hread => exact htrans (hmessage hread) (ih _ _ _)
      · exact hrefl c

theorem readControl_passive {c c' : Connection R} {now : Timestamp} {r r' : BitReader}
    (h : (c.readControl now).run r = .ok c' r') : c.Passive c' := by
  obtain rfl | ⟨reason, rfl⟩ | ⟨kind, r₁, hrole⟩ := readControl_cases h
  · exact .refl c'
  · exact ⟨rfl, rfl, rfl, rfl, rfl, rfl⟩
  · exact (LawfulRole.readControl hrole).passive

theorem readFrames_passive (now : Timestamp) (fuel : Nat) (c : Connection R) (r : BitReader) (eliciting : Bool) :
    c.Passive (readFrames now fuel c r eliciting).1 := by
  refine readFrames_rel Passive.refl Passive.trans readControl_passive ?_ fuel c r eliciting
  intro c r v r' hread
  obtain ⟨channel, kind, id, payload, rfl⟩ := Channels.readMessage_ok hread
  exact ⟨Channels.dispatch_sendSide .., rfl, rfl, rfl, rfl, rfl⟩

omit [LawfulRole R] in
/-- What holds of a connection that read a packet holds past the packet's
recording and the move it announces. -/
theorem received_rule {P : Connection R → Prop} {c : Connection R} {now : Timestamp} {sender : SocketAddr}
    {opened : Decrypted} (h : P c)
    (hmark : P { c with
      crypto := c.crypto.recordEliciting opened.sequence now, acks := c.acks.record now opened.inOrder })
    (hmove : ∀ {c}, P c → P (Role.onAddressChange c now sender opened.sequence)) (eliciting : Bool) :
    P (c.received now sender opened eliciting) := by
  unfold received
  dsimp only
  split <;> split
  · exact hmove hmark
  · exact hmark
  · exact hmove h
  · exact h

theorem received_passive (c : Connection R) (now : Timestamp) (sender : SocketAddr) (opened : Decrypted)
    (eliciting : Bool) : c.Passive (c.received now sender opened eliciting) :=
  received_rule (.refl c) ⟨rfl, rfl, rfl, rfl, rfl, rfl⟩ (fun h => h.trans (LawfulRole.onAddressChange ..).passive) _

theorem received_lifecycle (c : Connection R) (now : Timestamp) (sender : SocketAddr) (opened : Decrypted)
    (eliciting : Bool) : (c.received now sender opened eliciting).lifecycle = c.lifecycle :=
  received_rule (P := (·.lifecycle = c.lifecycle)) rfl rfl
    (fun h => (LawfulRole.onAddressChange ..).lifecycle_eq.trans h) eliciting

/-! ### What a call does -/

/-- What a call can do. -/
inductive Does [OwnOps R] (c : Connection R) : Call R → Connection R → Prop
  | passive {call : Call R} {c' : Connection R} : c.Passive c' → Does c call c'
  | sent (channel : Nat) (payload : List UInt8) :
    Does c (.send channel payload) { c with channels := (c.channels.send channel payload).1 }
  | acked {now : Timestamp} {sender : SocketAddr} {datagram : List UInt8} {c' : Connection R} (ack : Nat)
      (ackDelay : Option Span) (bits : BitVec 32) : 0 < ack ∧ ack < c.crypto.nextSequence →
    (c.ledger (c.delivery.onAck now ack ackDelay bits)).Passive c' → Does c (.handleDatagram now sender datagram) c'
  | timedOut {now : Timestamp} {c' : Connection R} :
    (c.ledger ((c.delivery.onTimeout now).1, (c.delivery.onTimeout now).2.1)).Passive c' →
    Does c (.handleTimeout now) c'
  | polled (now : Timestamp) (out : Packet) : Does c (.pollTransmit now out) (c.pollTransmit now out).1

/-- What a peer can acknowledge: a number that was used. -/
theorem resolveAck_used {p : PacketCrypto} {wire : WireSequence} {ack : Nat} (h : p.resolveAck wire = some ack) :
    0 < ack ∧ ack < p.nextSequence := by
  obtain ⟨newest, hnewest, h⟩ := Option.bind_eq_some_iff.1 h
  obtain ⟨hresolve, hle⟩ := Option.filter_eq_some_iff.1 h
  rw [decide_eq_true_eq] at hle
  obtain ⟨full, -, hfull⟩ := Option.bind_eq_some_iff.1 hresolve
  have hpos : 0 < ack := by
    unfold Sequence.ofCounter at hfull
    split at hfull
    · cases hfull
    · cases hfull
      omega
  unfold Sequence.checkedSub Sequence.ofCounter at hnewest
  split at hnewest
  · cases hnewest
  · cases hnewest
    omega

theorem handleOpened_passive (c : Connection R) (now : Timestamp) (sender : SocketAddr) (opened : Decrypted) :
    (c.handleAck now opened.header).Passive (c.handleOpened now sender opened).1 := by
  have hread : (c.handleAck now opened.header).Passive ((c.handleAck now opened.header).readBody now opened.body).1 :=
    readFrames_passive ..
  unfold handleOpened
  dsimp only
  split
  · exact hread.trans (close_passive ..)
  · exact hread.trans (received_passive ..)

/-- **What a call does**, said once for every invariant. -/
theorem after_does [OwnOps R] (c : Connection R) (call : Call R) : c.Does call (c.after call) := by
  cases call with
  | send channel payload => exact .sent channel payload
  | pollTransmit now out => exact .polled now out
  | close reason => exact .passive (close_passive c reason)
  | pollEvent => exact .passive ⟨rfl, rfl, rfl, rfl, rfl, rfl⟩
  | own op => exact .passive (OwnOps.touched op c).passive
  | handleDatagram now sender datagram =>
    show c.Does _ (c.handleDatagram now sender datagram).1
    unfold handleDatagram
    split
    · exact .passive (.refl c)
    · split
      · exact .passive (.refl c)
      next crypto opened hdec =>
        obtain ⟨hseq, htx⟩ := PacketCrypto.decrypt_tx hdec
        have hopened := handleOpened_passive { c with crypto, lastReceived := now } now sender opened
        unfold handleAck at hopened
        cases hack : opened.header.ack.bind crypto.resolveAck with
        | none =>
          simp only [hack] at hopened
          refine .passive (Passive.trans ?_ hopened)
          exact ⟨rfl, hseq, htx, rfl, rfl, rfl⟩
        | some ack =>
          simp only [hack] at hopened
          obtain ⟨wire, -, hwire⟩ := Option.bind_eq_some_iff.1 hack
          have hlt := resolveAck_used hwire
          rw [hseq] at hlt
          refine .acked ack (Ack.decodeAckDelay opened.header.ackDelay) opened.header.ackBits hlt
            (Passive.trans ?_ hopened)
          exact ⟨rfl, hseq, htx, rfl, rfl, rfl⟩
  | handleTimeout now =>
    show c.Does _ (c.handleTimeout now)
    unfold handleTimeout
    split
    · exact .passive (.refl c)
    · split
      · exact .passive ⟨rfl, rfl, rfl, rfl, rfl, rfl⟩
      · refine .timedOut (Passive.trans ?_ (LawfulRole.onTimeout ..).passive)
        split <;> exact ⟨rfl, rfl, rfl, rfl, rfl, rfl⟩

end

/-! ## What a polled packet is -/

/-- A packet's body as it was filled: control frames, then the frames of the
messages `new`, staged in that order. -/
structure Filled (c : Connection R) (len : Nat) (filled : Channels) (staged : PacketMessages)
    (new : List (Written × ByteRef)) (w : BitWriter) : Prop where
  carrying : Channels.Carrying c.channels.set c.channels.contents c.channels.pending.items
    (controlFields 0 c.controlFrames) len [] new ⟨filled.pending, w, staged, !new.isEmpty⟩
  filled_eq : filled = { c.channels with pending := filled.pending }

/-- What the control frames of the next packet take. -/
def controlBits (c : Connection R) : Nat := width (controlFields 0 c.controlFrames)

/-- Where the body of a packet ends that has `room` bits, from what is owed,
the allowance and the lengths that wait. -/
def packed (c : Connection R) (room allowance headerLen : Nat) : Nat :=
  let limit := allowance - (headerLen + tagLen + Channels.bytesFor c.controlBits)
  if c.lifecycle = .open ∧ 0 < limit then
    Channels.packChannels room limit c.controlBits c.channels.queues maxMessagesPerPacket c.controlBits
  else c.controlBits

/-- A body ends with its control frames where no message is in it. -/
theorem Filled.new_eq_nil_iff {c : Connection R} {len : Nat} {filled : Channels} {staged : PacketMessages}
    {new : List (Written × ByteRef)} {w : BitWriter} (h : c.Filled len filled staged new w) :
    new = [] ↔ w.bitsWritten = c.controlBits := by
  have hbits : w.bitsWritten = c.controlBits + width (Channels.framesFields c.channels.set c.controlBits
      (new.map (Written.entryMessage c.channels.contents))) := h.carrying.holds.written.trans (width_append _ _)
  have hlen := Channels.length_le_width_framesFields c.channels.set c.controlBits
    (new.map (Written.entryMessage c.channels.contents))
  rw [List.length_map] at hlen
  constructor
  · rintro rfl
    exact hbits
  · intro hsame
    exact List.length_eq_zero_iff.1 (by omega)

theorem requeued_settles (c : Connection R) : c.channels.Settles c.requeued := by
  unfold requeued
  split
  · exact Channels.requeueOldest_settles _ _
  · exact .refl _

theorem requeued_queue (c : Connection R) :
    Channels.queue c.requeued.pending.items = Channels.queue c.channels.pending.items := by
  unfold requeued
  split
  · exact Channels.requeueOldest_queue _ _
  · rfl

theorem length_bodyWriter (h : Header) (out : Packet) :
    (bodyWriter (h.encode out.bytes).1 (h.encode out.bytes).2).buf.length = maxDatagram - tagLen - h.bytes.length := by
  have hlen := h.length_bytes_le
  have hout := out.len
  unfold headerMaxLen at hlen
  unfold maxDatagram at hout
  show (List.take (maxDatagram - tagLen - h.bytes.length) ((overwrite out.bytes 0 h.bytes).drop h.bytes.length)).length
    = _
  rw [List.length_take, List.length_drop, length_overwrite (by omega), hout]
  unfold maxDatagram tagLen
  omega

theorem writePadding_holds {w : BitWriter} {fs : List (Nat × Nat)} (hw : w.Holds fs) :
    ∃ fs', (writePadding w).Holds fs' ∧ (writePadding w).buf.length = w.buf.length := by
  rcases Channels.writePadding_cases hw with ⟨-, hold, hlen⟩ | ⟨-, hsame⟩
  · exact ⟨_, hold, hlen⟩
  · rw [hsame]
    exact ⟨fs, hw, rfl⟩

/-- The buffer around a finished body: the header, the body's bytes, and room
behind them. -/
theorem sealed_buffer (h : Header) (out : Packet) {w : BitWriter} {fs : List (Nat × Nat)} (hw : w.Holds fs)
    (hlen : w.buf.length = maxDatagram - tagLen - h.bytes.length) :
    ∃ rest, overwrite (h.encode out.bytes).1 (h.encode out.bytes).2 (writePadding w).finish.1 =
        h.bytes ++ (Channels.packetBytes w ++ rest) ∧ tagLen ≤ rest.length ∧
      (writePadding w).finish.2 = (Channels.packetBytes w).length := by
  obtain ⟨fs', hold, hlen'⟩ := writePadding_holds hw
  obtain ⟨-, -, hle, hbuf⟩ := BitWriter.finish_bytes hold
  rw [hlen', hlen] at hle hbuf
  have hheader := h.length_bytes_le
  have hout := out.len
  unfold headerMaxLen at hheader
  unfold maxDatagram tagLen at hle hbuf
  unfold maxDatagram at hout
  set n := (writePadding w).finish.2 with hn
  set buf := (writePadding w).finish.1 with hbuffer
  have hbegun : (h.encode out.bytes).1 = h.bytes ++ out.bytes.drop h.bytes.length := overwrite_append [] out.bytes h.bytes
  have hbytes : Channels.packetBytes w = buf.take n := rfl
  refine ⟨buf.drop n ++ (out.bytes.drop h.bytes.length).drop buf.length, ?_, ?_, ?_⟩
  · rw [hbegun, hbytes, ← List.append_assoc (buf.take n), List.take_append_drop]
    exact overwrite_append h.bytes _ buf
  · simp only [List.length_append, List.length_drop, tagLen]
    omega
  · rw [hbytes, List.length_take]
    omega

/-- Whether a packet carrying `new` carries anything worth acknowledging. -/
def elicits (c : Connection R) (new : List (Written × ByteRef)) : Bool := !c.controlFrames.isEmpty || !new.isEmpty

/-- Control frames and messages, behind one another. -/
theorem fillPacket_filled {c : Connection R} (h : c.channels.Intact) {w : BitWriter} (hw : w.Holds [])
    (hfit : 4280 ≤ 8 * w.buf.length) (allowance headerLen : Nat) :
    ∃ filled staged new w', c.fillPacket allowance headerLen w =
        ({ c.controlled with channels := filled }, w', staged, c.elicits new) ∧
      Filled c w.buf.length filled staged new w' := by
  obtain ⟨w₁, hcontrol, hw₁⟩ := c.writeControl_spec hw hfit
  have hholds : w₁.Holds (controlFields 0 c.controlFrames) := hw₁.holds
  simp only [fillPacket, hcontrol]
  generalize allowance - (headerLen + tagLen + Channels.bytesFor w₁.bitsWritten) = limit
  by_cases hopen : c.lifecycle = .open ∧ 0 < limit
  · obtain ⟨new, hcarry⟩ := Channels.writeFrames_carries h hholds .empty limit
    have hdata : c.controlled.writeData w₁ limit = c.channels.writeFrames w₁ .empty limit := if_pos hopen
    have hwrote : (c.channels.writeFrames w₁ .empty limit).2.2.2 = !new.isEmpty := hcarry.wrote_eq
    rw [hw₁.len_eq, hwrote] at hcarry
    refine ⟨_, _, new, _, ?_, hcarry, rfl⟩
    rw [hdata, hwrote]
    rfl
  · have hdata : c.controlled.writeData w₁ limit = (c.channels, w₁, .empty, false) := if_neg hopen
    refine ⟨c.channels, .empty, [], w₁, ?_, ⟨rfl, ?_, hw₁.len_eq, rfl, fun m hm => .inl hm, by simp, rfl⟩, rfl⟩
    · rw [hdata]
      rfl
    · simpa [Channels.framesFields] using hholds

/-- A packet's body ends where its lengths say. -/
theorem fillPacket_packs {c : Connection R} (h : c.channels.Intact) {w : BitWriter} (hw : w.Holds [])
    (hfit : 4280 ≤ 8 * w.buf.length) (allowance headerLen : Nat) :
    (c.fillPacket allowance headerLen w).2.1.bitsWritten = c.packed (8 * w.buf.length) allowance headerLen := by
  obtain ⟨w₁, hcontrol, hw₁⟩ := c.writeControl_spec hw hfit
  have hbits : w₁.bitsWritten = c.controlBits := hw₁.holds.written
  simp only [fillPacket, packed, hcontrol, hbits]
  generalize allowance - (headerLen + tagLen + Channels.bytesFor c.controlBits) = limit
  by_cases hopen : c.lifecycle = .open ∧ 0 < limit
  · have hdata : c.controlled.writeData w₁ limit = c.channels.writeFrames w₁ .empty limit := if_pos hopen
    rw [hdata, if_pos hopen, Channels.writeFrames_packs h hw₁.holds, hw₁.len_eq, hbits]
  · have hdata : c.controlled.writeData w₁ limit = (c.channels, w₁, .empty, false) := if_neg hopen
    rw [hdata, if_neg hopen, hbits]

/-- What becomes of a connection whose packet was filled. -/
def filledWith (c : Connection R) (now : Timestamp) (filled : Channels) : Connection R :=
  { (c.prepared now).controlled with channels := filled }

/-- Bytes a packet's body has. -/
def bodyLen (c : Connection R) (now : Timestamp) : Nat := maxDatagram - tagLen - (c.buildHeader now).bytes.length

/-- Where the next packet's body ends. -/
def bodyBits (c : Connection R) (now : Timestamp) : Nat :=
  (c.prepared now).packed (8 * c.bodyLen now) (c.budget.available now).2 (c.buildHeader now).bytes.length

/-- A packet would have nothing to carry. -/
structure Bare (c : Connection R) (now : Timestamp) : Prop where
  controlFrames_eq : c.controlFrames = []
  due_eq : c.acks.due now = false
  bodyBits_eq : c.bodyBits now = 0

/-- What `poll_transmit` makes of a packet it found due. -/
inductive Builds (c : Connection R) (now : Timestamp) : Connection R × Option (List UInt8) → Prop
  /-- Nothing to carry. -/
  | aborted {filled : Channels} {staged : PacketMessages} {w : BitWriter} :
    (c.prepared now).Filled (c.bodyLen now) filled staged [] w → c.Bare now → Builds c now (c.filledWith now filled, none)
  | built {filled : Channels} {staged : PacketMessages} {new : List (Written × ByteRef)} {w : BitWriter}
      {sealed : List UInt8 × List UInt8} :
    (c.prepared now).Filled (c.bodyLen now) filled staged new w →
    c.crypto.tx.inner.encrypt (c.crypto.tx.nonce c.crypto.nextSequence) (c.buildHeader now).bytes
      (Channels.packetBytes w) = some sealed →
    ¬ c.Bare now →
    Builds c now
      ((c.filledWith now filled).transmitted now { c.crypto with nextSequence := c.crypto.nextSequence + 1 } staged
        ((c.buildHeader now).bytes ++ (sealed.1 ++ sealed.2)).length (c.elicits new),
        some ((c.buildHeader now).bytes ++ (sealed.1 ++ sealed.2)))

theorem sealPacket_spec (c : Connection R) (now : Timestamp) (h : Header) (out : Packet) {w : BitWriter}
    {fs : List (Nat × Nat)} (hw : w.Holds fs) (hlen : w.buf.length = maxDatagram - tagLen - h.bytes.length)
    (staged : PacketMessages) (eliciting : Bool) :
    ∃ sealed, c.crypto.tx.inner.encrypt (c.crypto.tx.nonce c.crypto.nextSequence) h.bytes (Channels.packetBytes w) =
        some sealed ∧
      c.sealPacket now (h.encode out.bytes).1 (h.encode out.bytes).2 w staged eliciting =
        (c.transmitted now { c.crypto with nextSequence := c.crypto.nextSequence + 1 } staged
          (h.bytes ++ (sealed.1 ++ sealed.2)).length eliciting, some (h.bytes ++ (sealed.1 ++ sealed.2))) := by
  obtain ⟨rest, hbuf, hrest, hend⟩ := sealed_buffer h out hw hlen
  have hshort : (Channels.packetBytes w).length < 2 ^ 32 := by
    obtain ⟨fs', hold, hlen'⟩ := writePadding_holds hw
    have hle := (BitWriter.finish_bytes hold).2.2.1
    rw [hlen', hlen, hend] at hle
    unfold maxDatagram at hle
    omega
  obtain ⟨sealed, hsealed, hencrypt⟩ := c.crypto.encrypt_spec h.bytes hrest hshort
  refine ⟨sealed, hsealed, ?_⟩
  have hlast : (h.encode out.bytes).2 + (writePadding w).finish.2 = h.bytes.length + (Channels.packetBytes w).length := by
    rw [hend]
    rfl
  simp only [sealPacket, hbuf, hlast]
  rw [show (h.encode out.bytes).2 = h.bytes.length from rfl, hencrypt]

/-- The packet `poll_transmit` fills: its body, what it carries, and whether
anything was written. -/
def filling (c : Connection R) (now : Timestamp) (out : Packet) : Connection R × BitWriter × PacketMessages × Bool :=
  let begun := (c.buildHeader now).encode out.bytes
  (c.prepared now).fillPacket (c.budget.available now).2 begun.2 (bodyWriter begun.1 begun.2)

theorem bodyWriter_room (c : Connection R) (now : Timestamp) (out : Packet) :
    9360 ≤ 8 * (bodyWriter ((c.buildHeader now).encode out.bytes).1
      ((c.buildHeader now).encode out.bytes).2).buf.length := by
  have hheader := (c.buildHeader now).length_bytes_le
  unfold headerMaxLen at hheader
  rw [length_bodyWriter (c.buildHeader now) out]
  unfold maxDatagram tagLen
  omega

theorem filling_filled {c : Connection R} (h : c.channels.Intact) (now : Timestamp) (out : Packet) :
    ∃ filled staged new w, c.filling now out = (c.filledWith now filled, w, staged, c.elicits new) ∧
      (c.prepared now).Filled (c.bodyLen now) filled staged new w := by
  obtain ⟨filled, staged, new, w, hfill, hfilled⟩ := fillPacket_filled (c := c.prepared now)
    (c.requeued_settles.intact h) (BitWriter.new_holds _) (Nat.le_trans (by decide) (c.bodyWriter_room now out))
    (c.budget.available now).2 ((c.buildHeader now).encode out.bytes).2
  rw [show (BitWriter.new _).buf.length = (bodyWriter ((c.buildHeader now).encode out.bytes).1
    ((c.buildHeader now).encode out.bytes).2).buf.length from rfl, length_bodyWriter (c.buildHeader now) out] at hfilled
  exact ⟨filled, staged, new, w, hfill, hfilled⟩

theorem filling_packs {c : Connection R} (h : c.channels.Intact) (now : Timestamp) (out : Packet) :
    (c.filling now out).2.1.bitsWritten = c.bodyBits now := by
  have hpacks := fillPacket_packs (c := c.prepared now) (c.requeued_settles.intact h) (BitWriter.new_holds _)
    (Nat.le_trans (by decide) (c.bodyWriter_room now out)) (c.budget.available now).2
    ((c.buildHeader now).encode out.bytes).2
  rw [show (BitWriter.new _).buf.length = (bodyWriter ((c.buildHeader now).encode out.bytes).1
    ((c.buildHeader now).encode out.bytes).2).buf.length from rfl, length_bodyWriter (c.buildHeader now) out] at hpacks
  exact hpacks

/-- A packet that is filled with nothing, with no acknowledgement due, is taken
back; any other is sealed. -/
theorem buildPacket_eq {c : Connection R} {now : Timestamp} {out : Packet} {filled : Channels}
    {staged : PacketMessages} {w : BitWriter} {eliciting : Bool}
    (hfill : c.filling now out = (c.filledWith now filled, w, staged, eliciting)) :
    c.buildPacket now out =
      if (!eliciting && !c.acks.due now) = true then
        ({ c.filledWith now filled with channels := filled.onPacketAborted staged }, none)
      else (c.filledWith now filled).sealPacket now ((c.buildHeader now).encode out.bytes).1
        ((c.buildHeader now).encode out.bytes).2 w staged eliciting := by
  unfold filling at hfill
  unfold buildPacket
  dsimp only at hfill ⊢
  rw [hfill]
  rfl

theorem bare_iff {c : Connection R} {now : Timestamp} {filled : Channels} {staged : PacketMessages}
    {new : List (Written × ByteRef)} {w : BitWriter}
    (hfilled : (c.prepared now).Filled (c.bodyLen now) filled staged new w) (hbits : w.bitsWritten = c.bodyBits now) :
    c.Bare now ↔ (!c.elicits new && !c.acks.due now) = true := by
  have hnew : new = [] ↔ w.bitsWritten = c.controlBits := hfilled.new_eq_nil_iff
  have hcontrol : c.controlFrames = [] → c.controlBits = 0 := fun hframes => by rw [controlBits, hframes]; rfl
  rw [hbits] at hnew
  have hidle : (!c.elicits new && !c.acks.due now) = true ↔ (c.controlFrames = [] ∧ new = []) ∧ c.acks.due now = false := by
    simp [elicits]
  rw [hidle, hnew]
  constructor
  · rintro ⟨hframes, hdue, hzero⟩
    exact ⟨⟨hframes, by rw [hzero, hcontrol hframes]⟩, hdue⟩
  · rintro ⟨⟨hframes, hsame⟩, hdue⟩
    exact ⟨hframes, hdue, by rw [hsame, hcontrol hframes]⟩

/-- **What a packet found due becomes.** -/
theorem buildPacket_builds {c : Connection R} (h : c.channels.Intact) (now : Timestamp) (out : Packet) :
    c.Builds now (c.buildPacket now out) := by
  obtain ⟨filled, staged, new, w, hfill, hfilled⟩ := filling_filled h now out
  have hbits := filling_packs h now out
  rw [hfill] at hbits
  have hbare := bare_iff hfilled hbits
  rw [buildPacket_eq hfill]
  split
  next hnone =>
    obtain ⟨-, hnew⟩ : c.controlFrames = [] ∧ new = [] := by simpa [elicits] using (Bool.and_eq_true_iff.1 hnone).1
    subst hnew
    have hstaged : staged.items = [] := hfilled.carrying.staged_eq
    have habort : filled.onPacketAborted staged = filled := by rw [Channels.onPacketAborted, hstaged]; rfl
    rw [habort]
    exact .aborted hfilled (hbare.2 hnone)
  next hsome =>
    obtain ⟨sealed, hsealed, hseal⟩ := sealPacket_spec (c.filledWith now filled) now (c.buildHeader now) out
      hfilled.carrying.holds hfilled.carrying.len_eq staged (c.elicits new)
    rw [hseal]
    exact .built hfilled hsealed (mt hbare.1 hsome)

/-! ## The queue over whole runs -/

theorem foldl_applyResolution (ns : List (Notice PacketRecord)) (s : Channels × Budget) :
    s.1.Settles (ns.foldl (fun s notice => applyResolution s notice.what) s).1 ∧
      (ns.foldl (fun s notice => applyResolution s notice.what) s).2.lastRefill = s.2.lastRefill := by
  induction ns generalizing s with
  | nil => exact ⟨.refl _, rfl⟩
  | cons n ns ih =>
    obtain ⟨hsettles, hrefill⟩ := ih (applyResolution s n.what)
    cases n with
    | mk sequence what =>
      cases what with
      | acked record => exact ⟨(Channels.onAcked_settles ..).trans hsettles, hrefill⟩
      | lost record => exact ⟨(Channels.onLost_settles ..).trans hsettles, hrefill⟩
      | spurious => exact ⟨hsettles, hrefill⟩

theorem ledger_settles (c : Connection R) (r : Delivery PacketRecord ledgerSlots × List (Notice PacketRecord)) :
    c.channels.Settles (c.ledger r).channels ∧ (c.ledger r).budget.lastRefill = c.budget.lastRefill :=
  foldl_applyResolution r.2 (c.channels, c.budget)

theorem Filled.shrinks {c : Connection R} {len : Nat} {filled : Channels} {staged : PacketMessages}
    {new : List (Written × ByteRef)} {w : BitWriter} (h : c.Filled len filled staged new w) :
    c.channels.Shrinks filled := by
  rw [h.filled_eq]
  exact .of_queue h.carrying.queue_eq rfl rfl rfl

/-- Counting a close notice is about the lifecycle only. -/
theorem noticeSent_same (c : Connection R) :
    c.noticeSent.channels = c.channels ∧ c.noticeSent.delivery = c.delivery ∧ c.noticeSent.crypto = c.crypto ∧
      c.noticeSent.budget = c.budget ∧ c.noticeSent.liveness = c.liveness ∧ c.noticeSent.acks = c.acks ∧
      c.noticeSent.pendingProbes = c.pendingProbes ∧ c.noticeSent.control = c.control ∧
      c.noticeSent.role = c.role ∧ c.noticeSent.lastReceived = c.lastReceived := by
  unfold noticeSent
  split
  · split <;> simp
  · simp
  · simp

theorem counted_passive (c : Connection R) (budget : Budget) (acks : Acks)
    (h : budget.lastRefill = c.budget.lastRefill) : c.Passive { c with budget, acks }.noticeSent := by
  obtain ⟨hchannels, hdelivery, hcrypto, hbudget, hliveness, -⟩ := noticeSent_same { c with budget, acks }
  exact ⟨by rw [hchannels], by rw [hcrypto], by rw [hcrypto], by rw [hliveness], by rw [hdelivery],
    by rw [hbudget]; exact h⟩

/-- Once committed, a packet is only counted. -/
theorem transmitted_passive (c : Connection R) (now : Timestamp) (crypto : PacketCrypto) (staged : PacketMessages)
    (len : Nat) (eliciting : Bool) :
    (c.committed now crypto staged eliciting).Passive (c.transmitted now crypto staged len eliciting) :=
  counted_passive _ _ _ (Budget.onSent_lastRefill ..)

theorem transmitted_channels (c : Connection R) (now : Timestamp) (crypto : PacketCrypto) (staged : PacketMessages)
    (len : Nat) (eliciting : Bool) :
    (c.transmitted now crypto staged len eliciting).channels = (c.committed now crypto staged eliciting).channels := by
  rw [transmitted, (noticeSent_same _).1]

theorem noticeSent_lifecycle (c : Connection R) : c.noticeSent.lifecycle = c.lifecycle.noticed := by
  unfold noticeSent
  cases hlife : c.lifecycle with
  | «open» | closed => exact hlife
  | closing reason remaining =>
    dsimp only [Lifecycle.noticed]
    split <;> rfl

theorem transmitted_lifecycle (c : Connection R) (now : Timestamp) (crypto : PacketCrypto) (staged : PacketMessages)
    (len : Nat) (eliciting : Bool) :
    (c.transmitted now crypto staged len eliciting).lifecycle = c.lifecycle.noticed := by
  have hlife : (c.committed now crypto staged eliciting).lifecycle = c.lifecycle := rfl
  rw [transmitted, noticeSent_lifecycle]
  exact congrArg Lifecycle.noticed hlife

/-- Once its packet is committed, a queue only loses messages and marks. -/
theorem transmitted_commits (c : Connection R) (now : Timestamp) (crypto : PacketCrypto) (staged : PacketMessages)
    (len : Nat) (eliciting : Bool) :
    (c.channels.onPacketSent staged).1.Settles (c.transmitted now crypto staged len eliciting).channels := by
  rw [transmitted_channels, committed]
  exact (ledger_settles { c with crypto, channels := (c.channels.onPacketSent staged).1 } _).1

theorem transmitted_settles (c : Connection R) (now : Timestamp) (crypto : PacketCrypto) (staged : PacketMessages)
    (len : Nat) (eliciting : Bool) :
    c.channels.Settles (c.transmitted now crypto staged len eliciting).channels :=
  (Channels.onPacketSent_spec c.channels staged).1.trans (transmitted_commits c now crypto staged len eliciting)

theorem Builds.shrinks {c : Connection R} {now : Timestamp} {r : Connection R × Option (List UInt8)}
    (h : c.Builds now r) : c.channels.Shrinks r.1.channels := by
  have hprepared : c.channels.Shrinks (c.prepared now).channels := c.requeued_settles.toShrinks
  cases h with
  | aborted hfilled => exact hprepared.trans hfilled.shrinks
  | built hfilled => exact hprepared.trans (hfilled.shrinks.trans (transmitted_settles (c.filledWith now _) ..).toShrinks)

/-- A poll finds nothing due, or builds a packet. -/
theorem pollTransmit_cases {c : Connection R} (h : c.channels.Intact) (now : Timestamp) (out : Packet) :
    ((c.assessed now).transmitDue now = false ∧ c.pollTransmit now out = (c.assessed now, none)) ∨
      ((c.assessed now).transmitDue now = true ∧ (c.assessed now).Builds now (c.pollTransmit now out)) := by
  unfold pollTransmit
  dsimp only
  cases hdue : (c.assessed now).transmitDue now with
  | false => exact .inl ⟨rfl, rfl⟩
  | true => exact .inr ⟨rfl, buildPacket_builds (c := c.assessed now) h now out⟩

theorem pollTransmit_shrinks {c : Connection R} (h : c.channels.Intact) (now : Timestamp) (out : Packet) :
    c.channels.Shrinks (c.pollTransmit now out).1.channels := by
  rcases pollTransmit_cases h now out with ⟨-, heq⟩ | ⟨-, hbuilds⟩
  · rw [heq]
    exact .refl _
  · exact hbuilds.shrinks

theorem ledger_recvSide (c : Connection R)
    (r : Ack.Delivery PacketRecord ledgerSlots × List (Ack.Notice PacketRecord)) :
    (c.ledger r).channels.recvSide = c.channels.recvSide := by
  have hfold : ∀ (ns : List (Ack.Notice PacketRecord)) (s : Channels × Budget),
      (ns.foldl (fun s notice => applyResolution s notice.what) s).1.recvSide = s.1.recvSide := by
    intro ns
    induction ns with
    | nil => exact fun _ => rfl
    | cons n ns ih =>
      intro s
      rw [List.foldl_cons, ih]
      cases n with
      | mk sequence what =>
        cases what with
        | acked record => exact Channels.foldl_recvSide Channels.releasePending_recvSide _ _
        | lost record => exact Channels.foldl_recvSide (f := Channels.markLost) (fun _ _ => rfl) _ _
        | spurious => rfl
  exact hfold r.2 (c.channels, c.budget)

theorem handleAck_recvSide (c : Connection R) (now : Timestamp) (header : Header) :
    (c.handleAck now header).channels.recvSide = c.channels.recvSide := by
  unfold handleAck
  split
  · rfl
  · exact ledger_recvSide ..

theorem transmitted_recvSide (c : Connection R) (now : Timestamp) (crypto : PacketCrypto) (staged : PacketMessages)
    (len : Nat) (eliciting : Bool) :
    (c.transmitted now crypto staged len eliciting).channels.recvSide = c.channels.recvSide := by
  rw [transmitted_channels, committed]
  exact (ledger_recvSide { c with crypto, channels := (c.channels.onPacketSent staged).1 } _).trans
    (Channels.onPacketSent_recvSide _ _)

theorem pollTransmit_recvSide {c : Connection R} (h : c.channels.Intact) (now : Timestamp) (out : Packet) :
    (c.pollTransmit now out).1.channels.recvSide = c.channels.recvSide := by
  rcases pollTransmit_cases h now out with ⟨-, heq⟩ | ⟨-, hbuilds⟩
  · rw [heq]
    rfl
  · have hfilled : ∀ {len filled staged new w}, ((c.assessed now).prepared now).Filled len filled staged new w →
        filled.recvSide = c.channels.recvSide := by
      intro len filled staged new w hf
      have hrequeued : (c.assessed now).requeued.recvSide = c.channels.recvSide := by
        unfold requeued
        split <;> rfl
      rw [hf.filled_eq]
      exact hrequeued
    generalize c.pollTransmit now out = r at hbuilds
    cases hbuilds with
    | aborted hf => exact hfilled hf
    | built hf => exact (transmitted_recvSide ..).trans (hfilled hf)

/-- The runs of a connection: calls in any order, with any times. -/
def sys (R : Type) [Role R] [OwnOps R] : Lts.Sys (Connection R) (Call R) where
  start c := ∃ now id addr tx rx set transport owed role, OwnOps.Fresh owed role ∧
    c = .new now id addr tx rx set transport owed role
  step c call c' := c' = c.after call

/-- A buffer for a poll. -/
def blank : Packet := ⟨List.replicate maxDatagram 0, by simp⟩

/-- A server's connection starts as `accept` makes it. -/
theorem accept_reachable (now : Timestamp) (id : ConnectionId) (session : SessionId) (ticket : TicketId)
    (addr : SocketAddr) (tx rx : Aead) (channels : ChannelSet) (transport : TransportConfig) :
    Lts.Reachable (sys Server) (.accept now id session ticket addr tx rx channels transport) :=
  .start ⟨now, id, addr, tx, rx, channels, transport, { Owed.none with accepted := true }, ⟨session, ticket, none⟩,
    ⟨rfl, rfl⟩, rfl⟩

theorem reach_calls [Role R] [OwnOps R] {c : Connection R} (h : Lts.Reachable (sys R) c) (calls : List (Call R)) :
    Lts.Reachable (sys R) (calls.foldl after c) := by
  induction calls generalizing c with
  | nil => exact h
  | cons call calls ih => exact ih (.step h trivial rfl)

theorem Does.intact [OwnOps R] {c c' : Connection R} {call : Call R} (hdoes : c.Does call c') (h : c.channels.Intact) :
    c'.channels.Intact := by
  cases hdoes with
  | passive hp => exact h.sendSide hp.sendSide_eq
  | sent channel payload => exact h.send channel payload
  | acked ack ackDelay bits _ hp => exact ((ledger_settles c _).1.intact h).sendSide hp.sendSide_eq
  | timedOut hp => exact ((ledger_settles c _).1.intact h).sendSide hp.sendSide_eq
  | polled now out => exact (pollTransmit_shrinks h now out).intact h

/-- **Every pending message is live in the arena**, in every run. -/
theorem reach_intact [Role R] [LawfulRole R] [OwnOps R] {ok : Connection R → Call R → Prop} {c : Connection R}
    (h : Lts.Reach (sys R) ok c) : c.channels.Intact := by
  refine Lts.Reach.invariant (P := fun c => c.channels.Intact) ?_ ?_ h
  · rintro _ ⟨now, id, addr, tx, rx, set, transport, owed, role, -, rfl⟩
    exact Channels.new_intact set
  · rintro c call _ - hc - rfl
    exact (after_does c call).intact hc

/-- A connection's channels are the ones it was made with. -/
theorem after_set [Role R] [LawfulRole R] [OwnOps R] {c : Connection R} (h : c.channels.Intact) (call : Call R) :
    (c.after call).channels.set = c.channels.set := by
  have hset : ∀ {c c' : Connection R}, c.Passive c' → c'.channels.set = c.channels.set := fun hp =>
    congrArg Prod.fst hp.sendSide_eq
  have hdoes := after_does c call
  generalize c.after call = c' at hdoes
  cases hdoes with
  | passive hp => exact hset hp
  | sent channel payload => exact Channels.send_set ..
  | acked ack ackDelay bits _ hp => exact (hset hp).trans (ledger_settles c _).1.set_eq
  | timedOut hp => exact (hset hp).trans (ledger_settles c _).1.set_eq
  | polled now out => exact (pollTransmit_shrinks h now out).set_eq

end Connection
end HexNet
