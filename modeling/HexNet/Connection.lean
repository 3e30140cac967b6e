/-
One peer's state machine (`connection.rs`), parameterised by which side of it
we are: what differs between the sides is the role's state and the functions
of `Role`.

Counters (`stats.rs`) are left out: nothing reads them. A call that delivers
messages returns them, and a call that builds a packet returns its bytes.
-/
import HexNet.Budget
import HexNet.Channel
import HexNet.Packet

namespace HexNet

open Ack (Delivery Notice Outgoing Resolved)
open LeBytes

inductive SocketAddr
  | v4 (ip : BitVec 32) (port : UInt16)
  | v6 (ip : BitVec 128) (port : UInt16) (flowinfo scopeId : UInt32)
  deriving DecidableEq

/-- A close notice goes out more than once. -/
def closeSends : Nat := 3

/-- Unacknowledged messages a probe packet carries again. -/
def probeMessages : Nat := 2

/-- How long an unproven path is probed. -/
def pathTimeout : Span := Span.fromSecs 3

/-- The ledger's slots: `Delivery`'s default. -/
def ledgerSlots : Nat := 64

instance : NeZero ledgerSlots := ⟨by decide⟩

inductive CloseReason
  | requested
  | timedOut
  /-- An authenticated peer sent something the protocol does not allow. -/
  | protocolViolation
  | serverShutdown
  /-- The session was resumed on another connection. -/
  | replaced
  deriving DecidableEq, Repr

namespace CloseReason

def width : Nat := 3

def bits : CloseReason → Nat
  | requested => 0
  | timedOut => 1
  | protocolViolation => 2
  | serverShutdown => 3
  | replaced => 4

def fromBits : Nat → Option CloseReason
  | 0 => some requested
  | 1 => some timedOut
  | 2 => some protocolViolation
  | 3 => some serverShutdown
  | 4 => some replaced
  | _ => none

end CloseReason

inductive RecvError
  | malformed
  | duplicate
  | unauthenticated
  /-- Its frames did not parse, or one may not be received on this side. -/
  | badPayload
  | closed
  deriving DecidableEq, Repr

inductive Event
  /-- The new address has been verified. -/
  | migrated (addr : SocketAddr)
  | resumeTicketReceived
  | closed (reason : CloseReason)
  deriving DecidableEq

inductive Lifecycle
  | open
  /-- Sending close notices. -/
  | closing (reason : CloseReason) (remaining : Nat)
  | closed
  deriving DecidableEq

/-! ## Acknowledgements -/

inductive AckOwed
  | nothing
  /-- Owed since this instant, held until the delay is up. -/
  | held (since : Timestamp)
  /-- Owed without delay: a packet arrived out of order. -/
  | atOnce
  deriving DecidableEq

structure Acks where
  owed : AckOwed
  /-- Longest an acknowledgement is held, and the shortest gap between two
  packets carrying nothing else. -/
  delay : Span
  /-- Earliest the next acknowledgement may go out alone. -/
  aloneAfter : Timestamp

namespace Acks

def new (delay : Span) : Acks := ⟨.nothing, delay, .zero⟩

def record (a : Acks) (now : Timestamp) (inOrder : Bool) : Acks :=
  { a with
    owed :=
      match a.owed, inOrder with
      | _, false => .atOnce
      | .atOnce, true => .atOnce
      | .nothing, true => .held now
      | .held since, true => .held since }

/-- When what is owed must go out even with nothing to carry it. -/
def deadline (a : Acks) : Option Timestamp :=
  match a.owed with
  | .nothing => none
  | .atOnce => some (Timestamp.zero.max a.aloneAfter)
  | .held since => some ((since.saturatingAdd a.delay).max a.aloneAfter)

def due (a : Acks) (now : Timestamp) : Bool := a.deadline.any fun at_ => at_ ≤ now

/-- A packet went out carrying the whole acknowledgement state. -/
def sent (a : Acks) (now : Timestamp) (eliciting : Bool) : Acks :=
  { a with
    owed := .nothing
    aloneAfter := if eliciting then a.aloneAfter else now.saturatingAdd a.delay }

end Acks

/-! ## Control frames -/

structure Owed where
  accepted : Bool
  pathChallenge : Bool
  pathResponse : Bool
  resumeTicket : Bool
  deriving DecidableEq

def Owed.none : Owed := ⟨false, false, false, false⟩

def Owed.isEmpty (o : Owed) : Bool := !o.accepted && !o.pathChallenge && !o.pathResponse && !o.resumeTicket

abbrev EncryptedTicket := FixedVec UInt8 maxBlob

/-- Control frames queued for the next packet, each flag with its payload. -/
structure ControlQueue where
  owed : Owed
  pathChallenge : BitVec 64
  pathResponse : BitVec 64
  ticket : EncryptedTicket

/-- Writes one control frame, leaving the packet as it was if any part of it
does not fit. -/
def writeControlFrame (w : BitWriter) (kind : ControlKind) (body : Write Unit) : BitWriter × Bool :=
  match (do FrameKind.control.write; kind.write; body : Write Unit).run w with
  | .ok _ w => (w, true)
  | .error _ failed => (failed.rollback w.checkpoint, false)

namespace ControlQueue

def new (owed : Owed) : ControlQueue := ⟨owed, 0, 0, .empty⟩

def isEmpty (q : ControlQueue) : Bool := q.owed.isEmpty

def queueAccept (q : ControlQueue) : ControlQueue := { q with owed := { q.owed with accepted := true } }

def queuePathChallenge (q : ControlQueue) (token : BitVec 64) : ControlQueue :=
  { q with pathChallenge := token, owed := { q.owed with pathChallenge := true } }

def queuePathResponse (q : ControlQueue) (token : BitVec 64) : ControlQueue :=
  { q with pathResponse := token, owed := { q.owed with pathResponse := true } }

/-- A later ticket replaces a queued one. -/
def queueTicket (q : ControlQueue) (ticket : EncryptedTicket) : ControlQueue :=
  { q with ticket, owed := { q.owed with resumeTicket := true } }

/-- Writes one frame where it is owed: the packet, whether anything has been
written, and whether the frame is still owed. -/
def writeOwed (owed : Bool) (kind : ControlKind) (body : Write Unit) (s : BitWriter × Bool) :
    (BitWriter × Bool) × Bool :=
  if owed then
    let r := writeControlFrame s.1 kind body
    ((r.1, s.2 || r.2), !r.2)
  else (s, false)

def writeTicket (ticket : EncryptedTicket) : Write Unit := do
  BitWriter.writeRange ticket.items.length 0 maxBlob
  BitWriter.align
  BitWriter.writeBytes ticket.items

/-- Writes what fits, smallest first. A frame that does not fit stays owed.
Returns whether anything was written. -/
def write (q : ControlQueue) (w : BitWriter) : ControlQueue × BitWriter × Bool :=
  let a := writeOwed q.owed.accepted .accepted (pure ()) (w, false)
  let b := writeOwed q.owed.pathChallenge .pathChallenge (BitWriter.writeU64 q.pathChallenge.toNat) a.1
  let c := writeOwed q.owed.pathResponse .pathResponse (BitWriter.writeU64 q.pathResponse.toNat) b.1
  let d := writeOwed q.owed.resumeTicket .resumeTicket (writeTicket q.ticket) c.1
  ({ q with owed := ⟨a.2, b.2, c.2, d.2⟩ }, d.1.1, d.1.2)

end ControlQueue

/-! ## The connection -/

structure Connection (R : Type) where
  id : ConnectionId
  addr : SocketAddr
  lifecycle : Lifecycle
  crypto : PacketCrypto
  delivery : Delivery PacketRecord ledgerSlots
  budget : Budget
  channels : Channels
  control : ControlQueue
  acks : Acks
  liveness : Liveness
  lastReceived : Timestamp
  /-- Ack-eliciting packets owed: a keepalive, or the ledger's probes. -/
  pendingProbes : Nat
  events : RingQueue Event 16
  role : R

/-- Which side of a connection this is. -/
class Role (R : Type) where
  /-- Handles a control frame other than Ping or Close. -/
  readControl : Connection R → Timestamp → ControlKind → Read (Connection R)
  onAddressChange : Connection R → Timestamp → SocketAddr → Nat → Connection R
  onTimeout : Connection R → Timestamp → Connection R
  nextDeadline : Connection R → Option Timestamp

namespace Connection

variable {R : Type}

/-- `tx` and `rx` are the ciphers of the keys `split_keys` gives this side. -/
def new (now : Timestamp) (id : ConnectionId) (addr : SocketAddr) (tx rx : Aead) (channels : ChannelSet)
    (transport : TransportConfig) (control : Owed) (role : R) : Connection R where
  id
  addr
  lifecycle := .open
  crypto := .new id tx rx
  delivery := .new now transport.maxAckDelay
  budget := .new now transport.budget
  channels := .new channels
  control := .new control
  acks := .new transport.maxAckDelay.get
  liveness := transport.liveness
  lastReceived := now
  pendingProbes := 0
  events := .empty
  role

def send (c : Connection R) (channel : Nat) (payload : List UInt8) : Connection R × Except SendError Unit :=
  let r := c.channels.send channel payload
  ({ c with channels := r.1 }, r.2)

def close (c : Connection R) (reason : CloseReason) : Connection R :=
  if c.lifecycle = .open then { c with lifecycle := .closing reason closeSends } else c

/-- Tells the channels and the controller of a packet's fate. -/
def applyResolution (s : Channels × Budget) : Resolved PacketRecord → Channels × Budget
  | .acked record => (s.1.onAcked record, s.2)
  | .lost record => (s.1.onLost record, s.2.onLost)
  | .spurious => (s.1, s.2.onSpurious)

def applyNotices (c : Connection R) (notices : List (Notice PacketRecord)) : Connection R :=
  let s := notices.foldl (fun s notice => applyResolution s notice.what) (c.channels, c.budget)
  { c with channels := s.1, budget := s.2 }

/-- What an operation of the ledger answered, passed on. -/
def ledger (c : Connection R) (r : Delivery PacketRecord ledgerSlots × List (Notice PacketRecord)) : Connection R :=
  { c with delivery := r.1 }.applyNotices r.2

/-! ### Receiving -/

def handleAck (c : Connection R) (now : Timestamp) (header : Header) : Connection R :=
  match header.ack.bind c.crypto.resolveAck with
  | none => c
  | some ack => c.ledger (c.delivery.onAck now ack (Ack.decodeAckDelay header.ackDelay) header.ackBits)

def readCloseReason : Read CloseReason := do
  match CloseReason.fromBits (← BitReader.readBits CloseReason.width) with
  | some reason => return reason
  | none => throw .outOfRange

def peerClosed (c : Connection R) (reason : CloseReason) : Connection R :=
  { c with lifecycle := .closed, events := c.events.push (.closed reason) }

section

variable [Role R]

/-- Ping and Close are symmetric; everything else is the role's. -/
def readControl (c : Connection R) (now : Timestamp) : Read (Connection R) := do
  match ← ControlKind.read with
  | .ping => return c
  | .close => return c.peerClosed (← readCloseReason)
  | other => Role.readControl c now other

/-- Reads frames until padding or the end of the payload: the messages they
delivered, and whether the packet carried anything worth acknowledging. A
turn reads three bits at least, so their number bounds the turns. -/
def readFrames (now : Timestamp) :
    Nat → Connection R → BitReader → Bool → Connection R × List Message × Except ReadError Bool
  | 0, c, _, eliciting => (c, [], .ok eliciting)
  | fuel + 1, c, r, eliciting =>
    if r.bitsRemaining < frameKindBits then (c, [], .ok eliciting)
    else
      match FrameKind.read.run r with
      | .error e _ => (c, [], .error e)
      | .ok .padding _ => (c, [], .ok eliciting)
      | .ok .control r =>
        match (c.readControl now).run r with
        | .error e _ => (c, [], .error e)
        | .ok c r => readFrames now fuel c r true
      | .ok .message r =>
        match c.channels.readMessage.run r with
        | .error e _ => (c, [], .error e)
        | .ok v r =>
          let rest := readFrames now fuel { c with channels := v.1 } r true
          (rest.1, v.2 ++ rest.2.1, rest.2.2)
      | .ok _ _ => (c, [], .error .outOfRange)

def readBody (c : Connection R) (now : Timestamp) (body : List UInt8) :
    Connection R × List Message × Except ReadError Bool :=
  readFrames now (8 * body.length + 1) c (.new body) false

/-- What follows a body that parsed. -/
def received (c : Connection R) (now : Timestamp) (sender : SocketAddr) (opened : Decrypted) (eliciting : Bool) :
    Connection R :=
  let c :=
    if eliciting then
      { c with
        crypto := c.crypto.recordEliciting opened.sequence now
        acks := c.acks.record now opened.inOrder }
    else c
  if sender ≠ c.addr then Role.onAddressChange c now sender opened.sequence else c

def recvError : DecryptError → RecvError
  | .malformed => .malformed
  | .replay _ => .duplicate
  | .unauthenticated => .unauthenticated

/-- A packet that authenticated: its acknowledgement, then its frames. -/
def handleOpened (c : Connection R) (now : Timestamp) (sender : SocketAddr) (opened : Decrypted) :
    Connection R × List Message × Except RecvError Unit :=
  let r := (c.handleAck now opened.header).readBody now opened.body
  match r.2.2 with
  | .error _ => (r.1.close .protocolViolation, r.2.1, .error .badPayload)
  | .ok eliciting => (r.1.received now sender opened eliciting, r.2.1, .ok ())

/-- Processes one datagram: the messages it delivered. -/
def handleDatagram (c : Connection R) (now : Timestamp) (sender : SocketAddr) (datagram : List UInt8) :
    Connection R × List Message × Except RecvError Unit :=
  if c.lifecycle = .closed then (c, [], .error .closed)
  else
    match c.crypto.decrypt datagram with
    | .error e => (c, [], .error (recvError e))
    | .ok (crypto, opened) => { c with crypto, lastReceived := now }.handleOpened now sender opened

end

/-! ### Transmitting -/

def dataAt (c : Connection R) : Option Timestamp :=
  match c.lifecycle with
  | .open => c.channels.nextUnsentLen.map c.budget.readyFor
  | .closing _ _ | .closed => none

def isClosing (c : Connection R) : Bool :=
  match c.lifecycle with
  | .closing _ _ => true
  | .open | .closed => false

/-- When a packet is owed, or `none` while none is. The only judgement of
whether there is anything to send. -/
def transmitAt (c : Connection R) : Option Timestamp :=
  if c.lifecycle = .closed then none
  else if 0 < c.pendingProbes ∨ c.isClosing ∨ !c.control.isEmpty then some .zero
  else Timestamp.earliest c.acks.deadline c.dataAt

def transmitDue (c : Connection R) (now : Timestamp) : Bool := c.transmitAt.any fun at_ => at_ ≤ now

def buildHeader (c : Connection R) (now : Timestamp) : Header :=
  let sequence := Sequence.toWire c.crypto.nextSequence
  match c.crypto.ackState with
  | some state =>
    ⟨.payload, c.id, sequence, some (Sequence.toWire state.newest), Ack.encodeAckDelay (now.since state.receivedAt),
      state.bits⟩
  | none => ⟨.payload, c.id, sequence, none, 0, 0⟩

def writeClose (c : Connection R) (w : BitWriter) : BitWriter × Bool :=
  match c.lifecycle with
  | .closing reason _ => writeControlFrame w .close (BitWriter.writeBits reason.bits CloseReason.width)
  | .open | .closed => (w, false)

/-- Writes the frame that makes a probe or keepalive ack-eliciting. -/
def writePing (c : Connection R) (w : BitWriter) : Connection R × BitWriter × Bool :=
  if c.pendingProbes ≠ 0 then
    let r := writeControlFrame w .ping (pure ())
    if r.2 then ({ c with pendingProbes := c.pendingProbes - 1 }, r.1, true) else (c, r.1, false)
  else (c, w, false)

/-- Close first, then this side's own frames, then a keepalive ping. -/
def writeControl (c : Connection R) (w : BitWriter) : Connection R × BitWriter × Bool :=
  let close := c.writeClose w
  let queued := c.control.write close.1
  let ping := { c with control := queued.1 }.writePing queued.2.1
  (ping.1, ping.2.1, close.2 || queued.2.2 || ping.2.2)

/-- Channel frames, where the connection may send them and there is room. -/
def writeData (c : Connection R) (w : BitWriter) (limit : Nat) : Channels × BitWriter × PacketMessages × Bool :=
  if c.lifecycle = .open ∧ 0 < limit then c.channels.writeFrames w .empty limit else (c.channels, w, .empty, false)

/-- Counts a close notice, the last of which ends the connection. -/
def noticeSent (c : Connection R) : Connection R :=
  match c.lifecycle with
  | .closing reason remaining =>
    if remaining ≤ 1 then { c with lifecycle := .closed, events := c.events.push (.closed reason) }
    else { c with lifecycle := .closing reason (remaining - 1) }
  | .open | .closed => c

/-- A sealed packet's messages handed to the channels and the ledger. -/
def committed (c : Connection R) (now : Timestamp) (crypto : PacketCrypto) (staged : PacketMessages)
    (eliciting : Bool) : Connection R :=
  let sent := c.channels.onPacketSent staged
  { c with crypto, channels := sent.1 }.ledger
    (c.delivery.onSent now c.crypto.nextSequence (if eliciting then .eliciting sent.2 else .ackOnly))

/-- What follows a packet that was sealed. -/
def transmitted (c : Connection R) (now : Timestamp) (crypto : PacketCrypto) (staged : PacketMessages) (len : Nat)
    (eliciting : Bool) : Connection R :=
  let c := c.committed now crypto staged eliciting
  { c with budget := c.budget.onSent len eliciting, acks := c.acks.sent now eliciting }.noticeSent

/-- Closes the body of a packet begun in `begun`, seals it and commits what it
carries, or takes it back where the cipher refuses. -/
def sealPacket (c : Connection R) (now : Timestamp) (begun : List UInt8) (headerLen : Nat) (w : BitWriter)
    (staged : PacketMessages) (eliciting : Bool) : Connection R × Option (List UInt8) :=
  let finished := (writePadding w).finish
  match c.crypto.encrypt (overwrite begun headerLen finished.1) headerLen (headerLen + finished.2) with
  | none => ({ c with channels := c.channels.onPacketAborted staged }, none)
  | some (crypto, datagram) => (c.transmitted now crypto staged datagram.length eliciting, some datagram)

/-- The room a packet's body has behind its header. -/
def bodyWriter (begun : List UInt8) (headerLen : Nat) : BitWriter :=
  .new ((begun.drop headerLen).take (maxDatagram - tagLen - headerLen))

/-- A probe carries the messages whose acknowledgement it is waiting for. -/
def requeued (c : Connection R) : Channels :=
  if 0 < c.pendingProbes then c.channels.requeueOldest probeMessages else c.channels

/-- The connection as a packet is begun: its bucket refilled, and what a probe
carries again unsent. -/
def prepared (c : Connection R) (now : Timestamp) : Connection R :=
  { c with budget := (c.budget.available now).1, channels := c.requeued }

/-- Control frames, then what the rest of the allowance takes of the channels':
the packet, what it carries, and whether anything was written. -/
def fillPacket (c : Connection R) (allowance headerLen : Nat) (w : BitWriter) :
    Connection R × BitWriter × PacketMessages × Bool :=
  let control := c.writeControl w
  let overhead := headerLen + tagLen + Channels.bytesFor control.2.1.bitsWritten
  let data := control.1.writeData control.2.1 (allowance - overhead)
  ({ control.1 with channels := data.1 }, data.2.1, data.2.2.1, control.2.2 || data.2.2.2)

def buildPacket (c : Connection R) (now : Timestamp) (out : Packet) : Connection R × Option (List UInt8) :=
  let begun := (c.buildHeader now).encode out.bytes
  let r := (c.prepared now).fillPacket (c.budget.available now).2 begun.2 (bodyWriter begun.1 begun.2)
  if !r.2.2.2 && !r.1.acks.due now then
    -- Nothing to carry. Whatever is owed stays owed.
    ({ r.1 with channels := r.1.channels.onPacketAborted r.2.2.1 }, none)
  else r.1.sealPacket now begun.1 begun.2 r.2.1 r.2.2.1 r.2.2.2

/-- The budget's controller is run before anything is judged. -/
def assessed (c : Connection R) (now : Timestamp) : Connection R :=
  { c with budget := c.budget.assess now c.delivery.rtt }

/-- Builds the next packet, if there is one: the datagram. -/
def pollTransmit (c : Connection R) (now : Timestamp) (out : Packet) : Connection R × Option (List UInt8) :=
  let c := c.assessed now
  if c.transmitDue now then c.buildPacket now out else (c, none)

/-! ### Timers -/

variable [Role R]

/-- Loss detection, keepalives, and the role's own timer work. -/
def runTimers (c : Connection R) (now : Timestamp) : Connection R :=
  let r := c.delivery.onTimeout now
  let c := c.ledger (r.1, r.2.1)
  let c := { c with pendingProbes := max c.pendingProbes (r.2.2.getD 0) }
  let c :=
    if c.liveness.keepalive ≤ now.since c.delivery.lastEliciting then
      { c with pendingProbes := max c.pendingProbes 1 }
    else c
  Role.onTimeout c now

def handleTimeout (c : Connection R) (now : Timestamp) : Connection R :=
  if c.lifecycle = .closed then c
  else if c.liveness.idleTimeout ≤ now.since c.lastReceived then
    { c with lifecycle := .closed, events := c.events.push (.closed .timedOut) }
  else c.runTimers now

/-- The earliest time this connection next needs servicing. -/
def nextTimeout (c : Connection R) : Option Timestamp :=
  if c.lifecycle = .closed then none
  else
    let idle := c.lastReceived.saturatingAdd c.liveness.idleTimeout
    let keepalive := c.delivery.lastEliciting.saturatingAdd c.liveness.keepalive
    Timestamp.earliest (some idle) (Timestamp.earliest c.transmitAt (Timestamp.earliest c.delivery.nextTimeout
      (Timestamp.earliest (Role.nextDeadline c) (some keepalive))))

end Connection

/-! ## The two roles -/

/-- The resume ticket a client holds, and whether the application has seen it. -/
inductive ResumeTicket
  | none
  | unread (ticket : EncryptedTicket)
  | read

structure Client where
  ticket : ResumeTicket

structure Probe where
  addr : SocketAddr
  token : BitVec 64
  started : Timestamp
  deriving DecidableEq

abbrev SessionId := BitVec 64

/-- A sealed ticket's identity: the nonce it was sealed under. -/
structure TicketId where
  nonce : List UInt8
  len : nonce.length = nonceLen
  deriving DecidableEq

theorem TicketId.length_zeros : (List.replicate nonceLen (0 : UInt8)).length = nonceLen := List.length_replicate

structure Server where
  session : SessionId
  ticket : TicketId
  probe : Option Probe

namespace Client

def readTicket : Read EncryptedTicket := do
  let len ← BitReader.readRange 0 maxBlob
  BitReader.align
  let bytes ← BitReader.peek len
  match FixedVec.fromSlice bytes with
  | none => throw .outOfRange
  | some received =>
    BitReader.skipBytes len
    return received

def readControl (c : Connection Client) (_now : Timestamp) : ControlKind → Read (Connection Client)
  | .pathChallenge => do
    let token ← BitReader.readU64
    return { c with control := c.control.queuePathResponse (BitVec.ofNat 64 token) }
  | .resumeTicket => do
    let received ← readTicket
    return { c with role := ⟨.unread received⟩, events := c.events.push .resumeTicketReceived }
  | .accepted => return c
  | _ => throw .outOfRange

end Client

/-- Identifies the server by address, so it never validates paths. -/
instance : Role Client where
  readControl := Client.readControl
  onAddressChange c _ _ _ := c
  onTimeout c _ := c
  nextDeadline _ := none

namespace Server

/-- The pending probe was answered: its address is the connection's. -/
def migrate (c : Connection Server) (now : Timestamp) (pending : Probe) : Connection Server :=
  { c with
    role := { c.role with probe := none }
    addr := pending.addr
    delivery := c.delivery.onPathChange
    budget := c.budget.onPathChange now
    events := c.events.push (.migrated pending.addr) }

def pathResponse (c : Connection Server) (now : Timestamp) (token : BitVec 64) : Connection Server :=
  match c.role.probe with
  | none => c
  | some pending => if pending.token = token then migrate c now pending else c

def readControl (c : Connection Server) (now : Timestamp) : ControlKind → Read (Connection Server)
  | .pathResponse => do
    let token ← BitReader.readU64
    return pathResponse c now (BitVec.ofNat 64 token)
  | _ => throw .outOfRange

/-- What a path challenge asks to be echoed. -/
def challengeToken (now : Timestamp) (sequence : Nat) : BitVec 64 :=
  (BitVec.ofNat 64 sequence * 0x9E3779B97F4A7C15#64) ^^^ (BitVec.ofNat 64 now.nanos).rotateLeft 17

/-- The new address is challenged while traffic continues to the old one. -/
def onAddressChange (c : Connection Server) (now : Timestamp) (sender : SocketAddr) (sequence : Nat) :
    Connection Server :=
  if c.role.probe.any fun pending => pending.addr = sender then c
  else
    let token := challengeToken now sequence
    { c with
      role := { c.role with probe := some ⟨sender, token, now⟩ }
      control := c.control.queuePathChallenge token }

def onTimeout (c : Connection Server) (now : Timestamp) : Connection Server :=
  if c.role.probe.any fun pending => pathTimeout ≤ now.since pending.started then
    { c with role := { c.role with probe := none } }
  else c

def nextDeadline (c : Connection Server) : Option Timestamp :=
  c.role.probe.map fun pending => pending.started.saturatingAdd pathTimeout

end Server

/-- Validates any address change before trusting it. -/
instance : Role Server where
  readControl := Server.readControl
  onAddressChange := Server.onAddressChange
  onTimeout := Server.onTimeout
  nextDeadline := Server.nextDeadline

namespace Connection

def connect (now : Timestamp) (id : ConnectionId) (addr : SocketAddr) (tx rx : Aead) (channels : ChannelSet)
    (transport : TransportConfig) : Connection Client :=
  .new now id addr tx rx channels transport .none ⟨.none⟩

def accept (now : Timestamp) (id : ConnectionId) (session : SessionId) (ticket : TicketId) (addr : SocketAddr)
    (tx rx : Aead) (channels : ChannelSet) (transport : TransportConfig) : Connection Server :=
  .new now id addr tx rx channels transport { Owed.none with accepted := true } ⟨session, ticket, none⟩

def resendAcceptance (c : Connection Server) : Connection Server := { c with control := c.control.queueAccept }

/-- The address being probed: a packet sent to the primary address is also
sent here. -/
def probeAddr (c : Connection Server) : Option SocketAddr := c.role.probe.map (·.addr)

def sendResumeTicket (c : Connection Server) (ticket : EncryptedTicket) : Connection Server :=
  { c with control := c.control.queueTicket ticket }

/-- A ticket not yet seen by the application. -/
def takeResumeTicket (c : Connection Client) : Connection Client × Option EncryptedTicket :=
  match c.role.ticket with
  | .unread ticket => ({ c with role := ⟨.read⟩ }, some ticket)
  | .none | .read => (c, none)

end Connection
end HexNet
