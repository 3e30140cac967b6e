/-
Delivery guarantees, chosen per message (`channel.rs`): the send queue and
its in-flight marks, the frames it fills a packet with, and what a receiver
does with each frame. The two directions are one record, as in the source.

A call that hands messages to the application returns them: a `Message` is
what `on_message` is given, with the id it was delivered under.
-/
import HexNet.ArenaFacts
import HexNet.Fixed
import HexNet.Seq
import HexNet.Wire

namespace HexNet

def arenaBlocks : Nat := 64
def maxPending : Nat := 64
def maxHeld : Nat := maxPending
def maxMessagesPerPacket : Nat := 8

/-- A message's position within its channel, a wrapping `u32`. -/
abbrev MessageId := UInt32

namespace MessageId

def first : MessageId := 0
def next (i : MessageId) : MessageId := i + 1
def toWire (i : MessageId) : WireSequence := i.toUInt16

/-- Resolved against a reference both sides track; `none` outside a `u32`. -/
def fromWire (reference : MessageId) (wire : WireSequence) : Option MessageId :=
  (reconstruct reference.toNat wire).bind fun full => if full < 2 ^ 32 then some (UInt32.ofNat full) else none

/-- How far ahead of `earlier` this is, both a wrapping counter. -/
def distanceFrom (i earlier : MessageId) : Int := (i - earlier).toBitVec.toInt

end MessageId

inductive ChannelKind
  | unreliable
  | unreliableSequenced
  | reliableUnordered
  | reliableOrdered
  deriving DecidableEq, Repr

namespace ChannelKind

def isReliable : ChannelKind → Bool
  | reliableUnordered | reliableOrdered => true
  | unreliable | unreliableSequenced => false

def needsId : ChannelKind → Bool
  | unreliable => false
  | _ => true

end ChannelKind

/-- The channel set a connection uses: a channel travels as its index. -/
structure ChannelSet where
  kinds : List ChannelKind
  le : kinds.length ≤ maxChannels

namespace ChannelSet

theorem length_one_le (kind : ChannelKind) : [kind].length ≤ maxChannels := show 1 ≤ maxChannels by decide

def len (s : ChannelSet) : Nat := s.kinds.length
def kind (s : ChannelSet) (channel : Nat) : Option ChannelKind := s.kinds[channel]?

end ChannelSet

/-- A set of one reliable ordered channel. -/
def orderedOnly : ChannelSet := ⟨[.reliableOrdered], ChannelSet.length_one_le _⟩

inductive SendError
  | tooLarge
  | noSuchChannel
  /-- The pending list or the arena is full. -/
  | wouldBlock
  deriving DecidableEq, Repr

structure MessageKey where
  channel : Nat
  id : MessageId
  deriving DecidableEq, Repr

structure Pending where
  channel : Nat
  id : MessageId
  bytes : ByteRef
  inFlight : Bool
  deriving DecidableEq, Repr

structure Held where
  channel : Nat
  id : MessageId
  bytes : ByteRef
  deriving DecidableEq, Repr

/-- A message as a frame carries it, and as the application is handed it. -/
structure Message where
  channel : Nat
  id : MessageId
  payload : List UInt8
  deriving DecidableEq, Repr

def Pending.key (m : Pending) : MessageKey := ⟨m.channel, m.id⟩
def Held.key (h : Held) : MessageKey := ⟨h.channel, h.id⟩
def Message.key (m : Message) : MessageKey := ⟨m.channel, m.id⟩

/-- Per-channel receive state, the same record for every kind. -/
structure ReceiverState where
  /-- Sequenced: the newest id delivered. -/
  newest : MessageId
  hasNewest : Bool
  /-- Unordered: which recent ids were delivered. -/
  seenNewest : MessageId
  seenMask : BitVec 64
  seenStarted : Bool
  /-- Ordered: the next id that may be delivered. -/
  expected : MessageId

namespace ReceiverState

def new : ReceiverState := ⟨.first, false, .first, 0, false, .first⟩

/-- Whether an id is new to the unordered duplicate set. Ids older than the
window count as seen. -/
def acceptUnordered (s : ReceiverState) (id : MessageId) : ReceiverState × Bool :=
  if !s.seenStarted then ({ s with seenStarted := true, seenNewest := id, seenMask := 1 }, true)
  else
    let distance := id.distanceFrom s.seenNewest
    if 0 < distance then
      let shift := distance.toNat
      let mask := if 64 ≤ shift then 0 else s.seenMask <<< shift
      ({ s with seenMask := mask ||| 1, seenNewest := id }, true)
    else
      let offset := (-distance).toNat
      if 64 ≤ offset then (s, false)
      else if s.seenMask.getLsbD offset then (s, false)
      else ({ s with seenMask := s.seenMask ||| 1 <<< offset }, true)

end ReceiverState

structure Written where
  channel : Nat
  id : MessageId
  reliable : Bool
  deriving DecidableEq, Repr

def Written.key (w : Written) : MessageKey := ⟨w.channel, w.id⟩

/-- Which messages rode in the packet being built. -/
abbrev PacketMessages := FixedVec Written maxMessagesPerPacket

/-- The reliable messages a sent packet carried. -/
abbrev PacketRecord := FixedVec MessageKey maxMessagesPerPacket

inductive Accepted
  | deliver
  | hold
  | discard
  deriving DecidableEq, Repr

structure Channels where
  set : ChannelSet
  nextIds : Nat → MessageId
  receivers : Nat → ReceiverState
  /-- Unacknowledged and unsent messages, oldest first. -/
  pending : FixedVec Pending maxPending
  /-- Messages ahead of their channel's expected id. -/
  held : FixedVec Held maxHeld
  sendArena : Arena arenaBlocks
  recvArena : Arena arenaBlocks
  droppedInbound : Nat

namespace Channels

def new (set : ChannelSet) : Channels where
  set := set
  nextIds := fun _ => .first
  receivers := fun _ => .new
  pending := .empty
  held := .empty
  sendArena := .new
  recvArena := .new
  droppedInbound := 0

def kind (c : Channels) (channel : Nat) : Option ChannelKind := c.set.kind channel

/-! ## Sending -/

def send (c : Channels) (channel : Nat) (payload : List UInt8) : Channels × Except SendError Unit :=
  if maxMessage < payload.length then (c, .error .tooLarge)
  else if (c.kind channel).isNone then (c, .error .noSuchChannel)
  else if c.pending.isFull then (c, .error .wouldBlock)
  else
    match c.sendArena.store payload with
    | (sendArena, none) => ({ c with sendArena }, .error .wouldBlock)
    | (sendArena, some bytes) =>
      let id := c.nextIds channel
      let pushed := c.pending.push ⟨channel, id, bytes, false⟩
      if pushed.2 then
        ({ c with sendArena, pending := pushed.1, nextIds := Function.update c.nextIds channel id.next }, .ok ())
      else ({ c with sendArena := sendArena.release bytes }, .error .wouldBlock)

def writeId (kind : ChannelKind) (id : MessageId) : Write Unit :=
  if kind.needsId then BitWriter.writeBits id.toWire.toNat messageIdBits else pure ()

/-- Writes one message frame. The frame kind has already been written. -/
def writeMessageFrame (kind : ChannelKind) (pending : Pending) (arena : Arena arenaBlocks) : Write Unit := do
  BitWriter.writeRange pending.channel 0 (maxChannels - 1)
  writeId kind pending.id
  BitWriter.writeRange pending.bytes.len 0 maxMessage
  BitWriter.align
  (arena.chunks pending.bytes).forM BitWriter.writeBytes

def writeFrame (kind : ChannelKind) (pending : Pending) (arena : Arena arenaBlocks) : Write Unit := do
  FrameKind.message.write
  writeMessageFrame kind pending arena

/-- A packet being filled: what `write_frames` changes. -/
structure Filling where
  pending : FixedVec Pending maxPending
  w : BitWriter
  staged : PacketMessages
  wrote : Bool

/-- Bytes a run of bits takes. -/
def bytesFor (bits : Nat) : Nat := (bits + 7) / 8

/-- One channel's turn, and whether the next channel gets one: the loop ends
for all channels where the packet is full or its allowance spent, and for
this one where its queue is empty or a frame does not fit. A packet takes
`maxMessagesPerPacket` messages, so the loop runs at most one turn more. -/
def fillChannel (arena : Arena arenaBlocks) (limit start channel : Nat) (kind : ChannelKind) :
    Nat → Filling → Filling × Bool
  | 0, s => (s, false)
  | fuel + 1, s =>
    if s.staged.isFull || decide (limit ≤ bytesFor (s.w.bitsWritten - start)) then (s, false)
    else
      match s.pending.items.find? fun m => m.channel == channel && !m.inFlight with
      | none => (s, true)
      | some pending =>
        let checkpoint := s.w.checkpoint
        match (writeFrame kind pending arena).run s.w with
        | .error _ w => ({ s with w := w.rollback checkpoint }, true)
        | .ok _ w =>
          if limit < bytesFor (w.bitsWritten - start) then ({ s with w := w.rollback checkpoint }, false)
          else
            fillChannel arena limit start channel kind fuel
              { pending := s.pending.modifyFirst (fun m => m.channel == channel && !m.inFlight)
                  fun m => { m with inFlight := true }
                w
                staged := (s.staged.push ⟨channel, pending.id, kind.isReliable⟩).1
                wrote := true }

def fillChannels (set : ChannelSet) (arena : Arena arenaBlocks) (limit start : Nat) : List Nat → Filling → Filling
  | [], s => s
  | channel :: rest, s =>
    match set.kind channel with
    | none => fillChannels set arena limit start rest s
    | some kind =>
      let r := fillChannel arena limit start channel kind (maxMessagesPerPacket + 1) s
      if r.2 then fillChannels set arena limit start rest r.1 else r.1

/-- Fills the remaining space, using at most `limit` bytes of the datagram's
allowance: the packet with the messages staged, and whether any was written. -/
def writeFrames (c : Channels) (w : BitWriter) (staged : PacketMessages) (limit : Nat) :
    Channels × BitWriter × PacketMessages × Bool :=
  let s := fillChannels c.set c.sendArena limit w.bitsWritten (List.range c.set.len) ⟨c.pending, w, staged, false⟩
  ({ c with pending := s.pending }, s.w, s.staged, s.wrote)

/-! ## Outcomes -/

/-- Removes a message from the send queue and frees its storage. -/
def releasePending (c : Channels) (key : MessageKey) : Channels :=
  match c.pending.items.find? fun m => m.key == key with
  | none => c
  | some outbound =>
    { c with
      pending := c.pending.removeFirst fun m => m.key == key
      sendArena := c.sendArena.release outbound.bytes }

/-- A lost message returns to the queue. -/
def markLost (c : Channels) (key : MessageKey) : Channels :=
  { c with pending := c.pending.modifyFirst (fun m => m.key == key) fun m => { m with inFlight := false } }

def commitOne (s : Channels × PacketRecord) (msg : Written) : Channels × PacketRecord :=
  if msg.reliable then (s.1, (s.2.push msg.key).1) else (s.1.releasePending msg.key, s.2)

/-- The packet was sent: unreliable messages are released, reliable ones are
the record the delivery ledger keeps for the packet. -/
def onPacketSent (c : Channels) (staged : PacketMessages) : Channels × PacketRecord :=
  staged.items.foldl commitOne (c, .empty)

/-- The packet was not sent: staged messages return to the send queues. -/
def onPacketAborted (c : Channels) (staged : PacketMessages) : Channels :=
  staged.items.foldl (fun c msg => c.markLost msg.key) c

def onAcked (c : Channels) (record : PacketRecord) : Channels := record.items.foldl releasePending c

def onLost (c : Channels) (record : PacketRecord) : Channels := record.items.foldl markLost c

/-- Marks up to `max` of the oldest unacknowledged messages as unsent. -/
def requeueOldest (c : Channels) (max : Nat) : Channels :=
  { c with pending := c.pending.modifyUpTo (fun m => m.inFlight) (fun m => { m with inFlight := false }) max }

/-- Payload length of the message the next packet tries first. -/
def nextUnsentLen (c : Channels) : Option Nat :=
  (List.range c.set.len).findSome? fun channel =>
    (c.pending.items.find? fun m => m.channel == channel && !m.inFlight).map fun m => m.bytes.len

/-! ## Receiving -/

/-- The reference an incoming wire id is resolved against. -/
def reference (c : Channels) (channel : Nat) : ChannelKind → MessageId
  | .unreliable => .first
  | .unreliableSequenced => (c.receivers channel).newest
  | .reliableUnordered => (c.receivers channel).seenNewest
  | .reliableOrdered => (c.receivers channel).expected

def setReceiver (c : Channels) (channel : Nat) (state : ReceiverState) : Channels :=
  { c with receivers := Function.update c.receivers channel state }

/-- Decides what a channel does with an arriving id, advancing the receiver's
own state. -/
def classify (c : Channels) (channel : Nat) (kind : ChannelKind) (id : MessageId) : Channels × Accepted :=
  let state := c.receivers channel
  match kind with
  | .unreliable => (c, .deliver)
  | .unreliableSequenced =>
    if state.hasNewest ∧ id.distanceFrom state.newest ≤ 0 then (c, .discard)
    else (c.setReceiver channel { state with newest := id, hasNewest := true }, .deliver)
  | .reliableUnordered =>
    let r := state.acceptUnordered id
    (c.setReceiver channel r.1, if r.2 then .deliver else .discard)
  | .reliableOrdered =>
    let distance := id.distanceFrom state.expected
    if distance < 0 then (c, .discard)
    else if distance = 0 then (c.setReceiver channel { state with expected := state.expected.next }, .deliver)
    else if c.held.items.any fun e => e.key == ⟨channel, id⟩ then (c, .discard)
    else (c, .hold)

/-- The held message `channel` expects next, if it is held. -/
def nextHeld (c : Channels) (channel : Nat) : Option Held :=
  c.held.items.find? fun e => e.key == ⟨channel, (c.receivers channel).expected⟩

/-- Takes a message off the hold list, its channel now expecting the next. -/
def takeHeld (c : Channels) (channel : Nat) (entry : Held) : Channels :=
  { c.setReceiver channel { c.receivers channel with expected := entry.id.next } with
    held := c.held.removeFirst fun e => e.key == entry.key
    recvArena := c.recvArena.release entry.bytes }

/-- Delivers held messages that the last delivery unblocked. Each turn takes
one off the hold list, so its length bounds the turns. -/
def flushOrdered (channel : Nat) : Nat → Channels → Channels × List Message
  | 0, c => (c, [])
  | fuel + 1, c =>
    match c.nextHeld channel with
    | none => (c, [])
    | some entry =>
      let loaded := c.recvArena.load entry.bytes maxMessage
      let rest := flushOrdered channel fuel (c.takeHeld channel entry)
      (rest.1, (loaded.map fun payload => ⟨channel, entry.id, payload⟩).toList ++ rest.2)

/-- What `read_message` does with a message once it has been read. -/
def dispatch (c : Channels) (channel : Nat) (kind : ChannelKind) (id : MessageId) (payload : List UInt8) :
    Channels × List Message :=
  match c.classify channel kind id with
  | (c, .discard) => (c, [])
  | (c, .deliver) =>
    if kind = .reliableOrdered ∧ c.held.items ≠ [] then
      let r := flushOrdered channel c.held.items.length c
      (r.1, ⟨channel, id, payload⟩ :: r.2)
    else (c, [⟨channel, id, payload⟩])
  | (c, .hold) =>
    if c.held.isFull then ({ c with droppedInbound := c.droppedInbound + 1 }, [])
    else
      match c.recvArena.store payload with
      | (recvArena, none) => ({ c with recvArena, droppedInbound := c.droppedInbound + 1 }, [])
      | (recvArena, some bytes) => ({ c with recvArena, held := (c.held.push ⟨channel, id, bytes⟩).1 }, [])

/-- The id of an arriving message: its wire bits resolved against the
channel's reference, or nothing where the kind carries none. -/
def resolveId (c : Channels) (channel : Nat) (kind : ChannelKind) (wire : WireSequence) : Option MessageId :=
  if kind.needsId then MessageId.fromWire (c.reference channel kind) wire else some .first

def readId (kind : ChannelKind) : Read WireSequence :=
  if kind.needsId then do return UInt16.ofNat (← BitReader.readBits messageIdBits) else pure 0

def readMessage (c : Channels) : Read (Channels × List Message) := do
  let channel ← BitReader.readRange 0 (maxChannels - 1)
  match c.kind channel with
  | none => throw .outOfRange
  | some kind =>
    let wire ← readId kind
    match c.resolveId channel kind wire with
    | none => throw .outOfRange
    | some id =>
      let len ← BitReader.readRange 0 maxMessage
      BitReader.align
      let payload ← BitReader.peek len
      BitReader.skipBytes len
      return c.dispatch channel kind id payload

end Channels
end HexNet
