/-
One direction of a connection, channels alone: a sender and a receiver over
one channel set, and between them packets that are lost, delayed, repeated
and reordered at will.

The sender queues, fills packets, commits them, and hears of their fate in
any order; a packet is read any number of times or never; an acknowledgement
comes only for a packet some reading of which met no error. Beside the two
sides a state logs what was sent, delivered and released, so that what a
message's sender is told can be compared with what became of it.
-/
import HexNet.ChannelFacts
import HexNet.Lib.Lts

namespace HexNet

structure LinkPacket where
  bytes : List UInt8
  staged : PacketMessages
  /-- What the ledger keeps for it, from the moment it is sent. -/
  record : Option PacketRecord
  /-- Whether the receiver has read it without error. -/
  arrived : Bool

structure Link where
  sender : Channels
  receiver : Channels
  packets : List LinkPacket
  /-- Messages accepted by `send`, in order. -/
  sent : List Message
  /-- Messages handed to the receiving application, in order. -/
  delivered : List Message
  /-- Messages released by `on_acked`, in order. -/
  released : List Message

inductive LinkOp
  | send (channel : Nat) (payload : List UInt8)
  | build (buf : List UInt8) (limit : Nat)
  | commit (i : Nat)
  /-- The packet, or a copy of it, reaches the receiver. -/
  | read (i : Nat)
  | ack (i : Nat)
  | lose (i : Nat)
  | requeue (max : Nat)

/-- A packet in a buffer of 64 bytes, with all of it to spend: room for eight
one-byte messages. -/
def LinkOp.smallBuild : LinkOp := .build (List.replicate 64 0) 64

/-- The pending messages `on_acked` releases, with the payloads they hold. -/
def Channels.acking (c : Channels) : List MessageKey → List Message
  | [] => []
  | key :: rest =>
    ((c.pending.items.find? fun m => m.key == key).map fun m =>
      ⟨m.channel, m.id, (c.sendArena.load m.bytes maxMessage).getD []⟩).toList ++ (c.releasePending key).acking rest

namespace Link

def start (set : ChannelSet) : Link where
  sender := .new set
  receiver := .new set
  packets := []
  sent := []
  delivered := []
  released := []

def apply (s : Link) : LinkOp → Option Link
  | .send channel payload =>
    match s.sender.send channel payload with
    | (sender, .ok _) => some { s with sender, sent := s.sent ++ [⟨channel, s.sender.nextIds channel, payload⟩] }
    | (sender, .error _) => some { s with sender }
  | .build buf limit =>
    let r := s.sender.writeFrames (.new buf) .empty limit
    some { s with
      sender := r.1
      packets := s.packets ++ [⟨Channels.packetBytes r.2.1, r.2.2.1, none, false⟩] }
  | .commit i =>
    s.packets[i]?.bind fun packet =>
      if packet.record.isSome then none
      else
        let r := s.sender.onPacketSent packet.staged
        some { s with sender := r.1, packets := s.packets.set i { packet with record := some r.2 } }
  | .read i =>
    s.packets[i]?.bind fun packet =>
      if packet.record.isNone then none
      else
        let r := s.receiver.readFrames (8 * packet.bytes.length + 1) (.new packet.bytes)
        some { s with
          receiver := r.1
          delivered := s.delivered ++ r.2.1
          packets := s.packets.set i { packet with arrived := packet.arrived || r.2.2 } }
  | .ack i =>
    s.packets[i]?.bind fun packet =>
      packet.record.bind fun record =>
        if packet.arrived then
          some { s with
            sender := s.sender.onAcked record
            released := s.released ++ s.sender.acking record.items }
        else none
  | .lose i =>
    s.packets[i]?.bind fun packet =>
      packet.record.map fun record => { s with sender := s.sender.onLost record }
  | .requeue max => some { s with sender := s.sender.requeueOldest max }

end Link

def linkSys (set : ChannelSet) : Lts.Sys Link LinkOp := .ofNext (.start set) Link.apply

end HexNet
